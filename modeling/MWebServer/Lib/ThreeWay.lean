import Mathlib

/-!
# Three-way comparison

A comparison function of C answers -1, 0 or 1.  Where its answers are those of a linear
order (`answer`), the laws its callers rely on hold: equality at 0 (`answer_eq_zero`),
opposite answers for exchanged arguments (`answer_swap`), transitivity (`answer_trans`).
`answer_cons` is the rule for comparisons of lists element by element.
-/

namespace ThreeWay

variable {α β : Type*} [LinearOrder α] [LinearOrder β]

/-- The number that stands for an ordering. -/
def ofOrdering : Ordering → Int
  | .lt => -1
  | .eq => 0
  | .gt => 1

/-- The answer on two elements of a linear order. -/
def answer (a b : α) : Int := ofOrdering (cmp a b)

theorem answer_of_lt {a b : α} (h : a < b) : answer a b = -1 := by
  rw [answer, h.cmp_eq_lt]
  rfl

theorem answer_of_gt {a b : α} (h : b < a) : answer a b = 1 := by
  rw [answer, h.cmp_eq_gt]
  rfl

@[simp] theorem answer_self (a : α) : answer a a = 0 := by
  rw [answer, cmp_self_eq_eq]
  rfl

theorem answer_eq_zero {a b : α} : answer a b = 0 ↔ a = b := by
  refine Iff.trans ?_ (cmp_eq_eq_iff a b)
  unfold answer
  cases cmp a b <;> decide

theorem answer_nonpos {a b : α} : answer a b ≤ 0 ↔ a ≤ b := by
  refine Iff.trans ?_ (cmp_compares a b).ne_gt
  unfold answer
  cases cmp a b <;> decide

/-- Exchanged arguments have the opposite answer. -/
theorem answer_swap (a b : α) : answer a b = -answer b a := by
  rw [answer, answer, ← cmp_swap b a]
  cases cmp b a <;> rfl

theorem answer_trans {a b c : α} (hab : answer a b ≤ 0) (hbc : answer b c ≤ 0) : answer a c ≤ 0 :=
  answer_nonpos.2 ((answer_nonpos.1 hab).trans (answer_nonpos.1 hbc))

/-- There are three answers. -/
theorem answer_cases (a b : α) : answer a b = -1 ∨ answer a b = 0 ∨ answer a b = 1 := by
  unfold answer
  cases cmp a b <;> decide

/-- A strictly monotone map keeps the answers. -/
theorem answer_map {f : α → β} (hf : StrictMono f) (a b : α) : answer (f a) (f b) = answer a b := by
  rw [answer, answer, hf.cmp_map_eq]

/-- Two lists are compared at their heads first. -/
theorem answer_cons (a b : α) (l r : List α) :
    answer (a :: l) (b :: r) = if a < b then -1 else if b < a then 1 else answer l r := by
  rcases lt_trichotomy a b with hlt | rfl | hgt
  · rw [if_pos hlt, answer_of_lt (List.Lex.rel hlt)]
  · rw [if_neg (lt_irrefl a), if_neg (lt_irrefl a)]
    rcases lt_trichotomy l r with hlr | rfl | hrl
    · rw [answer_of_lt hlr, answer_of_lt (List.Lex.cons hlr)]
    · rw [answer_self, answer_self]
    · rw [answer_of_gt hrl, answer_of_gt (List.Lex.cons hrl)]
  · rw [if_neg hgt.not_gt, if_pos hgt, answer_of_gt (List.Lex.rel hgt)]

/-- A beginning of a list comes before the list. -/
theorem answer_nil_cons (b : α) (r : List α) : answer [] (b :: r) = -1 :=
  answer_of_lt List.Lex.nil

theorem answer_cons_nil (a : α) (l : List α) : answer (a :: l) [] = 1 :=
  answer_of_gt List.Lex.nil

end ThreeWay
