import Mathlib.Data.List.Induction

/-!
# The last choice decides

Settings come one after another, and some of them choose a value; the last choice is
the one that counts, and before the first one a default holds.  `Extends` compares two
ways of reading a setting, one of which sees choices where the other sees none;
`decision_eq_iff` says when they still come to the same.
-/

namespace LastChoice

variable {α β : Type*}

/-- The value after the settings `xs`. -/
def decision (choice : α → Option β) (default : β) (xs : List α) : β :=
  (xs.reverse.findSome? choice).getD default

variable {choice : α → Option β} {default : β}

@[simp] theorem decision_nil : decision choice default [] = default := rfl

/-- One more setting. -/
theorem decision_concat (xs : List α) (x : α) :
    decision choice default (xs ++ [x]) = (choice x).getD (decision choice default xs) := by
  unfold decision
  rw [List.reverse_append, List.reverse_singleton, List.singleton_append, List.findSome?_cons]
  cases choice x <;> rfl

/-- Settings that choose nothing. -/
theorem decision_append_of_none {xs ys : List α} (h : ∀ y ∈ ys, choice y = none) :
    decision choice default (xs ++ ys) = decision choice default xs := by
  unfold decision
  rw [List.reverse_append, List.findSome?_append, List.findSome?_eq_none_iff.2 fun y hy =>
    h y (List.mem_reverse.1 hy), Option.none_or]

/-- The last choice, if there is one. -/
theorem exists_last {xs : List α} : (∀ x ∈ xs, choice x = none) ∨
    ∃ xs₁ x xs₂ b, xs = xs₁ ++ x :: xs₂ ∧ choice x = some b ∧ ∀ y ∈ xs₂, choice y = none := by
  induction xs using List.reverseRecOn with
  | nil => exact Or.inl fun x hx => absurd hx List.not_mem_nil
  | append_singleton xs x ih =>
    cases hx : choice x with
    | some b => exact Or.inr ⟨xs, x, [], b, rfl, hx, fun y hy => absurd hy List.not_mem_nil⟩
    | none =>
      rcases ih with hnone | ⟨xs₁, z, xs₂, b, rfl, hz, hnone⟩
      · refine Or.inl fun y hy => ?_
        rcases List.mem_append.1 hy with hy | hy
        · exact hnone y hy
        · exact List.mem_singleton.1 hy ▸ hx
      · refine Or.inr ⟨xs₁, z, xs₂ ++ [x], b, by simp, hz, fun y hy => ?_⟩
        rcases List.mem_append.1 hy with hy | hy
        · exact hnone y hy
        · exact List.mem_singleton.1 hy ▸ hx

/-- The last choice is what is decided. -/
theorem decision_of_last {xs₁ xs₂ : List α} {x : α} {b : β} (hx : choice x = some b)
    (hnone : ∀ y ∈ xs₂, choice y = none) : decision choice default (xs₁ ++ x :: xs₂) = b := by
  rw [List.append_cons, decision_append_of_none hnone, decision_concat, hx]
  rfl

/-- `loose` sees every choice that `strict` sees. -/
def Extends (loose strict : α → Option β) : Prop := ∀ x b, strict x = some b → loose x = some b

/-- **The two readings come to the same** if and only if the last setting that the loose one takes
for a choice is one for the strict one, or chooses what had been decided without it. -/
theorem decision_eq_iff {loose strict : α → Option β} (hext : Extends loose strict) (default : β)
    (xs : List α) : decision loose default xs = decision strict default xs ↔
      ∀ xs₁ x xs₂ b, xs = xs₁ ++ x :: xs₂ → loose x = some b → (∀ y ∈ xs₂, loose y = none) →
        strict x = some b ∨ decision strict default xs₁ = b := by
  have hnone : ∀ {ys : List α}, (∀ y ∈ ys, loose y = none) → ∀ y ∈ ys, strict y = none := by
    intro ys h y hy
    cases hy' : strict y with
    | none => rfl
    | some b =>
      have := h y hy
      rw [hext y b hy'] at this
      cases this
  have hlast : ∀ {xs₁ xs₂ : List α} {x : α} {b : β}, loose x = some b →
      (∀ y ∈ xs₂, loose y = none) →
      (decision strict default (xs₁ ++ x :: xs₂) = b ↔
        strict x = some b ∨ decision strict default xs₁ = b) := by
    intro xs₁ xs₂ x b hx hys
    rw [List.append_cons, decision_append_of_none (hnone hys), decision_concat]
    cases hstrict : strict x with
    | none => simp
    | some c =>
      obtain rfl : c = b := Option.some.inj ((hext x c hstrict).symm.trans hx)
      simp
  constructor
  · rintro h xs₁ x xs₂ b rfl hx hys
    rw [decision_of_last hx hys] at h
    exact (hlast hx hys).1 h.symm
  · intro h
    rcases @exists_last _ _ loose xs with hall | ⟨xs₁, x, xs₂, b, rfl, hx, hys⟩
    · rw [← List.nil_append xs, decision_append_of_none hall, decision_append_of_none (hnone hall)]
      rfl
    · rw [decision_of_last hx hys]
      exact ((hlast hx hys).2 (h xs₁ x xs₂ b rfl hx hys)).symm

end LastChoice
