import Mathlib

/-!
# Walks in a tree

A move stays where it is, goes up, or goes into a child by name.  `resolve` follows
moves from a place given by the names on the way to it, innermost first, and fails
when it would go above the root.

`resolve_isSome_iff` says when it does not: no beginning of the walk goes up more
often than it has gone in.
-/

namespace Walk

variable {α : Type*}

/-- One move. -/
inductive Move (α : Type*) where
  | stay
  | up
  | into (a : α)

/-- The move goes up. -/
def Move.isUp : Move α → Bool
  | .up => true
  | _ => false

/-- The move goes into a child. -/
def Move.isInto : Move α → Bool
  | .into _ => true
  | _ => false

/-- Follow moves from a place; `none` above the root. -/
def resolve : List α → List (Move α) → Option (List α)
  | st, [] => some st
  | st, .stay :: ms => resolve st ms
  | st, .into a :: ms => resolve (a :: st) ms
  | _ :: st, .up :: ms => resolve st ms
  | [], .up :: _ => none

/-- A statement about all beginnings of a walk, split at its first move. -/
theorem forall_take_cons {P : List (Move α) → Prop} (m : Move α) (ms : List (Move α)) :
    (∀ k, P ((m :: ms).take k)) ↔ P [] ∧ ∀ k, P (m :: ms.take k) := by
  constructor
  · intro h
    exact ⟨h 0, fun k => h (k + 1)⟩
  · rintro ⟨h0, h⟩ k
    cases k with
    | zero => exact h0
    | succ k => exact h k

/-- **A walk stays below the root** exactly when no beginning of it goes up more often than it
was deep and has gone in. -/
theorem resolve_isSome_iff (st : List α) (ms : List (Move α)) :
    (resolve st ms).isSome ↔ ∀ k, (ms.take k).countP Move.isUp ≤
      st.length + (ms.take k).countP Move.isInto := by
  induction ms generalizing st with
  | nil => simp [resolve]
  | cons m ms ih =>
    rw [forall_take_cons (P := fun xs => xs.countP Move.isUp ≤
      st.length + xs.countP Move.isInto)]
    cases m with
    | stay =>
      rw [resolve, ih]
      simp [Move.isUp, Move.isInto]
    | into a =>
      rw [resolve, ih]
      simp only [List.countP_nil, Nat.zero_le, true_and, List.countP_cons, Move.isUp, Move.isInto,
        List.length_cons, Bool.false_eq_true, if_false, if_true]
      exact forall_congr' fun k => by omega
    | up =>
      cases st with
      | nil =>
        rw [resolve]
        simp only [Option.isSome_none, Bool.false_eq_true, false_iff, not_and, not_forall]
        exact fun _ => ⟨0, by simp [Move.isUp, Move.isInto]⟩
      | cons a st =>
        rw [resolve, ih]
        simp only [List.countP_nil, Nat.zero_le, true_and, List.countP_cons, Move.isUp, Move.isInto,
          List.length_cons, Bool.false_eq_true, if_false, if_true]
        exact forall_congr' fun k => by omega

end Walk
