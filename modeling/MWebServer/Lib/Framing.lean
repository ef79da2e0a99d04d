import Mathlib

/-!
# Items in a stream

A reader takes one item from the beginning of a stream, and leaves what is behind it.  When
every item that was written is read back like this, a stream of items is read back.

* `ReadsBack` — one item, in front of anything.
* `readAll_flatMap` — all of them.
-/

namespace Framing

variable {α β : Type*}

/-- Items are read until nothing is left. -/
def readAll (read : List β → Option (α × List β)) : Nat → List β → Option (List α)
  | _, [] => some []
  | 0, _ :: _ => none
  | fuel + 1, b :: bs =>
      match read (b :: bs) with
      | none => none
      | some (a, rest) => (readAll read fuel rest).map (a :: ·)

/-- What is written for `a` is there, and read back whatever stands behind it. -/
structure ReadsBack (read : List β → Option (α × List β)) (write : α → List β) (a : α) : Prop where
  ne_nil : write a ≠ []
  eq : ∀ rest, read (write a ++ rest) = some (a, rest)

variable {read : List β → Option (α × List β)} {write : α → List β}

/-- One item in front of others. -/
theorem readAll_append {a : α} (h : ReadsBack read write a) (fuel : Nat) (rest : List β) :
    readAll read (fuel + 1) (write a ++ rest) = (readAll read fuel rest).map (a :: ·) := by
  obtain ⟨b, bs, hb⟩ := List.exists_cons_of_ne_nil h.ne_nil
  have heq := h.eq rest
  rw [hb, List.cons_append] at heq
  rw [hb, List.cons_append, readAll, heq]

/-- There are at least as many bytes as items. -/
theorem length_le_flatMap {as : List α} (h : ∀ a ∈ as, ReadsBack read write a) :
    as.length ≤ (as.flatMap write).length := by
  induction as with
  | nil => exact le_rfl
  | cons a as ih =>
    have hpos := List.length_pos_iff.2 (h a List.mem_cons_self).ne_nil
    have hrest := ih fun b hb => h b (List.mem_cons_of_mem a hb)
    rw [List.flatMap_cons, List.length_append, List.length_cons]
    omega

/-- **A stream of items is read back.** -/
theorem readAll_flatMap {as : List α} (h : ∀ a ∈ as, ReadsBack read write a) {fuel : Nat}
    (hfuel : as.length ≤ fuel) : readAll read fuel (as.flatMap write) = some as := by
  induction as generalizing fuel with
  | nil => cases fuel <;> rfl
  | cons a as ih =>
    obtain ⟨fuel, rfl⟩ := Nat.exists_eq_succ_of_ne_zero (Nat.ne_zero_of_lt hfuel)
    rw [List.flatMap_cons, readAll_append (h a List.mem_cons_self),
      ih (fun b hb => h b (List.mem_cons_of_mem a hb)) (Nat.le_of_succ_le_succ hfuel)]
    rfl

end Framing
