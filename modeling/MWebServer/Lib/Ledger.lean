import Mathlib.Data.List.Count

/-!
# Things that are taken and given back

A ledger lists what has been `taken` and what has been `returned`; of what was taken,
`held` is still to be returned.

* `Ledger.take` and `Ledger.give` — the two steps.
* `Ledger.foreign` — what was never taken may be returned as well.
* `Ledger.balanced_iff` — everything has been returned exactly once if and only if nothing is
  held.
-/

variable {α : Type} [DecidableEq α]

/-- What has been taken has been returned once, or is held. -/
structure Ledger (taken returned held : List α) : Prop where
  mem_taken : ∀ a ∈ held, a ∈ taken
  once : ∀ a ∈ taken, returned.count a + held.count a = 1

namespace Ledger

variable {taken returned held : List α} {a : α}

theorem nil (returned : List α) : Ledger [] returned [] :=
  ⟨fun _ ha => ha, fun _ ha => absurd ha List.not_mem_nil⟩

/-- The order in which things are held does not matter. -/
theorem perm {held' : List α} (h : Ledger taken returned held) (hperm : held.Perm held') :
    Ledger taken returned held' := by
  refine ⟨fun a ha => h.mem_taken a (hperm.mem_iff.2 ha), fun a ha => ?_⟩
  rw [← hperm.count_eq]
  exact h.once a ha

/-- Something new is taken. -/
theorem take (h : Ledger taken returned held) (hnew : a ∉ taken) (hkept : a ∉ returned) :
    Ledger (taken ++ [a]) returned (held ++ [a]) := by
  refine ⟨fun b hb => ?_, fun b hb => ?_⟩
  · rcases List.mem_append.1 hb with hheld | hb
    · exact List.mem_append_left _ (h.mem_taken b hheld)
    · exact List.mem_append_right _ hb
  · rw [List.count_append]
    rcases List.mem_append.1 hb with hold | hb
    · have hne : b ≠ a := fun heq => hnew (heq ▸ hold)
      rw [List.count_singleton, if_neg (by simpa using hne.symm), ← h.once b hold, Nat.add_zero]
    · obtain rfl := List.mem_singleton.1 hb
      have hheld : b ∉ held := fun hb => hnew (h.mem_taken b hb)
      rw [List.count_eq_zero_of_not_mem hkept, List.count_eq_zero_of_not_mem hheld,
        List.count_singleton_self]

/-- Something that is held is given back. -/
theorem give (h : Ledger taken returned (a :: held)) : Ledger taken (returned ++ [a]) held := by
  refine ⟨fun b hb => h.mem_taken b (List.mem_cons_of_mem a hb), fun b hb => ?_⟩
  have honce := h.once b hb
  rw [List.count_cons] at honce
  rw [List.count_append, List.count_singleton]
  omega

/-- Something else is given back. -/
theorem foreign (h : Ledger taken returned held) (ha : a ∉ taken) :
    Ledger taken (returned ++ [a]) held := by
  refine ⟨h.mem_taken, fun b hb => ?_⟩
  have hne : b ≠ a := fun heq => ha (heq ▸ hb)
  rw [List.count_append, List.count_singleton, if_neg (by simpa using hne.symm)]
  exact h.once b hb

/-- **Everything has been returned exactly once if and only if nothing is held.** -/
theorem balanced_iff (h : Ledger taken returned held) :
    (∀ a ∈ taken, returned.count a = 1) ↔ held = [] := by
  constructor
  · intro hall
    refine List.eq_nil_iff_forall_not_mem.2 fun a ha => ?_
    have honce := h.once a (h.mem_taken a ha)
    have hpos := List.count_pos_iff.2 ha
    rw [hall a (h.mem_taken a ha)] at honce
    omega
  · rintro rfl a ha
    exact h.once a ha

end Ledger
