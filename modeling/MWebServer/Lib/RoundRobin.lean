import Mathlib

/-!
# Taking turns

A counter that runs over `n` places and begins again behind the last one.

* `pick_succ` — its next place.
* `share_le`, `le_share` — after `k` turns no place has had more than one turn more than
  another.
* `count_turns` — the same turns in a list.
-/

namespace RoundRobin

/-- The place of a counter that may have run over the last one. -/
def pick (n i : Nat) : Nat := if n ≤ i then 0 else i

@[simp] theorem pick_zero (n : Nat) : pick n 0 = 0 := by
  unfold pick
  split_ifs <;> rfl

/-- **The next turn.** -/
theorem pick_succ {n i k : Nat} (hn : 0 < n) (h : pick n i = k % n) :
    pick n (pick n i + 1) = (k + 1) % n := by
  have hlt := Nat.mod_lt k hn
  rw [h]
  unfold pick
  split_ifs with hlast
  · have hend : k % n + 1 = n := by omega
    rw [Nat.add_mod_eq_add_mod_right 1 (Nat.mod_mod k n).symm, hend, Nat.mod_self]
  · rw [Nat.add_mod_eq_add_mod_right 1 (Nat.mod_mod k n).symm, Nat.mod_eq_of_lt (not_le.1 hlast)]

/-- How many of the first `k` turns fall on the place `j`. -/
def share (n j k : Nat) : Nat := k.count (fun i => i ≡ j [MOD n])

/-- **No place is left out**, -/
theorem le_share {n : Nat} (hn : 0 < n) (j k : Nat) : k / n ≤ share n j k := by
  unfold share
  rw [Nat.count_modEq_card k hn j]
  exact Nat.le_add_right _ _

/-- **and none is preferred** by more than one turn. -/
theorem share_le {n : Nat} (hn : 0 < n) (j k : Nat) : share n j k ≤ k / n + 1 := by
  unfold share
  rw [Nat.count_modEq_card k hn j]
  split_ifs
  · exact le_rfl
  · exact Nat.le_succ _

/-- The turns of a place, counted in the list of all of them. -/
theorem count_turns {n j : Nat} (hj : j < n) (k : Nat) :
    ((List.range k).map (· % n)).count j = share n j k := by
  unfold share Nat.count List.count
  rw [List.countP_map]
  refine List.countP_congr fun i _ => ?_
  simp [Nat.ModEq, Nat.mod_eq_of_lt hj]

end RoundRobin
