import Mathlib

/-!
# Stable minimum queues

A list of elements with keys, in the order in which they were inserted.  The
element to be served is the earliest among those with the least key.

* `FirstMin` — where it stands, as a splitting of the list.  The rules say how the
  splitting changes when an element is appended (`FirstMin.append_of_lt`,
  `FirstMin.append_of_le`) and when all keys are shifted (`FirstMin.map`), so that a
  program may keep track of it without searching.
* `popMin` — serving it.  `popMin_eq` says that serving takes the element of the
  splitting out and leaves the others in their order.
* `ServiceOrder` — the order in which all elements of a list leave it.  `ServiceOrder.cons`
  puts it together one served element after another.
-/

namespace StableQueue

variable {α β κ : Type*} [LinearOrder κ] {key : α → κ}

/-- `x` stands at position `k` of `l` and is the earliest element with the least key. -/
def FirstMin (key : α → κ) (l : List α) (k : Nat) (x : α) : Prop :=
  ∃ xs ys, l = xs ++ x :: ys ∧ xs.length = k ∧ (∀ y ∈ xs, key x < key y) ∧ ∀ y ∈ ys, key x ≤ key y

theorem firstMin_singleton (x : α) : FirstMin key [x] 0 x :=
  ⟨[], [], rfl, rfl, by simp, by simp⟩

theorem FirstMin.getElem? {l : List α} {k : Nat} {x : α} (h : FirstMin key l k x) :
    l[k]? = some x := by
  obtain ⟨xs, ys, rfl, rfl, -, -⟩ := h
  simp

theorem FirstMin.lt_length {l : List α} {k : Nat} {x : α} (h : FirstMin key l k x) :
    k < l.length := by
  obtain ⟨xs, ys, rfl, rfl, -, -⟩ := h
  simp

theorem FirstMin.le {l : List α} {k : Nat} {x y : α} (h : FirstMin key l k x) (hy : y ∈ l) :
    key x ≤ key y := by
  obtain ⟨xs, ys, rfl, -, hxs, hys⟩ := h
  rcases List.mem_append.1 hy with hy | hy
  · exact (hxs y hy).le
  · rcases List.mem_cons.1 hy with rfl | hy
    · exact le_rfl
    · exact hys y hy

/-- An appended element with a smaller key is the one to be served. -/
theorem FirstMin.append_of_lt {l : List α} {k : Nat} {x y : α} (h : FirstMin key l k x)
    (hlt : key y < key x) : FirstMin key (l ++ [y]) l.length y :=
  ⟨l, [], rfl, rfl, fun _ hz => hlt.trans_le (h.le hz), by simp⟩

/-- An appended element without a smaller key waits. -/
theorem FirstMin.append_of_le {l : List α} {k : Nat} {x y : α} (h : FirstMin key l k x)
    (hle : key x ≤ key y) : FirstMin key (l ++ [y]) k x := by
  obtain ⟨xs, ys, rfl, hk, hxs, hys⟩ := h
  refine ⟨xs, ys ++ [y], by simp, hk, hxs, fun z hz => ?_⟩
  rcases List.mem_append.1 hz with hz | hz
  · exact hys z hz
  · rw [List.mem_singleton.1 hz]
    exact hle

/-- A change of all elements that respects the order of the keys. -/
theorem FirstMin.map {key' : β → κ} {f : α → β} {l : List α} {k : Nat} {x : α}
    (h : FirstMin key l k x) (hf : ∀ a b, key' (f a) < key' (f b) ↔ key a < key b) :
    FirstMin key' (l.map f) k (f x) := by
  obtain ⟨xs, ys, rfl, rfl, hxs, hys⟩ := h
  refine ⟨xs.map f, ys.map f, by simp, by simp, fun z hz => ?_, fun z hz => ?_⟩
  · obtain ⟨y, hy, rfl⟩ := List.mem_map.1 hz
    exact (hf x y).2 (hxs y hy)
  · obtain ⟨y, hy, rfl⟩ := List.mem_map.1 hz
    exact not_lt.1 fun hlt => (hys y hy).not_gt ((hf y x).1 hlt)

/-- The elements of a beginning of the list, when the one to be served is among them. -/
theorem FirstMin.of_append {l r : List α} {k : Nat} {x : α} (h : FirstMin key (l ++ r) k x)
    (hk : k < l.length) : FirstMin key l k x := by
  obtain ⟨xs, ys, hsplit, rfl, hxs, hys⟩ := h
  obtain ⟨t, rfl⟩ : xs <+: l :=
    List.prefix_of_prefix_length_le ⟨_, hsplit.symm⟩ (List.prefix_append l r) hk.le
  rw [List.append_assoc, List.append_cancel_left_eq] at hsplit
  cases t with
  | nil => simp at hk
  | cons y t =>
    obtain ⟨rfl, rfl⟩ := List.cons.inj hsplit
    exact ⟨xs, t, rfl, rfl, hxs, fun z hz => hys z (List.mem_append_left r hz)⟩

/-- Serve the earliest element with the least key. -/
def popMin (key : α → κ) : List α → Option (α × List α)
  | [] => none
  | x :: l =>
      match popMin key l with
      | none => some (x, [])
      | some (m, r) => if key m < key x then some (m, x :: r) else some (x, l)

theorem popMin_eq_none {l : List α} : popMin key l = none ↔ l = [] := by
  cases l with
  | nil => simp [popMin]
  | cons x l =>
    simp only [popMin]
    cases popMin key l with
    | none => simp
    | some r => by_cases h : key r.1 < key x <;> simp [h]

theorem mem_of_popMin {l r : List α} {m : α} (h : popMin key l = some (m, r)) : m ∈ l := by
  induction l generalizing r with
  | nil => cases h
  | cons x l ih =>
    simp only [popMin] at h
    cases hp : popMin key l with
    | none =>
      rw [hp] at h
      cases h
      simp
    | some q =>
      rw [hp] at h
      simp only at h
      split_ifs at h
      · cases h
        exact List.mem_cons_of_mem _ (ih hp)
      · cases h
        simp

/-- Serving takes one element out. -/
theorem perm_of_popMin {l r : List α} {m : α} (h : popMin key l = some (m, r)) :
    l.Perm (m :: r) := by
  induction l generalizing r with
  | nil => cases h
  | cons x l ih =>
    simp only [popMin] at h
    cases hp : popMin key l with
    | none =>
      rw [hp] at h
      cases h
      rw [popMin_eq_none.1 hp]
    | some q =>
      rw [hp] at h
      simp only at h
      split_ifs at h
      · cases h
        exact ((ih hp).cons x).trans (.swap _ _ _)
      · cases h
        exact .refl _

/-- **What is served is the element of the splitting**, and the others keep their order. -/
theorem popMin_eq {l : List α} {k : Nat} {x : α} (h : FirstMin key l k x) :
    popMin key l = some (x, l.eraseIdx k) := by
  obtain ⟨xs, ys, rfl, rfl, hxs, hys⟩ := h
  have herase : (xs ++ x :: ys).eraseIdx xs.length = xs ++ ys := by
    simp [List.eraseIdx_append_of_length_le]
  rw [herase]
  clear herase
  induction xs with
  | nil =>
    simp only [List.nil_append, popMin]
    cases hp : popMin key ys with
    | none => rw [popMin_eq_none.1 hp]
    | some q => simp only [if_neg (hys q.1 (mem_of_popMin hp)).not_gt]
  | cons z xs ih =>
    have hih := ih fun y hy => hxs y (by simp [hy])
    simp only [List.cons_append, popMin, hih, hxs z (by simp), if_true]

/-! ## All elements -/

/-- The elements of `l` in the order in which they are served: the one with the smaller key
first, and of those with the same key the one that was inserted first. -/
structure ServiceOrder (key : α → κ) (l order : List α) : Prop where
  perm : order.Perm l
  sorted : order.Pairwise fun x y => key x ≤ key y
  stable : ∀ x ∈ l, order.filter (fun y => key y = key x) = l.filter fun y => key y = key x

theorem serviceOrder_nil : ServiceOrder key [] [] := ⟨.refl _, .nil, by simp⟩

/-- **The element to be served comes first**, and the others follow in their own order. -/
theorem ServiceOrder.cons {xs ys order : List α} {x : α} (hxs : ∀ y ∈ xs, key x < key y)
    (hys : ∀ y ∈ ys, key x ≤ key y) (h : ServiceOrder key (xs ++ ys) order) :
    ServiceOrder key (xs ++ x :: ys) (x :: order) := by
  have hmem : ∀ y, y ∈ order ↔ y ∈ xs ∨ y ∈ ys := fun y => by rw [h.perm.mem_iff, List.mem_append]
  refine ⟨(h.perm.cons x).trans List.perm_middle.symm, List.pairwise_cons.2 ⟨fun y hy => ?_, h.sorted⟩,
    fun z hz => ?_⟩
  · rcases (hmem y).1 hy with hy | hy
    · exact (hxs y hy).le
    · exact hys y hy
  · -- the elements with the key of `z`, whether `z` is still there or not
    have hrest : order.filter (fun y => key y = key z) = (xs ++ ys).filter fun y => key y = key z := by
      by_cases hex : ∃ y ∈ xs ++ ys, key y = key z
      · obtain ⟨y, hy, hkey⟩ := hex
        rw [← hkey]
        exact h.stable y hy
      · have hnone : ∀ y ∈ xs ++ ys, ¬ decide (key y = key z) = true := fun y hy hd =>
          hex ⟨y, hy, of_decide_eq_true hd⟩
        rw [List.filter_eq_nil_iff.2 hnone]
        exact List.filter_eq_nil_iff.2 fun y hy => hnone y (h.perm.mem_iff.1 hy)
    rw [List.filter_cons, List.filter_append, List.filter_cons, hrest, List.filter_append]
    by_cases hx : key x = key z
    · -- no element in front has the key of `x`
      have hnil : xs.filter (fun y => key y = key z) = [] :=
        List.filter_eq_nil_iff.2 fun y hy hd => (hxs y hy).ne (hx.trans (of_decide_eq_true hd).symm)
      have hd : decide (key x = key z) = true := decide_eq_true hx
      rw [hnil, if_pos hd, if_pos hd, List.nil_append, List.nil_append]
    · have hd : ¬ decide (key x = key z) = true := fun hd => hx (of_decide_eq_true hd)
      rw [if_neg hd, if_neg hd]

/-- A change of all elements that respects the order of the keys. -/
theorem ServiceOrder.map {key' : β → κ} {f : α → β} {l order : List α}
    (h : ServiceOrder key l order) (hf : ∀ a b, key' (f a) ≤ key' (f b) ↔ key a ≤ key b) :
    ServiceOrder key' (l.map f) (order.map f) := by
  have heq : ∀ a b, key' (f a) = key' (f b) ↔ key a = key b := fun a b => by
    rw [le_antisymm_iff, le_antisymm_iff, hf, hf]
  refine ⟨h.perm.map f, List.pairwise_map.2 (h.sorted.imp fun hle => (hf _ _).2 hle), fun z hz => ?_⟩
  obtain ⟨x, hx, rfl⟩ := List.mem_map.1 hz
  have hkeys : (fun y => decide (key' (f y) = key' (f x))) = fun y => decide (key y = key x) :=
    funext fun y => decide_eq_decide.2 (heq y x)
  rw [List.filter_map, List.filter_map]
  exact congrArg (List.map f) ((congrArg (List.filter · order) hkeys).trans
    ((h.stable x hx).trans (congrArg (List.filter · l) hkeys).symm))

end StableQueue
