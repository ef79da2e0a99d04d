import Mathlib

/-!
# Scanners: loops that read one position at a time

A scanner walks over consecutive positions and keeps a state.  At every position
its step either goes on with a new state or stops with a result.  Two readings of
the same loop are provided:

* `scan` runs over positions, the way a C `for` loop runs over a pointer;
* `scanList` runs over the elements themselves, the way a grammar does.

`scan_reading` identifies the two.  `scan_add` says that a scan may be
interrupted anywhere and taken up again, which is all there is to resumable
parsing, and `scan_map` carries a whole scan through a change of state that every
single step respects.
-/

namespace Scan

/-- What one step of a scanner does: go on with a state, or stop with a result. -/
inductive Flow (σ ρ : Type*) where
  | next (s : σ)
  | stop (r : ρ)
  deriving DecidableEq, Repr

variable {σ ρ τ ρ' β : Type*}

/-- Carry on with `f` unless the scanner has stopped. -/
def Flow.andThen (x : Flow σ ρ) (f : σ → Flow σ ρ) : Flow σ ρ :=
  match x with
  | .next s => f s
  | .stop r => .stop r

/-- Rename the state and the result. -/
def Flow.map (f : σ → τ) (g : ρ → ρ') : Flow σ ρ → Flow τ ρ'
  | .next s => .next (f s)
  | .stop r => .stop (g r)

@[simp] theorem Flow.andThen_next (s : σ) (f : σ → Flow σ ρ) : (Flow.next s).andThen f = f s := rfl

@[simp] theorem Flow.andThen_stop (r : ρ) (f : σ → Flow σ ρ) :
    (Flow.stop r : Flow σ ρ).andThen f = .stop r := rfl

@[simp] theorem Flow.map_next (f : σ → τ) (g : ρ → ρ') (s : σ) :
    (Flow.next s).map f g = .next (f s) := rfl

@[simp] theorem Flow.map_stop (f : σ → τ) (g : ρ → ρ') (r : ρ) :
    (Flow.stop r).map f g = .stop (g r) := rfl

/-! ## Scanning positions -/

/-- Step through the `n` positions `p, p + 1, ...`. -/
def scan (step : Nat → σ → Flow σ ρ) : Nat → Nat → σ → Flow σ ρ
  | _, 0, s => .next s
  | p, n + 1, s => (step p s).andThen (scan step (p + 1) n)

@[simp] theorem scan_zero (step : Nat → σ → Flow σ ρ) (p : Nat) (s : σ) :
    scan step p 0 s = .next s := rfl

theorem scan_succ (step : Nat → σ → Flow σ ρ) (p n : Nat) (s : σ) :
    scan step p (n + 1) s = (step p s).andThen (scan step (p + 1) n) := rfl

/-- A scan may be interrupted after `m` positions and taken up again. -/
theorem scan_add (step : Nat → σ → Flow σ ρ) (p m n : Nat) (s : σ) :
    scan step p (m + n) s = (scan step p m s).andThen (scan step (p + m) n) := by
  induction m generalizing p s with
  | zero => simp
  | succ m ih =>
    rw [Nat.succ_add, scan_succ, scan_succ]
    cases step p s with
    | stop r => rfl
    | next s' =>
      simp only [Flow.andThen_next]
      rw [ih, show p + 1 + m = p + (m + 1) by omega]

/-- A change of state and result that every step respects is respected by the whole scan. -/
theorem scan_map {step : Nat → σ → Flow σ ρ} {step' : Nat → τ → Flow τ ρ'}
    (f : σ → τ) (g : ρ → ρ') (h : ∀ p s, step' p (f s) = (step p s).map f g) (p n : Nat) (s : σ) :
    scan step' p n (f s) = (scan step p n s).map f g := by
  induction n generalizing p s with
  | zero => rfl
  | succ n ih =>
    rw [scan_succ, scan_succ, h]
    cases step p s with
    | stop r => rfl
    | next s' => exact ih (p + 1) s'

/-- What every step within the scan preserves, and every stop then satisfies, holds of the whole
scan. -/
theorem scan_invariant {step : Nat → σ → Flow σ ρ} {I : Nat → σ → Prop} {Q : ρ → Prop} {p n : Nat}
    {s : σ} (hI : I p s)
    (hnext : ∀ q s s', q < p + n → I q s → step q s = .next s' → I (q + 1) s')
    (hstop : ∀ q s r, q < p + n → I q s → step q s = .stop r → Q r) :
    (∀ s', scan step p n s = .next s' → I (p + n) s') ∧
      ∀ r, scan step p n s = .stop r → Q r := by
  induction n generalizing p s with
  | zero =>
    constructor
    · intro s' h
      cases h
      exact hI
    · intro r h
      cases h
  | succ n ih =>
    rw [scan_succ]
    have hlen : p + (n + 1) = p + 1 + n := by omega
    rw [hlen] at hnext hstop ⊢
    cases hs : step p s with
    | stop r =>
      constructor
      · intro s' h
        cases h
      · intro r' h
        cases h
        exact hstop p s r (by omega) hI hs
    | next s' => exact ih (hnext p s s' (by omega) hI hs) hnext hstop

/-- Scans with steps that agree at every position they visit agree. -/
theorem scan_congr {step step' : Nat → σ → Flow σ ρ} {p n : Nat}
    (h : ∀ q, p ≤ q → q < p + n → ∀ s, step q s = step' q s) (s : σ) :
    scan step p n s = scan step' p n s := by
  induction n generalizing p s with
  | zero => rfl
  | succ n ih =>
    rw [scan_succ, scan_succ, h p le_rfl (by omega)]
    cases step' p s with
    | stop r => rfl
    | next s' => exact ih (fun q h1 h2 => h q (by omega) (by omega)) s'

/-! ## Scanning elements -/

/-- Step through the elements of a list standing at positions `p, p + 1, ...`. -/
def scanList (step : Nat → β → σ → Flow σ ρ) : Nat → List β → σ → Flow σ ρ
  | _, [], s => .next s
  | p, x :: xs, s => (step p x s).andThen (scanList step (p + 1) xs)

@[simp] theorem scanList_nil (step : Nat → β → σ → Flow σ ρ) (p : Nat) (s : σ) :
    scanList step p [] s = .next s := rfl

theorem scanList_cons (step : Nat → β → σ → Flow σ ρ) (p : Nat) (x : β) (xs : List β) (s : σ) :
    scanList step p (x :: xs) s = (step p x s).andThen (scanList step (p + 1) xs) := rfl

theorem scanList_cons_next {step : Nat → β → σ → Flow σ ρ} {p : Nat} {x : β} {s s' : σ}
    (h : step p x s = .next s') (xs : List β) :
    scanList step p (x :: xs) s = scanList step (p + 1) xs s' := by
  rw [scanList_cons, h, Flow.andThen_next]

theorem scanList_append (step : Nat → β → σ → Flow σ ρ) (p : Nat) (xs ys : List β) (s : σ) :
    scanList step p (xs ++ ys) s =
      (scanList step p xs s).andThen (scanList step (p + xs.length) ys) := by
  induction xs generalizing p s with
  | nil => simp
  | cons x xs ih =>
    rw [List.cons_append, scanList_cons, scanList_cons]
    cases step p x s with
    | stop r => rfl
    | next s' =>
      simp only [Flow.andThen_next]
      rw [ih, List.length_cons, show p + 1 + xs.length = p + (xs.length + 1) by omega]

/-- A stop is final: more input after it changes nothing. -/
theorem scanList_append_of_stop {step : Nat → β → σ → Flow σ ρ} {p : Nat} {xs : List β} {s : σ}
    {r : ρ} (h : scanList step p xs s = .stop r) (ys : List β) :
    scanList step p (xs ++ ys) s = .stop r := by
  rw [scanList_append, h, Flow.andThen_stop]

/-- What every step within the list preserves, and every stop then satisfies, holds of the
whole scan. -/
theorem scanList_invariant {step : Nat → β → σ → Flow σ ρ} {I : Nat → σ → Prop} {Q : ρ → Prop}
    {p : Nat} {w : List β} {s : σ} (hI : I p s)
    (hnext : ∀ q x s s', q < p + w.length → I q s → step q x s = .next s' → I (q + 1) s')
    (hstop : ∀ q x s r, q < p + w.length → I q s → step q x s = .stop r → Q r) :
    (∀ s', scanList step p w s = .next s' → I (p + w.length) s') ∧
      ∀ r, scanList step p w s = .stop r → Q r := by
  induction w generalizing p s with
  | nil =>
    constructor
    · intro s' h
      cases h
      exact hI
    · intro r h
      cases h
  | cons x xs ih =>
    have hlen : p + (x :: xs).length = p + 1 + xs.length := by simp; omega
    rw [scanList_cons, hlen]
    rw [hlen] at hnext hstop
    cases hs : step p x s with
    | stop r =>
      constructor
      · intro s' h
        cases h
      · intro r' h
        cases h
        exact hstop p x s r (by omega) hI hs
    | next s' => exact ih (hnext p x s s' (by omega) hI hs) hnext hstop

/-- Scans with steps that agree wherever an invariant of the first one holds agree. -/
theorem scanList_congr {step step' : Nat → β → σ → Flow σ ρ} {I : Nat → σ → Prop} {p : Nat}
    {w : List β} {s : σ} (hI : I p s)
    (hnext : ∀ q x s s', q < p + w.length → I q s → step q x s = .next s' → I (q + 1) s')
    (h : ∀ q x s, q < p + w.length → I q s → step q x s = step' q x s) :
    scanList step p w s = scanList step' p w s := by
  induction w generalizing p s with
  | nil => rfl
  | cons x xs ih =>
    have hlen : p + (x :: xs).length = p + 1 + xs.length := by simp; omega
    rw [hlen] at hnext h
    rw [scanList_cons, scanList_cons, ← h p x s (by omega) hI]
    cases hs : step p x s with
    | stop r => rfl
    | next s' => exact ih (hnext p x s s' (by omega) hI hs) hnext h

/-- What is shown of a scan, when the step shows it whatever its position, depends on what is shown
of the state it begins with. -/
theorem scanList_map_congr {step : Nat → β → σ → Flow σ ρ} {f : σ → τ} {g : ρ → ρ'}
    (h : ∀ p q x s t, f s = f t → (step p x s).map f g = (step q x t).map f g) {w : List β} :
    ∀ {p q : Nat} {s t : σ}, f s = f t →
      (scanList step p w s).map f g = (scanList step q w t).map f g := by
  induction w with
  | nil =>
    intro p q s t hst
    exact congrArg Flow.next hst
  | cons x xs ih =>
    intro p q s t hst
    have hstep := h p q x s t hst
    rw [scanList_cons, scanList_cons]
    cases hs : step p x s with
    | stop r =>
      cases ht : step q x t with
      | stop r' =>
        rw [hs, ht] at hstep
        exact hstep
      | next t' =>
        rw [hs, ht] at hstep
        cases hstep
    | next s' =>
      cases ht : step q x t with
      | stop r' =>
        rw [hs, ht] at hstep
        cases hstep
      | next t' =>
        rw [hs, ht] at hstep
        exact ih (Flow.next.inj hstep)

/-- Elements the step passes over in a fixed state. -/
theorem scanList_skip {step : Nat → β → σ → Flow σ ρ} {xs : List β} {s : σ}
    (h : ∀ x ∈ xs, ∀ q, step q x s = .next s) (p : Nat) (ys : List β) :
    scanList step p (xs ++ ys) s = scanList step (p + xs.length) ys s := by
  induction xs generalizing p with
  | nil => simp
  | cons x xs ih =>
    rw [List.cons_append, scanList_cons_next (h x (by simp) p), ih (fun y hy => h y (by simp [hy])),
      List.length_cons, show p + 1 + xs.length = p + (xs.length + 1) by omega]

/-- A scan that stops has taken its first step. -/
theorem scanList_eq_stop {step : Nat → β → σ → Flow σ ρ} {p : Nat} {w : List β} {s : σ} {r : ρ} :
    scanList step p w s = .stop r ↔
      ∃ x xs, w = x :: xs ∧ (step p x s).andThen (scanList step (p + 1) xs) = .stop r := by
  cases w with
  | nil => simp
  | cons x xs => simp [scanList_cons]

/-- A scan that stops leaves a loop state at the first element outside `P`. -/
theorem scanList_loop_eq_stop {step : Nat → β → σ → Flow σ ρ} {P : β → Bool} {s : σ}
    (hP : ∀ x, P x = true → ∀ q, step q x s = .next s) {p : Nat} {w : List β} {r : ρ} :
    scanList step p w s = .stop r ↔
      ∃ xs y ys, w = xs ++ y :: ys ∧ (∀ x ∈ xs, P x = true) ∧ P y = false ∧
        (step (p + xs.length) y s).andThen (scanList step (p + xs.length + 1) ys) = .stop r := by
  constructor
  · intro h
    rw [← List.takeWhile_append_dropWhile (p := P) (l := w),
      scanList_skip (fun x hx => hP x (List.mem_takeWhile_imp hx)), scanList_eq_stop] at h
    obtain ⟨y, ys, hdrop, hstop⟩ := h
    have hy : P y = false := by
      have hne : w.dropWhile P ≠ [] := by simp [hdrop]
      have := List.head_dropWhile_not P hne
      simpa [hdrop] using this
    refine ⟨w.takeWhile P, y, ys, ?_, fun x hx => List.mem_takeWhile_imp hx, hy, hstop⟩
    rw [← hdrop, List.takeWhile_append_dropWhile]
  · rintro ⟨xs, y, ys, rfl, hxs, -, hstop⟩
    rw [scanList_skip (fun x hx => hP x (hxs x hx)), scanList_cons]
    exact hstop

/-! ## Reading a memory -/

/-- The positional step that reads its element from `mem`, and stops with `oob` where
there is none. -/
def reading (mem : List β) (oob : ρ) (step : Nat → β → σ → Flow σ ρ) (p : Nat) (s : σ) :
    Flow σ ρ :=
  match mem[p]? with
  | some x => step p x s
  | none => .stop oob

theorem reading_of_some {mem : List β} {oob : ρ} {step : Nat → β → σ → Flow σ ρ} {p : Nat} {x : β}
    (h : mem[p]? = some x) (s : σ) : reading mem oob step p s = step p x s := by
  rw [reading, h]

/-- Scanning positions of a memory is scanning the elements that stand there. -/
theorem scan_reading (step : Nat → β → σ → Flow σ ρ) (oob : ρ) {mem : List β}
    (pre w post : List β) (hmem : mem = pre ++ (w ++ post)) (s : σ) :
    scan (reading mem oob step) pre.length w.length s = scanList step pre.length w s := by
  induction w generalizing pre s with
  | nil => rfl
  | cons x w ih =>
    have hx : mem[pre.length]? = some x := by simp [hmem]
    rw [List.length_cons, scan_succ, scanList_cons, reading_of_some hx]
    cases step pre.length x s with
    | stop r => rfl
    | next s' =>
      have hpre : mem = (pre ++ [x]) ++ (w ++ post) := by simp [hmem]
      simpa using ih (pre ++ [x]) hpre s'

end Scan
