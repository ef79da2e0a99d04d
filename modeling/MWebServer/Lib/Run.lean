import Mathlib

/-!
# Runs of a fallible step function

A step takes a state and an input to a new state, or fails.  `run` performs a
list of inputs one after another and ends at the first failure.

* `run_simulates` — a step-by-step simulation is one of runs; `run_agree` is the same for machines
  that also fail together.
* `Always P` — every state the run reaches satisfies `P`.
* `Safely P` — the same, and no step fails.
* `Meets C` — every step the run takes starts from a state and an input related
  by `C`.
* `Records D` — the steps of the run put down outputs, each related by `D` to its
  state and input; `run_records` replays them on an abstract machine.

The rules at the end tie the first two to the third by way of an invariant:
`always_of_meets` carries it along a run, `always_iff_meets` says which runs keep to a
property (`always_iff_meets_of_simulation` says it by an abstract machine), `meets_congr`
which kinds of steps are the same, `safely_of_invariant` and `safely_of_meets` that no step
fails, and `safely_iff_meets` which runs of legal steps fail nowhere.
-/

namespace Run

variable {σ α ε β γ : Type}

/-! ## Fallible computations in sequence -/

theorem bind_eq_ok {x : Except ε β} {f : β → Except ε γ} {c : γ} :
    x >>= f = .ok c ↔ ∃ b, x = .ok b ∧ f b = .ok c := by
  cases x with
  | error e =>
    constructor
    · intro h
      cases h
    · rintro ⟨b, hb, -⟩
      cases hb
  | ok b =>
    constructor
    · intro h
      exact ⟨b, rfl, h⟩
    · rintro ⟨b', hb, h⟩
      cases hb
      exact h

theorem map_eq_ok {x : Except ε β} {f : β → γ} {c : γ} :
    x.map f = .ok c ↔ ∃ b, x = .ok b ∧ f b = c := by
  cases x with
  | error e =>
    constructor
    · intro h
      cases h
    · rintro ⟨b, hb, -⟩
      cases hb
  | ok b =>
    constructor
    · intro h
      exact ⟨b, rfl, Except.ok.inj h⟩
    · rintro ⟨b', hb, rfl⟩
      cases hb
      rfl

/-- What a computation returns is determined. -/
theorem ok_unique {x : Except ε β} {b b' : β} (h : x = .ok b) (h' : x = .ok b') : b = b' :=
  Except.ok.inj (h.symm.trans h')

@[simp] theorem ok_bind (b : β) (f : β → Except ε γ) : (Except.ok b >>= f) = f b := rfl

@[simp] theorem error_bind (e : ε) (f : β → Except ε γ) :
    ((Except.error e : Except ε β) >>= f) = .error e := rfl

@[simp] theorem pure_eq_ok (b : β) : (pure b : Except ε β) = .ok b := rfl

@[simp] theorem throw_eq_error (e : ε) : (throw e : Except ε β) = .error e := rfl

/-! ## Runs -/

/-- Perform the inputs one after another; a failing step ends the run. -/
def run (step : σ → α → Except ε σ) : σ → List α → Except ε σ
  | s, [] => .ok s
  | s, a :: as => step s a >>= fun s' => run step s' as

variable {step : σ → α → Except ε σ}

@[simp] theorem run_nil (s : σ) : run step s [] = .ok s := rfl

theorem run_cons (s : σ) (a : α) (as : List α) :
    run step s (a :: as) = step s a >>= fun s' => run step s' as := rfl

theorem run_append (s : σ) (as bs : List α) :
    run step s (as ++ bs) = run step s as >>= fun s' => run step s' bs := by
  induction as generalizing s with
  | nil => rfl
  | cons a as ih =>
    rw [List.cons_append, run_cons, run_cons]
    cases step s a with
    | error e => rfl
    | ok s' => exact ih s'

/-- What every step keeps, a run keeps. -/
theorem run_keeps {I : σ → Prop} (hstep : ∀ s a s', I s → step s a = .ok s' → I s') {s s' : σ}
    {as : List α} (h0 : I s) (h : run step s as = .ok s') : I s' := by
  induction as generalizing s with
  | nil =>
    cases h
    exact h0
  | cons a as ih =>
    rw [run_cons] at h
    obtain ⟨t, ht, h⟩ := bind_eq_ok.1 h
    exact ih (hstep s a t h0 ht) h

/-- **The progress rule.**  When from every state that satisfies `I` and not `Q` there is a step
that keeps `I` and decreases a measure, there is a run to `Q`. -/
theorem exists_run_of_measure {I Q : σ → Prop} (μ : σ → Nat)
    (hstep : ∀ s, I s → ¬ Q s → ∃ a s', step s a = .ok s' ∧ I s' ∧ μ s' < μ s) (s : σ) (h0 : I s) :
    ∃ as s', run step s as = .ok s' ∧ I s' ∧ Q s' := by
  by_cases hQ : Q s
  · exact ⟨[], s, rfl, h0, hQ⟩
  · obtain ⟨a, t, ht, hI, hlt⟩ := hstep s h0 hQ
    obtain ⟨as, s', hrun, h'⟩ := exists_run_of_measure μ hstep t hI
    exact ⟨a :: as, s', by rw [run_cons, ht]; exact hrun, h'⟩
  termination_by μ s

/-- **Forward simulation.**  A relation that every step of an abstract machine carries over to
a step of the concrete one is carried over by whole runs. -/
theorem run_simulates {τ ε' : Type} {astep : τ → α → Except ε' τ} {R : σ → τ → Prop}
    (hstep : ∀ s t a t', R s t → astep t a = .ok t' → ∃ s', step s a = .ok s' ∧ R s' t')
    {s : σ} {t t' : τ} {as : List α} (hR : R s t) (h : run astep t as = .ok t') :
    ∃ s', run step s as = .ok s' ∧ R s' t' := by
  induction as generalizing s t with
  | nil =>
    cases h
    exact ⟨s, rfl, hR⟩
  | cons a as ih =>
    rw [run_cons] at h
    obtain ⟨t1, ht1, h⟩ := bind_eq_ok.1 h
    obtain ⟨s1, hs1, hR1⟩ := hstep s t a t1 hR ht1
    rw [run_cons, hs1, ok_bind]
    exact ih hR1 h

/-- Both computations fail in the same way, or neither does and `R` relates what they return. -/
inductive Agree {τ : Type} (R : σ → τ → Prop) : Except ε σ → Except ε τ → Prop
  | error (e : ε) : Agree R (.error e) (.error e)
  | ok {s : σ} {t : τ} (h : R s t) : Agree R (.ok s) (.ok t)

theorem Agree.imp {τ : Type} {R S : σ → τ → Prop} {x : Except ε σ} {y : Except ε τ}
    (h : Agree R x y) (hRS : ∀ s t, R s t → S s t) : Agree S x y := by
  cases h with
  | error e => exact .error e
  | ok h => exact .ok (hRS _ _ h)

theorem Agree.and {τ : Type} {R : σ → τ → Prop} {Q : τ → Prop} {x : Except ε σ} {y : Except ε τ}
    (h : Agree R x y) (hQ : ∀ t, y = .ok t → Q t) : Agree (fun s t => R s t ∧ Q t) x y := by
  cases h with
  | error e => exact .error e
  | ok h => exact .ok ⟨h, hQ _ rfl⟩

/-- **Lockstep.**  Machines whose steps agree have runs that agree. -/
theorem run_agree {τ : Type} {astep : τ → α → Except ε τ} {R : σ → τ → Prop}
    (hstep : ∀ s t a, R s t → Agree R (step s a) (astep t a)) {s : σ} {t : τ} (hR : R s t)
    (as : List α) : Agree R (run step s as) (run astep t as) := by
  induction as generalizing s t with
  | nil => exact .ok hR
  | cons a as ih =>
    have hagree := hstep s t a hR
    rw [run_cons, run_cons]
    generalize step s a = x at hagree
    generalize astep t a = y at hagree
    cases hagree with
    | error e => exact .error e
    | ok h => exact ih h

/-- Every state the run reaches satisfies `P`. -/
def Always (step : σ → α → Except ε σ) (P : σ → Prop) (s : σ) (as : List α) : Prop :=
  ∀ bs, bs <+: as → ∀ s', run step s bs = .ok s' → P s'

/-- No step of the run fails, and every state it reaches satisfies `P`. -/
def Safely (step : σ → α → Except ε σ) (P : σ → Prop) (s : σ) (as : List α) : Prop :=
  ∀ bs, bs <+: as → ∃ s', run step s bs = .ok s' ∧ P s'

/-- Every step the run takes is of the kind `C`. -/
def Meets (step : σ → α → Except ε σ) (C : σ → α → Prop) : σ → List α → Prop
  | _, [] => True
  | s, a :: as => C s a ∧ ∀ s', step s a = .ok s' → Meets step C s' as

variable {P I : σ → Prop} {C : σ → α → Prop}

theorem always_nil (s : σ) : Always step P s [] ↔ P s := by
  constructor
  · intro h
    exact h [] (List.prefix_refl _) s rfl
  · intro h bs hbs s' hs'
    rw [List.prefix_nil.1 hbs] at hs'
    cases hs'
    exact h

theorem always_cons (s : σ) (a : α) (as : List α) :
    Always step P s (a :: as) ↔ P s ∧ ∀ s', step s a = .ok s' → Always step P s' as := by
  constructor
  · intro h
    refine ⟨h [] List.nil_prefix s rfl, ?_⟩
    intro s' hs' bs hbs t ht
    refine h (a :: bs) (by simpa using hbs) t ?_
    rw [run_cons, hs', ok_bind, ht]
  · rintro ⟨h0, h⟩ bs hbs t ht
    cases bs with
    | nil =>
      cases ht
      exact h0
    | cons b bs =>
      obtain ⟨rfl, htl⟩ := List.cons_prefix_cons.1 hbs
      rw [run_cons] at ht
      obtain ⟨s', hs', ht⟩ := bind_eq_ok.1 ht
      exact h s' hs' bs htl t ht

theorem safely_nil (s : σ) : Safely step P s [] ↔ P s := by
  constructor
  · intro h
    obtain ⟨s', hs', hP⟩ := h [] (List.prefix_refl _)
    cases hs'
    exact hP
  · intro h bs hbs
    rw [List.prefix_nil.1 hbs]
    exact ⟨s, rfl, h⟩

theorem safely_cons (s : σ) (a : α) (as : List α) :
    Safely step P s (a :: as) ↔ P s ∧ ∃ s', step s a = .ok s' ∧ Safely step P s' as := by
  constructor
  · intro h
    have h0 : P s := by
      obtain ⟨t, ht, hP⟩ := h [] List.nil_prefix
      cases ht
      exact hP
    obtain ⟨s', hs', -⟩ := h [a] ⟨as, rfl⟩
    rw [run_cons] at hs'
    obtain ⟨t, ht, htt⟩ := bind_eq_ok.1 hs'
    refine ⟨h0, t, ht, ?_⟩
    intro bs hbs
    obtain ⟨u, hu, hP⟩ := h (a :: bs) (by simpa using hbs)
    rw [run_cons, ht, ok_bind] at hu
    exact ⟨u, hu, hP⟩
  · rintro ⟨h0, s', hs', h⟩ bs hbs
    cases bs with
    | nil => exact ⟨s, rfl, h0⟩
    | cons b bs =>
      obtain ⟨rfl, htl⟩ := List.cons_prefix_cons.1 hbs
      obtain ⟨u, hu, hP⟩ := h bs htl
      exact ⟨u, by rw [run_cons, hs', ok_bind, hu], hP⟩

theorem Meets.imp {D : σ → α → Prop} (hCD : ∀ s a, C s a → D s a) {s : σ} {as : List α}
    (h : Meets step C s as) : Meets step D s as := by
  induction as generalizing s with
  | nil => trivial
  | cons a as ih => exact ⟨hCD s a h.1, fun s' hs' => ih (h.2 s' hs')⟩

/-- The steps of a beginning of a run are steps of the run. -/
theorem Meets.of_prefix {s : σ} {as bs : List α} (h : Meets step C s as) (hbs : bs <+: as) :
    Meets step C s bs := by
  induction as generalizing s bs with
  | nil =>
    rw [List.prefix_nil.1 hbs]
    exact h
  | cons a as ih =>
    cases bs with
    | nil => trivial
    | cons b bs =>
      obtain ⟨rfl, htl⟩ := List.cons_prefix_cons.1 hbs
      exact ⟨h.1, fun s' hs' => ih (h.2 s' hs') htl⟩

/-- Along a run that keeps an invariant, kinds of steps that agree under it are met together. -/
theorem meets_congr {D : σ → α → Prop} (hstep : ∀ s a s', I s → step s a = .ok s' → I s')
    (hCD : ∀ s a, I s → (C s a ↔ D s a)) {s : σ} (h0 : I s) (as : List α) :
    Meets step C s as ↔ Meets step D s as := by
  induction as generalizing s with
  | nil => exact Iff.rfl
  | cons a as ih =>
    have htail : (∀ s', step s a = .ok s' → Meets step C s' as) ↔
        ∀ s', step s a = .ok s' → Meets step D s' as :=
      forall_congr' fun s' => forall_congr' fun hs' => ih (hstep s a s' h0 hs')
    exact and_congr (hCD s a h0) htail

/-- What an invariant says of every step is met all along a run. -/
theorem meets_of_invariant (hstep : ∀ s a s', I s → step s a = .ok s' → I s')
    (hC : ∀ s a, I s → C s a) {s : σ} (h0 : I s) (as : List α) : Meets step C s as := by
  induction as generalizing s with
  | nil => trivial
  | cons a as ih => exact ⟨hC s a h0, fun s' hs' => ih (hstep s a s' h0 hs')⟩

/-- What holds of an input in every state is met by a run of such inputs. -/
theorem meets_of_forall {as : List α} (h : ∀ a, a ∈ as → ∀ s, C s a) (s : σ) :
    Meets step C s as := by
  induction as generalizing s with
  | nil => trivial
  | cons a as ih =>
    exact ⟨h a List.mem_cons_self s, fun s' _ => ih (fun b hb => h b (List.mem_cons_of_mem a hb)) s'⟩

theorem Meets.and {D : σ → α → Prop} {s : σ} {as : List α} (h : Meets step C s as)
    (h' : Meets step D s as) : Meets step (fun s a => C s a ∧ D s a) s as := by
  induction as generalizing s with
  | nil => trivial
  | cons a as ih => exact ⟨⟨h.1, h'.1⟩, fun s' hs' => ih (h.2 s' hs') (h'.2 s' hs')⟩

/-- **The invariant rule.**  What holds at the beginning and is kept by every step of the kind `C`
holds all along a run of such steps. -/
theorem always_of_meets (hP : ∀ s, I s → P s)
    (hstep : ∀ s a s', I s → C s a → step s a = .ok s' → I s') {s : σ} (h0 : I s)
    {as : List α} (h : Meets step C s as) : Always step P s as := by
  induction as generalizing s with
  | nil => exact (always_nil s).2 (hP s h0)
  | cons a as ih =>
    rw [always_cons]
    exact ⟨hP s h0, fun s' hs' => ih (hstep s a s' h0 h.1 hs') (h.2 s' hs')⟩

/-- An invariant that is kept by every step of the kind `C`, and a property that every other
step breaks: then `C` is exactly what the property needs. -/
theorem always_iff_meets (hP : ∀ s, I s → P s)
    (hstep : ∀ s a s', I s → C s a → step s a = .ok s' → I s')
    (hbreak : ∀ s a, I s → ¬ C s a → ∃ s', step s a = .ok s' ∧ ¬ P s') {s : σ} (h0 : I s)
    (as : List α) : Always step P s as ↔ Meets step C s as := by
  refine ⟨fun h => ?_, always_of_meets hP hstep h0⟩
  induction as generalizing s with
  | nil => trivial
  | cons a as ih =>
    obtain ⟨-, htail⟩ := (always_cons s a as).1 h
    have hC : C s a := by
      by_contra hnot
      obtain ⟨s', hs', hbroken⟩ := hbreak s a h0 hnot
      exact hbroken (htail s' hs' [] List.nil_prefix s' rfl)
    exact ⟨hC, fun s' hs' => ih (hstep s a s' h0 hC hs') (htail s' hs')⟩

/-- The same for a kind of steps that is told by an abstract machine: while its states represent
those of the concrete one, `C` is exactly what the property needs. -/
theorem always_iff_meets_of_simulation {τ ε' : Type} {astep : τ → α → Except ε' τ}
    {R : σ → τ → Prop} {C : τ → α → Prop} (hP : ∀ s t, R s t → P s)
    (hstep : ∀ s t a, R s t → C t a → ∃ s' t', step s a = .ok s' ∧ astep t a = .ok t' ∧ R s' t')
    (hbreak : ∀ s t a, R s t → ¬ C t a → ∃ s', step s a = .ok s' ∧ ¬ P s') {s : σ} {t : τ}
    (h0 : R s t) (as : List α) : Always step P s as ↔ Meets astep C t as := by
  induction as generalizing s t with
  | nil => exact iff_of_true ((always_nil s).2 (hP s t h0)) trivial
  | cons a as ih =>
    rw [always_cons]
    constructor
    · rintro ⟨-, htail⟩
      have hC : C t a := by
        by_contra hnot
        obtain ⟨s', hs', hbroken⟩ := hbreak s t a h0 hnot
        exact hbroken (htail s' hs' [] List.nil_prefix s' rfl)
      obtain ⟨s', t', hs', ht', hR⟩ := hstep s t a h0 hC
      refine ⟨hC, fun u hu => ?_⟩
      rw [ok_unique hu ht']
      exact (ih hR).1 (htail s' hs')
    · rintro ⟨hC, htail⟩
      obtain ⟨s', t', hs', ht', hR⟩ := hstep s t a h0 hC
      refine ⟨hP s t h0, fun u hu => ?_⟩
      rw [ok_unique hu hs']
      exact (ih hR).2 (htail t' ht')

/-- An invariant from which no step fails and which every step keeps is all that safety
needs. -/
theorem safely_of_invariant (hP : ∀ s, I s → P s)
    (hstep : ∀ s a, I s → ∃ s', step s a = .ok s' ∧ I s') {s : σ} (h0 : I s) (as : List α) :
    Safely step P s as := by
  induction as generalizing s with
  | nil => exact (safely_nil s).2 (hP s h0)
  | cons a as ih =>
    obtain ⟨s', hs', hI⟩ := hstep s a h0
    exact (safely_cons s a as).2 ⟨hP s h0, s', hs', ih hI⟩

/-- The same for runs of steps of the kind `C`, when no other steps are taken. -/
theorem safely_of_meets (hP : ∀ s, I s → P s)
    (hstep : ∀ s a, I s → C s a → ∃ s', step s a = .ok s' ∧ I s') {s : σ} (h0 : I s)
    {as : List α} (hC : Meets step C s as) : Safely step P s as := by
  induction as generalizing s with
  | nil => exact (safely_nil s).2 (hP s h0)
  | cons a as ih =>
    obtain ⟨s', hs', hI⟩ := hstep s a h0 hC.1
    exact (safely_cons s a as).2 ⟨hP s h0, s', hs', ih hI (hC.2 s' hs')⟩

/-- **The countdown rule.**  When every step of the kind `C` decreases a measure until `Q` is reached,
and no step leaves `Q` again, a run of such steps that is as long as the measure ends in `Q`. -/
theorem reaches_of_measure {Q : σ → Prop} (μ : σ → Nat) (hpos : ∀ s, I s → 0 < μ s)
    (hstep : ∀ s a, I s → C s a → ∃ s', step s a = .ok s' ∧ (Q s' ∨ (I s' ∧ μ s' < μ s)))
    (hstay : ∀ s a, Q s → ∃ s', step s a = .ok s' ∧ Q s') {s : σ} {as : List α}
    (h0 : Q s ∨ (I s ∧ μ s ≤ as.length)) (hC : Meets step C s as) :
    ∃ s', run step s as = .ok s' ∧ Q s' := by
  induction as generalizing s with
  | nil =>
    rcases h0 with hQ | ⟨hI, hlong⟩
    · exact ⟨s, rfl, hQ⟩
    · exact absurd (hpos s hI) (Nat.not_lt.2 hlong)
  | cons a as ih =>
    have hnext : ∃ t, step s a = .ok t ∧ (Q t ∨ (I t ∧ μ t ≤ as.length)) := by
      rcases h0 with hQ | ⟨hI, hlong⟩
      · obtain ⟨t, ht, hQ⟩ := hstay s a hQ
        exact ⟨t, ht, Or.inl hQ⟩
      · obtain ⟨t, ht, hQ | ⟨hI, hlt⟩⟩ := hstep s a hI hC.1
        · exact ⟨t, ht, Or.inl hQ⟩
        · exact ⟨t, ht, Or.inr ⟨hI, Nat.le_of_lt_succ (hlt.trans_le hlong)⟩⟩
    obtain ⟨t, ht, h0⟩ := hnext
    obtain ⟨s', hrun, hQ⟩ := ih h0 (hC.2 t ht)
    exact ⟨s', by rw [run_cons, ht]; exact hrun, hQ⟩

/-- The run puts down the outputs `bs`, one for each input, related by `D` to the step. -/
def Records (step : σ → α → Except ε σ) (D : σ → α → β → Prop) : σ → List α → List β → Prop
  | _, [], [] => True
  | s, a :: as, b :: bs => D s a b ∧ ∀ s', step s a = .ok s' → Records step D s' as bs
  | _, _, _ => False

/-- **Backward simulation.**  When every step puts down what an abstract machine does in it, a run
puts down what the machine does in a run. -/
theorem run_records {τ : Type} {I : σ → Prop} {D : σ → α → β → Prop} {f : σ → τ}
    {astep : τ → β → τ}
    (hstep : ∀ s a s', I s → step s a = .ok s' → I s' ∧ ∃ b, D s a b ∧ f s' = astep (f s) b)
    {s s' : σ} {as : List α} (h0 : I s) (h : run step s as = .ok s') :
    ∃ bs, Records step D s as bs ∧ f s' = bs.foldl astep (f s) := by
  induction as generalizing s with
  | nil =>
    cases h
    exact ⟨[], trivial, rfl⟩
  | cons a as ih =>
    rw [run_cons] at h
    obtain ⟨t, ht, h⟩ := bind_eq_ok.1 h
    obtain ⟨hI, b, hD, hf⟩ := hstep s a t h0 ht
    obtain ⟨bs, hbs, hfold⟩ := ih hI h
    refine ⟨b :: bs, ⟨hD, fun t' ht' => ?_⟩, ?_⟩
    · obtain rfl := ok_unique ht ht'
      exact hbs
    · rw [hfold, hf]
      rfl

/-- Among runs of legal steps, when every legal step outside the kind `C` fails, `C` is exactly
what safety needs. -/
theorem safely_iff_meets {L : σ → α → Prop} (hP : ∀ s, I s → P s)
    (hstep : ∀ s a, I s → L s a → C s a → ∃ s', step s a = .ok s' ∧ I s')
    (hfail : ∀ s a s', I s → L s a → step s a = .ok s' → C s a) {s : σ} (h0 : I s)
    {as : List α} (hL : Meets step L s as) : Safely step P s as ↔ Meets step C s as := by
  induction as generalizing s with
  | nil => exact iff_of_true ((safely_nil s).2 (hP s h0)) trivial
  | cons a as ih =>
    obtain ⟨hLa, hLas⟩ := hL
    rw [safely_cons]
    constructor
    · rintro ⟨-, s', hs', htail⟩
      have hC : C s a := hfail s a s' h0 hLa hs'
      obtain ⟨t, ht, hI⟩ := hstep s a h0 hLa hC
      refine ⟨hC, fun u hu => ?_⟩
      obtain rfl : u = t := ok_unique hu ht
      obtain rfl : s' = u := ok_unique hs' hu
      exact (ih hI (hLas s' hs')).1 htail
    · rintro ⟨hC, htail⟩
      obtain ⟨s', hs', hI⟩ := hstep s a h0 hLa hC
      exact ⟨hP s h0, s', hs', (ih hI (hLas s' hs')).2 (htail s' hs')⟩

end Run
