import MWebServer.Mevent.ServerManager

/-!
# One time event (`server_manager_time_event`)

The loop of `server_manager_time_event` pops the timer that expires first as long as
there is no time left for it, and looks at `top` again without asking whether there is
one.  A pass is `expireTop`; what the callback of the pass adds to the manager is part of
its span.

* `expireTop_spec` — what a pass does to the timers.
* `timeEvent_neverNull_iff` — the loop goes through a null `top` unless some timer is
  there for good: one that repeats, or one that has not expired.
* `timeEvent_fires` — such a manager fires what has expired, each timer once and in the
  order of the stable queue, and what repeats comes behind the rest.
-/

namespace MWebServer

open StableQueue TimerManager

/-- A timer with its whole `time_out` left, as a push leaves it. -/
def Timer.armed (t : Timer) : Timer := { t with timeLeft := t.timeOut }

namespace ServerManager

/-- The loop of `server_manager_time_event`, with the stretches of time in which its passes run:
how many timers it pops, and the manager behind it. -/
def timeEventLoop : List Span → ServerManager → Except Fault (Nat × ServerManager)
  | [], _ => .error .noFuel
  | span :: spans, s => do
      let s ← s.expireTop span
      if s.expiring then do
        let (pops, s) ← timeEventLoop spans s
        pure (pops + 1, s)
      else pure (0, s)

/-- `server_manager_time_event` -/
def timeEvent (spans : List Span) (timeout : Int) (s : ServerManager) :
    Except Fault (Nat × ServerManager) := do
  let s ← s.serverManagerTimeEvent timeout
  if s.expiring then timeEventLoop spans s else pure (0, s)

variable {s s' : ServerManager} {es : List (Nat × Timer)}

/-! ## A pass through the loop -/

/-- What a pass leaves behind that has popped the timer `ti`. -/
structure Popped (s s' : ServerManager) (span : Span) (ti : Timer) (es' : List (Nat × Timer)) :
    Prop where
  expiring : s'.expiring = s.expiring
  fired : s'.fired.map Firing.timer =
    s.fired.map Firing.timer ++ if ti.type = .none then [] else [ti]
  holds : ∃ armed new, s'.timerManager.Holds (es' ++ armed ++ new) ∧
    armed.map Prod.snd = (if ti.type = .repeat then [ti.armed] else []) ∧ (span.adds = [] → new = [])

/-- The callback of a popped timer is invoked. -/
theorem call_spec (span : Span) (ti : Timer) (added : Int) (h : s.timerManager.Holds es) :
    ∃ s' new, s.call span ti added = .ok s' ∧ s'.expiring = s.expiring ∧
      s'.fired.map Firing.timer = s.fired.map Firing.timer ++ [ti] ∧
      s'.timerManager.Holds (es ++ new) ∧ (span.adds = [] → new = []) := by
  obtain ⟨t, new, ht, htm, -, hnew, hfired, hexpiring, -⟩ := addTimers_spec (s := { s with
    fired := s.fired ++ [Firing.mk ti added span.start] }) h span.adds
  refine ⟨{ t with clock := span.stop }, new, ?_, hexpiring, ?_, htm, fun hadds => ?_⟩
  · rw [call, ht]
    rfl
  · show t.fired.map Firing.timer = _
    rw [hfired, List.map_append]
    rfl
  · refine List.eq_nil_iff_forall_not_mem.2 fun e he => ?_
    obtain ⟨a, ha, -⟩ := hnew e he
    rw [hadds] at ha
    cases ha

/-- **A pass**: the loop is left, or the timer that expires first is popped, and called back if
it has a callback; a repeating one is pushed again. -/
theorem expireTop_spec (h : s.timerManager.Holds es) (hne : es ≠ []) (span : Span) :
    ∃ e, FirstMin left es s.timerManager.topIndex e ∧
      (0 < e.2.timeLeft → s.expireTop span = .ok { s with expiring := false }) ∧
      (e.2.timeLeft ≤ 0 → ∃ s', s.expireTop span = .ok s' ∧
        s.Popped s' span e.2 (es.eraseIdx s.timerManager.topIndex)) := by
  obtain ⟨e, tm, hmin, haddr, hpop, htm⟩ := pop_spec h hne
  have he : e ∈ es := List.mem_of_getElem? hmin.getElem?
  have htop : s.timerManager.getTop = .ok e.2 := by
    rw [getTop, haddr, deref_eq_ok (h.live e he)]
  refine ⟨e, hmin, fun hleft => ?_, fun hleft => ?_⟩
  · rw [expireTop, htop, Run.ok_bind, if_neg (not_le.2 hleft)]
    rfl
  · rw [expireTop, htop, Run.ok_bind, if_pos hleft, hpop, Run.ok_bind]
    cases htype : e.2.type with
    | none =>
      simp only [htype]
      exact ⟨_, rfl, rfl, by simp [htype], [], [], by simpa using htm, by simp [htype], fun _ => rfl⟩
    | once =>
      simp only [htype]
      obtain ⟨s', new, hs', hexpiring, hfired, hholds, hnew⟩ := call_spec (s := { s with
        timerManager := tm }) span e.2 ((s.timerManager.top.map s.added).getD 0) htm
      exact ⟨s', hs', hexpiring, by simp [hfired, htype], [], new, by simpa using hholds,
        by simp [htype], hnew⟩
    | «repeat» =>
      simp only [htype]
      obtain ⟨t, p, ht, httm, -, -, htfired, htexpiring, -⟩ := serverManagerAddTimer_spec
        (s := { s with timerManager := tm }) htm ⟨span.start, e.2⟩
      obtain ⟨s', new, hs', hexpiring, hfired, hholds, hnew⟩ := call_spec (s := t) span e.2
        ((s.timerManager.top.map s.added).getD 0) httm
      refine ⟨s', by rw [ht, Run.ok_bind]; exact hs', hexpiring.trans htexpiring, ?_, _, new, hholds,
        by simp [htype, Timer.armed], hnew⟩
      rw [hfired, htfired]
      simp [htype]

/-! ## The whole loop -/

/-- Without timers the loop reads `top->time_left` through a null pointer. -/
theorem expireTop_nil (h : s.timerManager.Holds []) (span : Span) :
    s.expireTop span = .error .nullDeref := by
  rcases h.top with ⟨-, htop⟩ | ⟨e, hmin, -⟩
  · rw [expireTop, getTop, htop]
    rfl
  · exact absurd hmin.lt_length (Nat.not_lt_zero _)

/-- A timer that the loop does not take out of the manager for good. -/
def Stays (ti : Timer) : Prop := ti.type = .repeat ∨ 0 < ti.timeLeft

/-- A pass that has popped a timer leaves some timer that stays, if there was one. -/
theorem exists_stays {e : Nat × Timer} {k : Nat} {armed : List (Nat × Timer)}
    (new : List (Nat × Timer)) (hmin : FirstMin left es k e) (hleft : e.2.timeLeft ≤ 0)
    (harmed : armed.map Prod.snd = if e.2.type = .repeat then [e.2.armed] else [])
    (hstays : ∃ d ∈ es, Stays d.2) : ∃ d ∈ es.eraseIdx k ++ armed ++ new, Stays d.2 := by
  by_cases hrepeat : e.2.type = .repeat
  · -- it is in its place again
    rw [if_pos hrepeat] at harmed
    obtain ⟨d, rfl, hd⟩ := List.map_eq_singleton_iff.1 harmed
    refine ⟨d, by simp, Or.inl ?_⟩
    rw [hd]
    exact hrepeat
  · obtain ⟨d, hd, hdstays⟩ := hstays
    obtain ⟨xs, ys, rfl, rfl, -, -⟩ := hmin
    have hne : d ≠ e := by
      rintro rfl
      exact hdstays.elim hrepeat (not_lt.2 hleft)
    refine ⟨d, ?_, hdstays⟩
    have hothers : d ∈ xs ∨ d ∈ ys := by simpa [hne] using hd
    rw [List.eraseIdx_append_of_length_le le_rfl]
    rcases hothers with hd | hd <;> simp [hd]

theorem timeEventLoop_neverNull (spans : List Span) (h : s.timerManager.Holds es)
    (hstays : ∃ e ∈ es, Stays e.2) : timeEventLoop spans s ≠ .error .nullDeref := by
  induction spans generalizing s es with
  | nil => exact fun hnull => by cases hnull
  | cons span spans ih =>
    have hne : es ≠ [] := by
      rintro rfl
      obtain ⟨e, he, -⟩ := hstays
      cases he
    obtain ⟨e, hmin, hleave, hpass⟩ := expireTop_spec h hne span
    rw [timeEventLoop]
    by_cases hleft : 0 < e.2.timeLeft
    · rw [hleave hleft]
      exact fun hnull => by cases hnull
    · obtain ⟨s', hs', hpopped⟩ := hpass (not_lt.1 hleft)
      obtain ⟨armed, new, hholds, harmed, -⟩ := hpopped.holds
      have hloop := ih hholds (exists_stays new hmin (not_lt.1 hleft) harmed hstays)
      rw [hs', Run.ok_bind]
      split_ifs
      · -- the rest of the loop does not fail in this way, and so the whole does not
        cases hrest : timeEventLoop spans s' with
        | error f =>
          rw [hrest] at hloop
          exact fun hnull => hloop (congrArg Except.error (Except.error.inj hnull))
        | ok r => exact fun hnull => by cases hnull
      · exact fun hnull => by cases hnull

/-- A stretch of time in which a callback does nothing to the manager. -/
def quiet : Span := ⟨0, [], 0⟩

theorem timeEventLoop_null (n : Nat) (h : s.timerManager.Holds es) (hlen : es.length = n)
    (hexpiring : s.expiring = true) (hall : ∀ e ∈ es, ¬ Stays e.2) :
    timeEventLoop (List.replicate (n + 1) quiet) s = .error .nullDeref := by
  induction n generalizing s es with
  | zero =>
    obtain rfl := List.eq_nil_of_length_eq_zero hlen
    show s.expireTop quiet >>= _ = _
    rw [expireTop_nil h]
    rfl
  | succ n ih =>
    have hne : es ≠ [] := by
      rintro rfl
      cases hlen
    obtain ⟨e, hmin, -, hpass⟩ := expireTop_spec h hne quiet
    have hgone := hall e (List.mem_of_getElem? hmin.getElem?)
    unfold Stays at hgone
    rw [not_or] at hgone
    obtain ⟨s', hs', hpopped⟩ := hpass (not_lt.1 hgone.2)
    obtain ⟨armed, new, hholds, harmed, hnew⟩ := hpopped.holds
    rw [if_neg hgone.1, List.map_eq_nil_iff] at harmed
    rw [harmed, hnew rfl, List.append_nil, List.append_nil] at hholds
    have hrest := ih hholds (by rw [List.length_eraseIdx_of_lt hmin.lt_length, hlen]; rfl)
      (hpopped.expiring.trans hexpiring) fun d hd => hall d (List.mem_of_mem_eraseIdx hd)
    rw [List.replicate_succ, timeEventLoop, hs', Run.ok_bind,
      if_pos (hpopped.expiring.trans hexpiring), hrest]
    rfl

/-- What comes before the loop: nothing happens to an empty manager, and otherwise every timer has
less time left. -/
theorem timeEvent_eq (h : s.timerManager.Holds es) (hidle : s.expiring = false) (t : Int) :
    (es = [] ∧ ∀ spans, s.timeEvent spans t = .ok (0, s)) ∨ (es ≠ [] ∧ ∃ s',
      s'.timerManager.Holds (es.map fun e => (e.1, e.2.elapse t)) ∧ s'.expiring = true ∧
        s'.fired = s.fired ∧ ∀ spans, s.timeEvent spans t = timeEventLoop spans s') := by
  by_cases hnil : es = []
  · refine Or.inl ⟨hnil, fun spans => ?_⟩
    rw [timeEvent, serverManagerTimeEvent, if_pos (by rw [h.size, hnil]; rfl), Run.pure_eq_ok,
      Run.ok_bind, hidle]
    rfl
  · obtain ⟨tm, hupdate, htm⟩ := update_spec h t
    refine Or.inr ⟨hnil, { s with timerManager := tm, expiring := true }, htm, rfl, rfl,
      fun spans => ?_⟩
    have hsize : s.timerManager.size ≠ 0 := by
      rw [h.size]
      exact fun h0 => hnil (List.eq_nil_of_length_eq_zero h0)
    rw [timeEvent, serverManagerTimeEvent, if_neg hsize, hupdate, Run.ok_bind, Run.pure_eq_ok,
      Run.ok_bind, if_pos rfl]

/-- **The loop never reads `top->time_left` through a null pointer, whatever the callbacks add to
the manager, exactly when there is no timer, or one of them repeats or has not expired.** -/
theorem timeEvent_neverNull_iff (s : ServerManager) (ops : List TimerManager.Op)
    (out ts : List Timer) (t : Int)
    (hreach : Run.run TimerManager.step (TimerManager.create, []) ops = .ok (s.timerManager, out))
    (hidle : s.expiring = false) (hts : s.timerManager.timers = .ok ts) :
    (∀ spans, s.timeEvent spans t ≠ .error .nullDeref) ↔
      ts = [] ∨ ∃ ti ∈ ts, ti.type = .repeat ∨ t < ti.timeLeft := by
  obtain ⟨es, hes⟩ := run_holds hreach
  obtain rfl : es.map Prod.snd = ts := Run.ok_unique hes.timers hts
  have hstays : (∃ e ∈ es.map (fun e => (e.1, e.2.elapse t)), Stays e.2) ↔
      ∃ ti ∈ es.map Prod.snd, ti.type = .repeat ∨ t < ti.timeLeft := by
    simp only [List.mem_map, exists_exists_and_eq_and, Stays, Timer.elapse, sub_pos]
  rcases timeEvent_eq hes hidle t with ⟨rfl, hempty⟩ | ⟨hne, s', hes', hexpiring, -, hloop⟩
  · refine iff_of_true (fun spans => ?_) (Or.inl rfl)
    rw [hempty]
    exact fun hnull => by cases hnull
  · rw [← hstays]
    constructor
    · intro hnever
      by_contra hnot
      rw [not_or] at hnot
      refine hnever (List.replicate (es.length + 1) quiet) ?_
      rw [hloop]
      exact timeEventLoop_null es.length hes' (List.length_map _) hexpiring
        fun e he hs => hnot.2 ⟨e, he, hs⟩
    · rintro (hnil | hsome) spans
      · exact absurd (List.map_eq_nil_iff.1 hnil) hne
      · rw [hloop]
        exact timeEventLoop_neverNull spans hes' hsome

/-! ## What fires -/

/-- **The loop on old timers `es` and on timers `rs` that are not to fire in it.**  What has expired
of the old ones is popped in the order of the stable queue, and what repeats comes behind. -/
theorem timeEventLoop_fires (spans : List Span) {rs : List (Nat × Timer)}
    (h : s.timerManager.Holds (es ++ rs)) (hexpiring : s.expiring = true)
    (hrs : ∀ r ∈ rs, 0 < r.2.timeLeft)
    (hrepeat : ∀ e ∈ es, e.2.type = .repeat → 0 < e.2.timeOut) (hstays : ∃ e ∈ es ++ rs, Stays e.2)
    (hquiet : ∀ span ∈ spans, span.adds = [])
    (hlen : (es.filter fun e => e.2.timeLeft ≤ 0).length < spans.length) :
    ∃ (order new : List (Nat × Timer)) (s' : ServerManager),
      ServiceOrder left (es.filter fun e => e.2.timeLeft ≤ 0) order ∧
        timeEventLoop spans s = .ok (order.length, s') ∧ s'.expiring = false ∧
        s'.fired.map Firing.timer = s.fired.map Firing.timer ++
          (order.map Prod.snd).filter (fun ti => ti.type ≠ .none) ∧
        s'.timerManager.Holds (es.filter (fun e => 0 < e.2.timeLeft) ++ rs ++ new) ∧
        new.map Prod.snd = ((order.map Prod.snd).filter fun ti => ti.type = .repeat).map Timer.armed := by
  induction spans generalizing s es rs with
  | nil => exact absurd hlen (Nat.not_lt_zero _)
  | cons span spans ih =>
    have hne : es ++ rs ≠ [] := by
      intro hnil
      obtain ⟨e, he, -⟩ := hstays
      rw [hnil] at he
      cases he
    obtain ⟨e, hmin, hleave, hpass⟩ := expireTop_spec h hne span
    rw [timeEventLoop]
    by_cases hleft : 0 < e.2.timeLeft
    · -- no timer has expired
      have hall : ∀ d ∈ es, 0 < d.2.timeLeft := fun d hd =>
        hleft.trans_le (hmin.le (List.mem_append_left rs hd))
      have hnone : es.filter (fun e => e.2.timeLeft ≤ 0) = [] :=
        List.filter_eq_nil_iff.2 fun d hd hd' => absurd (of_decide_eq_true hd') (not_le.2 (hall d hd))
      have hrest : es.filter (fun e => 0 < e.2.timeLeft) = es :=
        List.filter_eq_self.2 fun d hd => decide_eq_true (hall d hd)
      rw [hnone, hrest, hleave hleft]
      exact ⟨[], [], { s with expiring := false }, serviceOrder_nil, rfl, rfl,
        (List.append_nil _).symm, by rw [List.append_nil]; exact h, rfl⟩
    · rw [not_lt] at hleft
      have hk : s.timerManager.topIndex < es.length := by
        by_contra hge
        have hget := hmin.getElem?
        rw [List.getElem?_append_right (not_lt.1 hge)] at hget
        exact absurd (hrs e (List.mem_of_getElem? hget)) (not_lt.2 hleft)
      obtain ⟨s', hs', hpopped⟩ := hpass hleft
      obtain ⟨armed, new, hholds, harmed, hnew⟩ := hpopped.holds
      have hstays' := exists_stays new hmin hleft harmed hstays
      obtain ⟨xs, ys, rfl, hxk, hxs, hys⟩ := hmin.of_append hk
      -- the manager after the pass
      have herase : (xs ++ e :: ys ++ rs).eraseIdx s.timerManager.topIndex = xs ++ ys ++ rs := by
        rw [List.eraseIdx_append_of_lt_length hk, ← hxk, List.eraseIdx_append_of_length_le le_rfl]
        simp
      obtain rfl := hnew (hquiet span (by simp))
      rw [herase, List.append_nil, List.append_assoc _ rs] at hholds hstays'
      have harmed' : ∀ r ∈ armed, 0 < r.2.timeLeft := by
        intro r hr
        have hr' := List.mem_map_of_mem (f := Prod.snd) hr
        rw [harmed] at hr'
        split_ifs at hr' with htype
        · rw [List.mem_singleton.1 hr']
          exact hrepeat e (by simp) htype
        · cases hr'
      have hcount : ((xs ++ ys).filter fun e => e.2.timeLeft ≤ 0).length < spans.length := by
        rw [List.filter_append, List.filter_cons, if_pos (decide_eq_true hleft)] at hlen
        rw [List.filter_append]
        simp only [List.length_append, List.length_cons] at hlen ⊢
        omega
      obtain ⟨order, new, s'', horder, hloop, hidle, hfired, hholds', hnew'⟩ := ih hholds
        (hpopped.expiring.trans hexpiring)
        (fun r hr => (List.mem_append.1 hr).elim (hrs r) (harmed' r))
        (fun d hd => hrepeat d (by
          rcases List.mem_append.1 hd with hd | hd <;> simp [hd]))
        hstays' (fun span hspan => hquiet span (by simp [hspan])) hcount
      refine ⟨e :: order, armed ++ new, s'', ?_, ?_, hidle, ?_, ?_, ?_⟩
      · rw [List.filter_append, List.filter_cons, if_pos (decide_eq_true hleft)]
        rw [List.filter_append] at horder
        exact horder.cons (fun y hy => hxs y (List.mem_of_mem_filter hy))
          fun y hy => hys y (List.mem_of_mem_filter hy)
      · rw [hs', Run.ok_bind, if_pos (hpopped.expiring.trans hexpiring), hloop]
        rfl
      · rw [hfired, hpopped.fired, List.map_cons, List.filter_cons]
        by_cases htype : e.2.type = .none <;> simp [htype]
      · rw [List.filter_append, List.filter_cons,
          if_neg fun hd => absurd (of_decide_eq_true hd) (not_lt.2 hleft), ← List.filter_append]
        simpa using hholds'
      · rw [List.map_append, harmed, hnew', List.map_cons, List.filter_cons]
        by_cases htype : e.2.type = .repeat <;> simp [htype]

theorem elapse_of_neg (t : Int) (ti : Timer) : (ti.elapse (-t)).elapse t = ti := by
  simp [Timer.elapse]

/-- **Exact firing.**  A manager with a timer that repeats or has not expired pops the timers
that have expired after `t` milliseconds and no other: in the order of the stable queue, each
callback is invoked once.  The timers that are left keep their order, and the repeating ones come
behind them with their whole `time_out`, in the order in which they fired. -/
theorem timeEvent_fires (s : ServerManager) (ops : List TimerManager.Op) (out ts : List Timer)
    (t : Int) (spans : List Span)
    (hreach : Run.run TimerManager.step (TimerManager.create, []) ops = .ok (s.timerManager, out))
    (hidle : s.expiring = false) (hts : s.timerManager.timers = .ok ts)
    (hrepeat : ∀ ti ∈ ts, ti.type = .repeat → 0 < ti.timeOut)
    (hsome : ∃ ti ∈ ts, ti.type = .repeat ∨ t < ti.timeLeft)
    (hquiet : ∀ span ∈ spans, span.adds = [])
    (hlen : (ts.filter fun ti => ti.timeLeft ≤ t).length < spans.length) :
    ∃ (order : List Timer) (s' : ServerManager),
      ServiceOrder Timer.timeLeft (ts.filter fun ti => ti.timeLeft ≤ t) order ∧
        s.timeEvent spans t = .ok ((ts.filter fun ti => ti.timeLeft ≤ t).length, s') ∧
        s'.expiring = false ∧
        s'.fired.map Firing.timer = s.fired.map Firing.timer ++
          (order.filter fun ti => ti.type ≠ .none).map (Timer.elapse t) ∧
        s'.timerManager.timers = .ok ((ts.filter fun ti => t < ti.timeLeft).map (Timer.elapse t) ++
          (order.filter fun ti => ti.type = .repeat).map Timer.armed) := by
  obtain ⟨es, hes⟩ := run_holds hreach
  obtain rfl : es.map Prod.snd = ts := Run.ok_unique hes.timers hts
  rcases timeEvent_eq hes hidle t with ⟨rfl, -⟩ | ⟨-, s₁, hes₁, hexpiring, hfired₁, hloop₁⟩
  · obtain ⟨ti, hti, -⟩ := hsome
    cases hti
  -- the timers behind the update, and those they were before it
  have hexpired : ((es.map fun e => (e.1, e.2.elapse t)).filter fun e => e.2.timeLeft ≤ 0).map
      (fun e => e.2.elapse (-t)) = (es.map Prod.snd).filter fun ti => ti.timeLeft ≤ t := by
    rw [List.filter_map, List.filter_map, List.map_map]
    simp [Function.comp_def, Timer.elapse]
  have hleft : ((es.map fun e => (e.1, e.2.elapse t)).filter fun e => 0 < e.2.timeLeft).map
      Prod.snd = ((es.map Prod.snd).filter fun ti => t < ti.timeLeft).map (Timer.elapse t) := by
    rw [List.filter_map, List.filter_map, List.map_map, List.map_map]
    simp [Function.comp_def, Timer.elapse]
  have hnone : ∀ r ∈ ([] : List (Nat × Timer)), 0 < r.2.timeLeft := by simp
  obtain ⟨order, new, s', horder, hloop, hidle', hfired, hholds, hnew⟩ := timeEventLoop_fires
    spans (by rw [List.append_nil]; exact hes₁) hexpiring hnone (by
      intro e he htype
      obtain ⟨d, hd, rfl⟩ := List.mem_map.1 he
      exact hrepeat d.2 (List.mem_map_of_mem hd) htype) (by
      obtain ⟨ti, hti, hstays⟩ := hsome
      obtain ⟨d, hd, rfl⟩ := List.mem_map.1 hti
      refine ⟨_, List.mem_append_left _ (List.mem_map_of_mem hd), ?_⟩
      rcases hstays with htype | hlt
      · exact Or.inl htype
      · exact Or.inr (sub_pos.2 hlt)) hquiet (by
      rw [← hexpired, List.length_map] at hlen
      exact hlen)
  have hfires : order.map Prod.snd = (order.map fun e => e.2.elapse (-t)).map (Timer.elapse t) := by
    rw [List.map_map]
    exact List.map_congr_left fun e _ => (elapse_of_neg t e.2).symm
  have hcount : order.length = ((es.map Prod.snd).filter fun ti => ti.timeLeft ≤ t).length := by
    rw [horder.perm.length_eq, ← hexpired, List.length_map]
  have hagain : new.map Prod.snd =
      ((order.map fun e => e.2.elapse (-t)).filter fun ti => ti.type = .repeat).map Timer.armed := by
    rw [hnew, hfires, List.filter_map, List.map_map]
    rfl
  refine ⟨order.map fun e => e.2.elapse (-t), s', ?_, ?_, hidle', ?_, ?_⟩
  · rw [← hexpired]
    refine horder.map fun a b => ?_
    simp only [left, Timer.elapse]
    omega
  · rw [hloop₁, hloop, hcount]
  · rw [hfired, hfired₁, hfires, List.filter_map]
    rfl
  · rw [hholds.timers, List.append_nil, List.map_append, hleft, hagain]

/-! ## A timer that fires once, and one that repeats -/

/-- A server manager with the timers `tm`, outside of its loop. -/
def idle (tm : TimerManager) : ServerManager := ⟨tm, false, 0, fun _ => 0, []⟩

/-- The timer of five milliseconds, repeating. -/
def everyFiveMs : Timer := { fiveMs with type := .repeat }

/-- A manager of one timer. -/
theorem exists_push (ti : Timer) : ∃ m, TimerManager.create.push ti = .ok m ∧
    Run.run TimerManager.step (TimerManager.create, []) [.push ti] = .ok (m, []) ∧
    m.timers = .ok [ti.armed] := by
  obtain ⟨m, hpush, hes⟩ := push_spec create_holds ti
  refine ⟨m, hpush, ?_, hes.timers⟩
  simp only [Run.run_cons, TimerManager.step, hpush, Run.ok_bind, Run.pure_eq_ok, Run.run_nil]

/-- A repeating timer is always there. -/
theorem timeEvent_neverNull_repeat : ∃ m, TimerManager.create.push everyFiveMs = .ok m ∧
    ∀ spans, (idle m).timeEvent spans 5 ≠ .error .nullDeref := by
  obtain ⟨m, hpush, hrun, htimers⟩ := exists_push everyFiveMs
  exact ⟨m, hpush, (timeEvent_neverNull_iff (idle m) [.push everyFiveMs] [] _ 5 hrun rfl htimers).2
    (Or.inr ⟨_, List.mem_singleton_self _, Or.inl rfl⟩)⟩

/-- **The last timer leaves `top` null**, and the loop looks at it. -/
theorem not_timeEvent_neverNull : ¬ ∀ (s : ServerManager) (adds : List Timer) (t : Int), 0 ≤ t →
    Run.run TimerManager.step (TimerManager.create, []) (adds.map .push) = .ok (s.timerManager, []) →
      s.expiring = false → ∀ spans, s.timeEvent spans t ≠ .error .nullDeref := by
  intro h
  obtain ⟨m, hpush, hrun, -⟩ := exists_push fiveMs
  have hnull : (TimerManager.create.push fiveMs >>= fun m =>
      (idle m).timeEvent [quiet, quiet] 5).map Prod.fst = .error .nullDeref := by
    decide +kernel
  rw [hpush, Run.ok_bind] at hnull
  refine h (idle m) [fiveMs] 5 (by decide) hrun rfl [quiet, quiet] ?_
  cases hevent : (idle m).timeEvent [quiet, quiet] 5 with
  | error f =>
    rw [hevent] at hnull
    exact congrArg Except.error (Except.error.inj hnull)
  | ok r =>
    rw [hevent] at hnull
    cases hnull

/-- A repeating timer of five milliseconds fires once in seven. -/
theorem timeEvent_fires_repeat : ∃ m s', TimerManager.create.push everyFiveMs = .ok m ∧
    (idle m).timeEvent [quiet, quiet] 7 = .ok (1, s') ∧
      s'.fired.map Firing.timer = [everyFiveMs.armed.elapse 7] ∧
      s'.timerManager.timers = .ok [everyFiveMs.armed] := by
  obtain ⟨m, hpush, hrun, htimers⟩ := exists_push everyFiveMs
  obtain ⟨order, s', horder, hevent, -, hfired, hleft⟩ := timeEvent_fires (idle m)
    [.push everyFiveMs] [] _ 7 [quiet, quiet] hrun rfl htimers (by decide) (by decide) (by decide)
    (by decide)
  obtain rfl : order = [everyFiveMs.armed] := List.perm_singleton.1 horder.perm
  exact ⟨m, s', hpush, hevent, hfired, hleft⟩

end ServerManager

end MWebServer
