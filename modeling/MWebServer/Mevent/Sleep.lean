import MWebServer.Mevent.TimeEvent

/-!
# How long the loop waits (`server_manager_run`, `calc_timeout`)

`epoller_dispatch` waits for as long as `calc_timeout` says, with -1 until an event comes.  The
loop of `server_manager_time_event` is left only by a timer with time left, so that the next wait
is never empty; but a dispatch that begins without a timer is followed by no time event at all.

* `addTimers_armed` — what callbacks add, in order.
* `sleepsRight_iff` — the waits of a run are right as long as no such dispatch adds a timer
  without a `time_out`.
-/

namespace MWebServer

open StableQueue TimerManager

namespace ServerManager

/-- **The next wait is right.**  Before a dispatch, `calc_timeout` says -1 if there is no timer, and
else the least time that is left of one, which is above zero: then the loop neither spins nor
sleeps on while a timer expires. -/
def SleepsRight (s : ServerManager) : Prop :=
  s.expiring = false → ∃ ts, s.timerManager.timers = .ok ts ∧
    ((ts = [] ∧ calcTimeout (some s.timerManager) = .ok (false, -1)) ∨
      ∃ t ∈ ts, calcTimeout (some s.timerManager) = .ok (true, t.timeLeft) ∧ 0 < t.timeLeft ∧
        ∀ u ∈ ts, t.timeLeft ≤ u.timeLeft)

end ServerManager

/-- A dispatch that begins without a timer adds none that has no time left.  There is no time event
behind it, which would call back such a timer. -/
def Tick.AddsTime (s : ServerManager) : Tick → Prop
  | .dispatch span => s.expiring = false → s.timerManager.size = 0 →
      ∀ a ∈ span.adds, 0 < a.timer.timeOut
  | .expire _ => True

namespace ServerManager

variable {s s' : ServerManager} {es : List (Nat × Timer)} {span : Span}

/-- The timers have time left, unless the loop of `server_manager_time_event` is at work. -/
structure Waiting (s : ServerManager) (es : List (Nat × Timer)) : Prop where
  holds : s.timerManager.Holds es
  left : s.expiring = false → ∀ e ∈ es, 0 < e.2.timeLeft

theorem Waiting.sleepsRight (h : s.Waiting es) : s.SleepsRight := by
  intro hidle
  refine ⟨es.map Prod.snd, h.holds.timers, ?_⟩
  rcases calcTimeout_spec h.holds with ⟨rfl, hcalc⟩ | ⟨e, hmin, -, -, hcalc⟩
  · exact Or.inl ⟨rfl, hcalc⟩
  · have he : e ∈ es := List.mem_of_getElem? hmin.getElem?
    refine Or.inr ⟨e.2, List.mem_map_of_mem he, hcalc, h.left hidle e he, fun u hu => ?_⟩
    obtain ⟨d, hd, rfl⟩ := List.mem_map.1 hu
    exact hmin.le hd

/-- A timer without time left makes the next wait wrong. -/
theorem not_sleepsRight (h : s.timerManager.Holds es) (hidle : s.expiring = false)
    (hnot : ¬ ∀ e ∈ es, 0 < e.2.timeLeft) : ¬ s.SleepsRight := by
  intro hsleeps
  refine hnot fun e he => ?_
  obtain ⟨ts, hts, hcalc⟩ := hsleeps hidle
  obtain rfl : es.map Prod.snd = ts := Run.ok_unique h.timers hts
  have hmem : e.2 ∈ es.map Prod.snd := List.mem_map_of_mem he
  rcases hcalc with ⟨hnil, -⟩ | ⟨t, -, -, hpos, hle⟩
  · rw [hnil] at hmem
    cases hmem
  · exact hpos.trans_le (hle _ hmem)

/-! ## What is added -/

/-- Callbacks append timers in the order of their calls, each with its whole `time_out`. -/
theorem addTimers_armed (h : s.timerManager.Holds es) (adds : List Addition) :
    ∃ s' new, s.addTimers adds = .ok s' ∧ s'.timerManager.Holds (es ++ new) ∧
      new.map Prod.snd = adds.map (fun a => a.timer.armed) ∧ s'.expiring = s.expiring ∧
      s'.fired = s.fired := by
  induction adds generalizing s es with
  | nil => exact ⟨s, [], rfl, by simpa using h, rfl, rfl, rfl⟩
  | cons a adds ih =>
    obtain ⟨t, p, ht, htm, -, -, hfired, hexpiring, -⟩ := serverManagerAddTimer_spec h a
    obtain ⟨s', new, hs', htm', hnew, hexpiring', hfired'⟩ := ih htm
    refine ⟨s', (p, a.timer.armed) :: new, ?_, ?_, ?_, hexpiring'.trans hexpiring,
      hfired'.trans hfired⟩
    · unfold addTimers
      rw [Run.run_cons, ht, Run.ok_bind]
      exact hs'
    · rw [List.append_cons]
      exact htm'
    · rw [List.map_cons, hnew, List.map_cons]

/-- They all have time left exactly when each has a `time_out`. -/
theorem armed_left {new : List (Nat × Timer)} {adds : List Addition}
    (hnew : new.map Prod.snd = adds.map fun a => a.timer.armed) :
    (∀ e ∈ new, 0 < e.2.timeLeft) ↔ ∀ a ∈ adds, 0 < a.timer.timeOut := by
  have hsame : (∀ ti ∈ new.map Prod.snd, 0 < ti.timeLeft) ↔
      ∀ ti ∈ adds.map fun a => a.timer.armed, 0 < ti.timeLeft := by rw [hnew]
  simpa only [List.forall_mem_map, Timer.armed] using hsame

/-! ## One tick -/

/-- A dispatch that begins without a timer is followed by no time event: it only adds timers. -/
theorem dispatch_empty (h : s.timerManager.Holds []) (span : Span) :
    ∃ s' new, s.dispatch span = .ok s' ∧ s'.timerManager.Holds new ∧
      new.map Prod.snd = span.adds.map (fun a => a.timer.armed) ∧ s'.expiring = s.expiring ∧
      s'.fired = s.fired := by
  rcases calcTimeout_spec h with ⟨-, hcalc⟩ | ⟨e, hmin, -⟩
  · obtain ⟨t, new, ht, htm, hrest⟩ := addTimers_armed h span.adds
    refine ⟨{ t with clock := span.stop }, new, ?_, htm, hrest⟩
    unfold dispatch
    rw [hcalc, Run.ok_bind, ht]
    rfl
  · exact absurd hmin.lt_length (Nat.not_lt_zero _)

/-- Behind any other dispatch the loop of `server_manager_time_event` is at work, and the time
of the dispatch is taken from all timers, also from those that were added in it. -/
theorem dispatch_expiring (h : s.timerManager.Holds es) (hne : es ≠ []) (span : Span) :
    ∃ s' es', s.dispatch span = .ok s' ∧ s'.timerManager.Holds es' ∧
      es'.map Prod.snd = (es.map Prod.snd ++ span.adds.map fun a => a.timer.armed).map
        (Timer.elapse (elapsed span)) ∧
      s'.expiring = true ∧ s'.fired = s.fired := by
  rcases calcTimeout_spec h with ⟨hnil, -⟩ | ⟨e, hmin, -, -, hcalc⟩
  · exact absurd hnil hne
  · obtain ⟨t, new, ht, htm, hnew, -, hfired⟩ := addTimers_armed h span.adds
    have hsize : t.timerManager.size ≠ 0 := by
      rw [htm.size, List.length_append]
      have hlt := hmin.lt_length
      omega
    obtain ⟨tm, hupdate, htm'⟩ := update_spec htm (elapsed span)
    refine ⟨{ t with clock := span.stop, timerManager := tm, expiring := true }, _, ?_, htm', ?_, rfl,
      hfired⟩
    · unfold dispatch
      simp only [hcalc, ht, Run.ok_bind, if_pos, serverManagerTimeEvent, if_neg hsize, hupdate]
      rfl
    · rw [← hnew, ← List.map_append, List.map_map, List.map_map]
      rfl

/-- **One tick.**  A pass that leaves the loop of `server_manager_time_event` has seen that the
least time left is above zero. -/
theorem step_waiting {tick : Tick} (h : ∃ es, s.Waiting es) (hadds : tick.AddsTime s)
    (hok : s.step tick = .ok s') : ∃ es, s'.Waiting es := by
  obtain ⟨es, h⟩ := h
  cases tick with
  | dispatch span =>
    by_cases hnil : es = []
    · subst hnil
      obtain ⟨t, new, ht, htm, hnew, hexpiring, -⟩ := dispatch_empty h.holds span
      obtain rfl := Run.ok_unique ht hok
      exact ⟨new, htm, fun hidle => (armed_left hnew).2
        (hadds (hexpiring.symm.trans hidle) h.holds.size)⟩
    · obtain ⟨t, es', ht, htm, -, hexpiring, -⟩ := dispatch_expiring h.holds hnil span
      obtain rfl := Run.ok_unique ht hok
      exact ⟨es', htm, fun hidle => absurd (hexpiring.symm.trans hidle) (by decide)⟩
  | expire span =>
    replace hok : s.expireTop span = .ok s' := hok
    by_cases hnil : es = []
    · subst hnil
      rw [expireTop_nil h.holds] at hok
      cases hok
    · obtain ⟨e, hmin, hleave, hpass⟩ := expireTop_spec h.holds hnil span
      by_cases hleft : 0 < e.2.timeLeft
      · rw [hleave hleft] at hok
        obtain rfl := Except.ok.inj hok
        exact ⟨es, h.holds, fun _ d hd => hleft.trans_le (hmin.le hd)⟩
      · -- the loop goes on, which it would not have begun with such a timer
        obtain ⟨t, ht, hpopped⟩ := hpass (not_lt.1 hleft)
        obtain rfl := Run.ok_unique ht hok
        obtain ⟨armed, new, hholds, -⟩ := hpopped.holds
        exact ⟨_, hholds, fun hidle => absurd (h.left (hpopped.expiring.symm.trans hidle) e
          (List.mem_of_getElem? hmin.getElem?)) hleft⟩

/-- A dispatch of any other kind is followed by a wait that is wrong. -/
theorem step_not_sleepsRight {tick : Tick} (h : ∃ es, s.Waiting es) (hadds : ¬ tick.AddsTime s) :
    ∃ s', s.step tick = .ok s' ∧ ¬ s'.SleepsRight := by
  obtain ⟨es, h⟩ := h
  cases tick with
  | dispatch span =>
    simp only [Tick.AddsTime, Classical.not_imp] at hadds
    obtain ⟨hidle, hsize, hnot⟩ := hadds
    obtain rfl := List.eq_nil_of_length_eq_zero (h.holds.size.symm.trans hsize)
    obtain ⟨t, new, ht, htm, hnew, hexpiring, -⟩ := dispatch_empty h.holds span
    rw [← armed_left hnew] at hnot
    exact ⟨t, ht, not_sleepsRight htm (hexpiring.trans hidle) hnot⟩
  | expire span => exact absurd trivial hadds

/-! ## The whole run -/

/-- The waits of a run that begins with the timers `es`, which are not about to be called back. -/
theorem always_sleepsRight_iff (h : s.timerManager.Holds es) (hidle : s.expiring = false)
    (ticks : List Tick) : Run.Always step SleepsRight s ticks ↔
      (∀ e ∈ es, 0 < e.2.timeLeft) ∧ Run.Meets step (fun s tick => tick.AddsTime s) s ticks := by
  by_cases hall : ∀ e ∈ es, 0 < e.2.timeLeft
  · rw [and_iff_right hall]
    exact Run.always_iff_meets (I := fun s => ∃ es, s.Waiting es) (fun s ⟨es, h⟩ => h.sleepsRight)
      (fun s tick s' => step_waiting) (fun s tick => step_not_sleepsRight)
      ⟨es, h, fun _ => hall⟩ ticks
  · -- the first wait is wrong
    refine iff_of_false (fun halways => ?_) (fun hboth => hall hboth.1)
    exact not_sleepsRight h hidle hall (halways [] List.nil_prefix s rfl)

/-- **Every wait of `server_manager_run` is right exactly when the timers that are added where there
is none, before the loop or in a dispatch, all have a `time_out`.**  Of every other timer nothing
is asked, whichever callback adds it; and a time event never leaves a timer that has expired. -/
theorem sleepsRight_iff (span : Span) : ∃ s, create span = .ok s ∧ ∀ ticks,
    Run.Always step SleepsRight s ticks ↔
      (∀ a ∈ span.adds, 0 < a.timer.timeOut) ∧
        Run.Meets step (fun s tick => tick.AddsTime s) s ticks := by
  obtain ⟨t, new, ht, htm, hnew, hexpiring, -⟩ := addTimers_armed
    (s := ⟨TimerManager.create, false, span.start, fun _ => 0, []⟩) create_holds span.adds
  refine ⟨{ t with clock := span.stop }, by rw [create, ht]; rfl, fun ticks => ?_⟩
  rw [← armed_left hnew]
  exact always_sleepsRight_iff (s := { t with clock := span.stop }) htm hexpiring ticks

end ServerManager

end MWebServer
