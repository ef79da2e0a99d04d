import MWebServer.Mevent.Timer

/-!
# The loop of the server manager (`mevent/servermanager.c`)

`server_manager_run` dispatches I/O events and then, if there was a timer before, takes
the time this took from all timers and pops those that have expired.

A run is a list of `Tick`s: a call of `epoller_dispatch` with the code around it, or a pass
through the loop of `server_manager_time_event`.  What the callbacks do to the manager in
that time, and when, is part of the tick.

* `addTimers_spec` — what a stretch of time adds to the timers.
* `step_onTime` — a tick that takes no more from a new timer than its age keeps every
  timer in time.
* `never_early` — so in a run of such ticks no callback is invoked early.
-/

namespace MWebServer

open StableQueue TimerManager

/-! ## Data -/

/-- A call of `server_manager_add_timer`, in a callback; the times are microseconds. -/
structure Addition where
  time : Int
  timer : Timer
  deriving DecidableEq, Repr

/-- A stretch of time in which callbacks run. -/
structure Span where
  start : Int
  adds : List Addition
  stop : Int
  deriving DecidableEq, Repr

/-- An invocation of the callback of a timer. -/
structure Firing where
  timer : Timer
  /-- When the timer was added, or re-armed. -/
  added : Int
  time : Int
  deriving DecidableEq, Repr

/-- `server_manager`, with what has happened to its timers. -/
structure ServerManager where
  timerManager : TimerManager
  /-- The loop of `server_manager_time_event` has begun and is not left yet. -/
  expiring : Bool
  clock : Int
  /-- When the timer at an address was added, or re-armed. -/
  added : Nat → Int
  fired : List Firing

/-- A part of an iteration of `server_manager_run`. -/
inductive Tick where
  /-- From `calc_timeout` to `timer_manager_update`.  The stretch begins with the first call of
  `gettimeofday`, and `trigger_time` is its end. -/
  | dispatch (span : Span)
  /-- A pass through the loop of `server_manager_time_event`, with the stretch in which the
  callback runs, if one is invoked. -/
  | expire (span : Span)

namespace ServerManager

/-! ## The operations -/

/-- `server_manager_add_timer` -/
def serverManagerAddTimer (s : ServerManager) (a : Addition) : Except Fault ServerManager := do
  let tm ← s.timerManager.push a.timer
  pure { s with
    timerManager := tm
    added := Function.update s.added s.timerManager.heap.length a.time }

/-- What the callbacks do to the manager. -/
def addTimers : ServerManager → List Addition → Except Fault ServerManager :=
  Run.run serverManagerAddTimer

/-- `ti.callback(ti.arg)` -/
def call (s : ServerManager) (span : Span) (ti : Timer) (added : Int) :
    Except Fault ServerManager := do
  let s := { s with fired := s.fired ++ [Firing.mk ti added span.start] }
  let s ← s.addTimers span.adds
  pure { s with clock := span.stop }

/-- `server_manager_time_event`, up to its loop. -/
def serverManagerTimeEvent (s : ServerManager) (timeout : Int) : Except Fault ServerManager :=
  if s.timerManager.size = 0 then pure s
  else do
    let tm ← s.timerManager.update timeout
    pure { s with timerManager := tm, expiring := true }

/-- A pass through the loop of `server_manager_time_event`.  The stretch of a repeating timer
begins when it is re-armed. -/
def expireTop (s : ServerManager) (span : Span) : Except Fault ServerManager := do
  let top ← s.timerManager.getTop
  if top.timeLeft ≤ 0 then do
    let added := (s.timerManager.top.map s.added).getD 0
    let (ret, tm) ← s.timerManager.pop
    let s := { s with timerManager := tm }
    match ret with
    | none => pure s
    | some ti =>
        match ti.type with
        | .none => pure s
        | .once => s.call span ti added
        | .repeat => do
            let s ← s.serverManagerAddTimer ⟨span.start, ti⟩
            s.call span ti added
  else pure { s with expiring := false }

/-- `timeout = diff / 1000` -/
def elapsed (span : Span) : Int := toInt ((span.stop - span.start).tdiv 1000)

/-- `epoller_dispatch`, and the code around it in `server_manager_run`. -/
def dispatch (s : ServerManager) (span : Span) : Except Fault ServerManager := do
  let (hasTimeout, _) ← calcTimeout (some s.timerManager)
  let s ← s.addTimers span.adds
  let s := { s with clock := span.stop }
  if hasTimeout then s.serverManagerTimeEvent (elapsed span) else pure s

/-- One tick of `server_manager_run`. -/
def step (s : ServerManager) : Tick → Except Fault ServerManager
  | .dispatch span => s.dispatch span
  | .expire span => s.expireTop span

/-- `server_manager_create`, and what is added before `server_manager_run`. -/
def create (span : Span) : Except Fault ServerManager := do
  let s ← addTimers ⟨TimerManager.create, false, span.start, fun _ => 0, []⟩ span.adds
  pure { s with clock := span.stop }

end ServerManager

/-! ## Runs -/

/-- The clock does not go back, and every timer that is added has a `time_out` above zero. -/
structure Span.Legal (span : Span) (clock : Int) : Prop where
  times : (clock :: span.start :: (span.adds.map Addition.time ++ [span.stop])).Pairwise (· ≤ ·)
  timeOut : ∀ a ∈ span.adds, 0 < a.timer.timeOut

/-- The loop comes to the tick. -/
def Tick.Legal (s : ServerManager) : Tick → Prop
  | .dispatch span => s.expiring = false ∧ span.Legal s.clock
  | .expire span => s.expiring = true ∧ span.Legal s.clock

/-- **No callback has been invoked early.**  `time_out` is in milliseconds. -/
def ServerManager.NeverEarly (s : ServerManager) : Prop :=
  ∀ f ∈ s.fired, f.added + 1000 * f.timer.timeOut ≤ f.time

/-- **The tick takes no more from a timer than its age.**  A timer with a callback that is added
during a dispatch is as old, at its end, as the time that is then taken from it, unless there was
no timer when the dispatch began. -/
def Tick.TakesAge (s : ServerManager) : Tick → Prop
  | .dispatch span => s.timerManager.size ≠ 0 → ∀ a ∈ span.adds, a.timer.type ≠ .none →
      1000 * ServerManager.elapsed span ≤ span.stop - a.time
  | .expire _ => True

theorem Span.Legal.bounds {span : Span} {clock : Int} (h : span.Legal clock) :
    clock ≤ span.start ∧ span.start ≤ span.stop ∧
      ∀ a ∈ span.adds, span.start ≤ a.time ∧ a.time ≤ span.stop := by
  have htimes := h.times
  simp only [List.pairwise_cons, List.pairwise_append, List.mem_cons, List.mem_append, List.mem_map,
    List.not_mem_nil, or_false] at htimes
  obtain ⟨hclock, hstart, -, -, hstop⟩ := htimes
  exact ⟨hclock _ (Or.inl rfl), hstart _ (Or.inr rfl),
    fun a ha => ⟨hstart _ (Or.inl ⟨a, ha, rfl⟩), hstop _ ⟨a, ha, rfl⟩ _ rfl⟩⟩

theorem Span.Legal.self {span : Span} {clock : Int} (h : span.Legal clock) :
    span.Legal span.start := by
  have htimes := (List.pairwise_cons.1 h.times).2
  refine ⟨List.pairwise_cons.2 ⟨?_, htimes⟩, h.timeOut⟩
  intro x hx
  rcases List.mem_cons.1 hx with rfl | hx
  · exact le_rfl
  · exact (List.pairwise_cons.1 htimes).1 x hx

namespace ServerManager

variable {s s' : ServerManager} {es : List (Nat × Timer)} {span : Span}

/-- Conversion to `int` makes no number larger. -/
theorem toInt_le {x : Int} (h : 0 ≤ x) : toInt x ≤ x := by
  unfold toInt Int.bmod
  simp only
  split_ifs <;> omega

/-- What is taken from the timers is no more than the dispatch has taken. -/
theorem elapsed_le (h : span.start ≤ span.stop) : 1000 * elapsed span ≤ span.stop - span.start := by
  have h0 : 0 ≤ span.stop - span.start := by omega
  have hdiv : (span.stop - span.start).tdiv 1000 = (span.stop - span.start) / 1000 :=
    Int.tdiv_eq_ediv_of_nonneg h0
  have hle := toInt_le (x := (span.stop - span.start) / 1000) (by omega)
  unfold elapsed
  rw [hdiv]
  omega

/-! ## What is added -/

theorem serverManagerAddTimer_spec (h : s.timerManager.Holds es) (a : Addition) :
    ∃ s' p, s.serverManagerAddTimer a = .ok s' ∧
      s'.timerManager.Holds (es ++ [(p, { a.timer with timeLeft := a.timer.timeOut })]) ∧
      (∀ e ∈ es, s'.added e.1 = s.added e.1) ∧ s'.added p = a.time ∧ s'.fired = s.fired ∧
      s'.expiring = s.expiring ∧ s'.clock = s.clock := by
  obtain ⟨tm, hpush, htm⟩ := push_spec h a.timer
  refine ⟨{ s with
    timerManager := tm
    added := Function.update s.added s.timerManager.heap.length a.time },
    s.timerManager.heap.length, ?_, htm, fun e he => ?_, ?_, rfl, rfl, rfl⟩
  · rw [serverManagerAddTimer, hpush]
    rfl
  · exact Function.update_of_ne (h.fresh he).ne _ _
  · exact Function.update_self _ _ _

/-- The timer `e` was added with `a`, and has its whole `time_out` left. -/
structure Fresh (s : ServerManager) (a : Addition) (e : Nat × Timer) : Prop where
  timer : e.2 = { a.timer with timeLeft := a.timer.timeOut }
  added : s.added e.1 = a.time

/-- **Callbacks append timers**, and each has its whole `time_out` left. -/
theorem addTimers_spec (h : s.timerManager.Holds es) (adds : List Addition) :
    ∃ s' new, s.addTimers adds = .ok s' ∧ s'.timerManager.Holds (es ++ new) ∧
      (∀ e ∈ es, s'.added e.1 = s.added e.1) ∧ (∀ e ∈ new, ∃ a ∈ adds, s'.Fresh a e) ∧
      s'.fired = s.fired ∧ s'.expiring = s.expiring ∧ s'.clock = s.clock := by
  induction adds generalizing s es with
  | nil => exact ⟨s, [], rfl, by simpa using h, fun _ _ => rfl, by simp, rfl, rfl, rfl⟩
  | cons a adds ih =>
    obtain ⟨t, p, ht, htm, hold, hp, hfired, hexpiring, hclock⟩ := serverManagerAddTimer_spec h a
    obtain ⟨s', new, hs', htm', hold', hnew, hfired', hexpiring', hclock'⟩ := ih htm
    refine ⟨s', (p, { a.timer with timeLeft := a.timer.timeOut }) :: new, ?_, ?_, fun e he => ?_, ?_,
      hfired'.trans hfired, hexpiring'.trans hexpiring, hclock'.trans hclock⟩
    · unfold addTimers
      rw [Run.run_cons, ht, Run.ok_bind]
      exact hs'
    · simpa using htm'
    · rw [hold' e (by simp [he]), hold e he]
    · intro e he
      rcases List.mem_cons.1 he with rfl | he
      · exact ⟨a, by simp, rfl, by rw [hold' _ (by simp), hp]⟩
      · obtain ⟨b, hb, hfresh⟩ := hnew e he
        exact ⟨b, by simp [hb], hfresh⟩

/-! ## The invariant -/

/-- At the time `now`, the timer does not expire too early. -/
def OnTime (s : ServerManager) (now : Int) (e : Nat × Timer) : Prop :=
  s.added e.1 + 1000 * e.2.timeOut ≤ now + 1000 * e.2.timeLeft

/-- **The invariant of the loop.**  Every timer with a callback has at least as much time left as
its `time_out` asks for. -/
structure Inv (s : ServerManager) (es : List (Nat × Timer)) : Prop where
  holds : s.timerManager.Holds es
  onTime : ∀ e ∈ es, e.2.type ≠ .none → s.OnTime s.clock e
  neverEarly : s.NeverEarly

theorem OnTime.later {now now' : Int} {e : Nat × Timer} (h : s.OnTime now e) (hle : now ≤ now') :
    s.OnTime now' e := by
  unfold OnTime at h ⊢
  omega

theorem OnTime.congr {now : Int} {e : Nat × Timer} (h : s.OnTime now e)
    (hadded : s'.added e.1 = s.added e.1) : s'.OnTime now e := by
  unfold OnTime at h ⊢
  rw [hadded]
  exact h

theorem Fresh.onTime {a : Addition} {e : Nat × Timer} (h : s.Fresh a e) : s.OnTime a.time e := by
  unfold OnTime
  rw [h.added, h.timer]

/-- Behind a stretch of time in which callbacks ran, every timer is in time. -/
theorem inv_addTimers {clock : Int} (holds : s.timerManager.Holds es)
    (onTime : ∀ e ∈ es, e.2.type ≠ .none → s.OnTime clock e) (neverEarly : s.NeverEarly)
    (hlegal : span.Legal clock) :
    ∃ s' es', s.addTimers span.adds = .ok s' ∧ { s' with clock := span.stop }.Inv es' := by
  obtain ⟨hclock, hspan, hadds⟩ := hlegal.bounds
  obtain ⟨s', new, hs', htm, hold, hnew, hfired, -⟩ := addTimers_spec holds span.adds
  refine ⟨s', es ++ new, hs', htm, fun e he htype => ?_, ?_⟩
  · rcases List.mem_append.1 he with he | he
    · exact ((onTime e he htype).later (hclock.trans hspan)).congr (hold e he)
    · obtain ⟨a, ha, hfresh⟩ := hnew e he
      exact (hfresh.onTime.later (hadds a ha).2).congr rfl
  · intro f hf
    exact neverEarly f (hfired ▸ hf)

/-- **The loop begins with every timer in time.** -/
theorem create_spec (hlegal : span.Legal span.start) :
    ∃ s es, create span = .ok s ∧ s.expiring = false ∧ s.Inv es := by
  obtain ⟨s', new, hs', -, -, -, -, hexpiring, -⟩ := addTimers_spec
    (s := ⟨TimerManager.create, false, span.start, fun _ => 0, []⟩) create_holds span.adds
  obtain ⟨t, es, ht, hinv⟩ := inv_addTimers
    (s := ⟨TimerManager.create, false, span.start, fun _ => 0, []⟩) create_holds
    (fun e he => absurd he List.not_mem_nil) (fun f hf => absurd hf List.not_mem_nil) hlegal
  obtain rfl := Run.ok_unique hs' ht
  refine ⟨_, es, ?_, ?_, hinv⟩
  · unfold create
    rw [hs']
    rfl
  · exact hexpiring

/-- **A dispatch that takes no more from a new timer than its age keeps every timer in time.** -/
theorem dispatch_spec (h : s.Inv es) (hlegal : span.Legal s.clock)
    (htakes : (Tick.dispatch span).TakesAge s) :
    ∃ s' es', s.dispatch span = .ok s' ∧ s'.Inv es' := by
  obtain ⟨hclock, hspan, hadds⟩ := hlegal.bounds
  unfold dispatch
  rcases calcTimeout_spec h.holds with ⟨rfl, hcalc⟩ | ⟨top, hmin, -, -, hcalc⟩
  · -- no timer, and no time is taken
    obtain ⟨s', es', hs', hinv⟩ := inv_addTimers h.holds h.onTime h.neverEarly hlegal
    exact ⟨_, es', by rw [hcalc, Run.ok_bind, hs']; rfl, hinv⟩
  · have hsize : s.timerManager.size ≠ 0 := by
      rw [h.holds.size]
      exact (Nat.zero_lt_of_lt hmin.lt_length).ne'
    obtain ⟨s', new, hs', htm, hold, hnew, hfired, -⟩ := addTimers_spec h.holds span.adds
    have hsize' : s'.timerManager.size ≠ 0 := by
      rw [htm.size, List.length_append, ← h.holds.size]
      omega
    obtain ⟨tm, hupdate, htm'⟩ := update_spec htm (elapsed span)
    refine ⟨{ s' with clock := span.stop, timerManager := tm, expiring := true }, _, ?_, htm', ?_,
      fun f hf => h.neverEarly f (hfired ▸ hf)⟩
    · simp only [hcalc, hs', Run.ok_bind, if_pos, serverManagerTimeEvent, if_neg hsize', hupdate]
      rfl
    · intro e he htype
      obtain ⟨d, hd, rfl⟩ := List.mem_map.1 he
      show s'.added d.1 + 1000 * d.2.timeOut ≤ span.stop + 1000 * (d.2.timeLeft - elapsed span)
      rcases List.mem_append.1 hd with hd | hd
      · have honTime : s.added d.1 + 1000 * d.2.timeOut ≤ s.clock + 1000 * d.2.timeLeft :=
          h.onTime d hd htype
        have hle := elapsed_le hspan
        rw [hold d hd]
        omega
      · obtain ⟨a, ha, hfresh⟩ := hnew d hd
        have htype' : a.timer.type ≠ .none := by
          have hsame : d.2.type = a.timer.type := by rw [hfresh.timer]
          exact hsame ▸ htype
        have hage := htakes hsize a ha htype'
        rw [hfresh.added, hfresh.timer]
        show a.time + 1000 * a.timer.timeOut ≤
          span.stop + 1000 * (a.timer.timeOut - elapsed span)
        omega

/-- **A timer that has expired is called back in time.** -/
theorem expireTop_inv (h : s.Inv es) (hlegal : span.Legal s.clock)
    (hok : s.expireTop span = .ok s') : ∃ es', s'.Inv es' := by
  obtain ⟨hclock, hspan, hadds⟩ := hlegal.bounds
  unfold expireTop at hok
  obtain ⟨top, htop, hok⟩ := Run.bind_eq_ok.1 hok
  split_ifs at hok with hleft
  · have hne : es ≠ [] := by
      rintro rfl
      rcases h.holds.top with ⟨-, hnone⟩ | ⟨e, hmin, -⟩
      · rw [getTop, hnone] at htop
        cases htop
      · exact absurd hmin.lt_length (Nat.not_lt_zero _)
    obtain ⟨e, tm, hmin, haddr, hpop, htm⟩ := pop_spec h.holds hne
    have he : e ∈ es := List.mem_of_getElem? hmin.getElem?
    obtain rfl : e.2 = top := by
      rw [getTop, haddr, deref_eq_ok (h.holds.live e he)] at htop
      exact Except.ok.inj htop
    have hothers : ∀ d ∈ es.eraseIdx s.timerManager.topIndex, d.2.type ≠ .none →
        s.OnTime s.clock d := fun d hd => h.onTime d (List.mem_of_mem_eraseIdx hd)
    simp only [hpop, haddr, Option.map_some, Option.getD_some, Run.ok_bind] at hok
    -- the callback is invoked in time
    have hfiring : e.2.type ≠ .none → { s with
        timerManager := tm
        fired := s.fired ++ [Firing.mk e.2 (s.added e.1) span.start] }.NeverEarly := by
      intro htype f hf
      rcases List.mem_append.1 hf with hf | hf
      · exact h.neverEarly f hf
      · obtain rfl := List.mem_singleton.1 hf
        have honTime : s.added e.1 + 1000 * e.2.timeOut ≤ s.clock + 1000 * e.2.timeLeft :=
          h.onTime e he htype
        show s.added e.1 + 1000 * e.2.timeOut ≤ span.start
        omega
    cases htype : e.2.type with
    | none =>
      simp only [htype] at hok
      obtain rfl := Except.ok.inj hok
      exact ⟨_, htm, hothers, h.neverEarly⟩
    | once =>
      simp only [htype, call] at hok
      obtain ⟨t, es', ht, hinv⟩ := inv_addTimers (s := { s with
        timerManager := tm
        fired := s.fired ++ [Firing.mk e.2 (s.added e.1) span.start] }) htm hothers
        (hfiring (by rw [htype]; decide)) hlegal
      rw [ht] at hok
      obtain rfl := Except.ok.inj hok
      exact ⟨es', hinv⟩
    | «repeat» =>
      simp only [htype, call] at hok
      obtain ⟨u, p, hu, hutm, hold, hp, hfired, -⟩ := serverManagerAddTimer_spec
        (s := { s with timerManager := tm }) htm ⟨span.start, e.2⟩
      rw [hu, Run.ok_bind] at hok
      -- the timer is in its place again, with its whole `time_out`
      have honTime : ∀ d ∈ es.eraseIdx s.timerManager.topIndex ++
          [(p, { e.2 with timeLeft := e.2.timeOut })], d.2.type ≠ .none → u.OnTime span.start d := by
        intro d hd hd'
        rcases List.mem_append.1 hd with hd | hd
        · exact ((hothers d hd hd').later hclock).congr (hold d hd)
        · obtain rfl := List.mem_singleton.1 hd
          show u.added p + 1000 * e.2.timeOut ≤ span.start + 1000 * e.2.timeOut
          rw [hp]
      obtain ⟨t, es', ht, hinv⟩ := inv_addTimers (s := { u with
        fired := u.fired ++ [Firing.mk e.2 (s.added e.1) span.start] }) hutm honTime
        (by rw [hfired]; exact hfiring (by rw [htype]; decide)) hlegal.self
      rw [ht] at hok
      obtain rfl := Except.ok.inj hok
      exact ⟨es', hinv⟩
  · obtain rfl := Except.ok.inj hok
    exact ⟨es, h.holds, h.onTime, h.neverEarly⟩

/-- **One tick of the loop**, whether it is left by a fault behind it or not. -/
theorem step_inv {tick : Tick} (h : ∃ es, s.Inv es) (hlegal : tick.Legal s)
    (htakes : tick.TakesAge s) (hok : s.step tick = .ok s') : ∃ es, s'.Inv es := by
  obtain ⟨es, h⟩ := h
  cases tick with
  | dispatch span =>
    obtain ⟨t, es', ht, hinv⟩ := dispatch_spec h hlegal.2 htakes
    obtain rfl := Run.ok_unique ht hok
    exact ⟨es', hinv⟩
  | expire span => exact expireTop_inv h hlegal.2 hok

/-- **No timer fires early where no dispatch takes more from a timer than its age.**  `span` is the
time before the loop; every state that the loop reaches is looked at, also where it faults
later. -/
theorem never_early (span : Span) (ticks : List Tick) (s : ServerManager)
    (hspan : span.Legal span.start) (hcreate : create span = .ok s)
    (hlegal : Run.Meets step (fun s tick => tick.Legal s) s ticks)
    (htakes : Run.Meets step (fun s tick => tick.TakesAge s) s ticks) :
    Run.Always step NeverEarly s ticks := by
  obtain ⟨t, es, ht, -, hinv⟩ := create_spec hspan
  obtain rfl := Run.ok_unique ht hcreate
  exact Run.always_of_meets (I := fun s => ∃ es, s.Inv es) (fun s ⟨es, h⟩ => h.neverEarly)
    (fun s tick s' h hC hok => step_inv h hC.1 hC.2 hok) ⟨es, hinv⟩ (hlegal.and htakes)

/-! ## A long and a short timer -/

/-- A timer of a second is there before the loop. -/
def longTimer : Span := ⟨0, [⟨0, ⟨1000, 0, .once, 1, 0⟩⟩], 0⟩

/-- A dispatch of a second, in which a timer of ten milliseconds is added at `time`, and a pass
through the loop that follows. -/
def shortTimer (time : Int) : List Tick :=
  [.dispatch ⟨0, [⟨time, ⟨10, 0, .once, 2, 0⟩⟩], 1000000⟩, .expire ⟨1000000, [], 1000000⟩]

theorem longTimer_legal : longTimer.Legal longTimer.start := ⟨by decide, by decide⟩

theorem exists_longTimer : ∃ s, create longTimer = .ok s ∧ s.expiring = false ∧ s.clock = 0 := by
  have hcreate : (create longTimer).map (fun s => (s.expiring, s.clock)) = .ok (false, 0) := by
    decide +kernel
  obtain ⟨s, hs, hval⟩ := Run.map_eq_ok.1 hcreate
  exact ⟨s, hs, (Prod.mk.inj hval).1, (Prod.mk.inj hval).2⟩

/-- The callback is run by the loop of `server_manager_time_event`. -/
theorem shortTimer_legal {time : Int} (htime : time = 0 ∨ time = 995000)
    (hcreate : create longTimer = .ok s) :
    Run.Meets step (fun s tick => tick.Legal s) s (shortTimer time) := by
  obtain ⟨t, ht, hexpiring, hclock⟩ := exists_longTimer
  obtain rfl := Run.ok_unique ht hcreate
  have hdispatch : (create longTimer >>= fun s => s.step (.dispatch ⟨0,
      [⟨time, ⟨10, 0, .once, 2, 0⟩⟩], 1000000⟩)).map (fun s => (s.expiring, s.clock)) =
      .ok (true, 1000000) := by
    rcases htime with rfl | rfl <;> decide +kernel
  simp only [ht, Run.ok_bind] at hdispatch
  refine ⟨⟨hexpiring, ?_⟩, fun u hu => ⟨?_, fun _ _ => trivial⟩⟩
  · rw [hclock]
    rcases htime with rfl | rfl <;> exact ⟨by decide, by decide⟩
  · rw [hu] at hdispatch
    obtain ⟨hexpiring', hclock'⟩ := Prod.mk.inj (Except.ok.inj hdispatch)
    exact ⟨hexpiring', by rw [hclock']; decide, by simp⟩

/-- A timer that is added at the beginning of the dispatch fires late. -/
theorem never_early_shortTimer :
    ∃ s, create longTimer = .ok s ∧ Run.Always step NeverEarly s (shortTimer 0) := by
  obtain ⟨s, hs, -⟩ := exists_longTimer
  refine ⟨s, hs, never_early longTimer (shortTimer 0) s longTimer_legal hs
    (shortTimer_legal (Or.inl rfl) hs) ⟨fun _ a ha _ => ?_, fun _ _ => ⟨trivial, fun _ _ => trivial⟩⟩⟩
  obtain rfl := List.mem_singleton.1 ha
  decide +kernel

/-- **A timer of ten milliseconds fires after five**: it is added at the end of a dispatch of a
second. -/
theorem not_never_early : ¬ ∀ (span : Span) (ticks : List Tick) (s : ServerManager),
    span.Legal span.start → create span = .ok s →
      Run.Meets step (fun s tick => tick.Legal s) s ticks → Run.Always step NeverEarly s ticks := by
  intro h
  obtain ⟨s, hs, -⟩ := exists_longTimer
  have hrun : (create longTimer >>= fun s => Run.run step s (shortTimer 995000)).map
      ServerManager.fired = .ok [⟨⟨10, -990, .once, 2, 0⟩, 995000, 1000000⟩] := by
    decide +kernel
  simp only [hs, Run.ok_bind] at hrun
  obtain ⟨s', hs', hfired⟩ := Run.map_eq_ok.1 hrun
  have hearly := h longTimer (shortTimer 995000) s longTimer_legal hs
    (shortTimer_legal (Or.inr rfl) hs) _ (List.prefix_refl _) s' hs'
  have hlate := hearly _ (hfired ▸ List.mem_singleton.2 rfl)
  exact absurd hlate (by decide)

end ServerManager

end MWebServer
