import MWebServer.Mevent.Sleep

/-!
# What the server manager is for

An `Agenda` is a list of timers, from which the earliest of those with the least time left is
taken when it has none.  The server manager keeps one, in two arrays and on the heap, with its
callbacks adding timers while it does so.

* `step_keeps` — a tick does to the manager what it does to the agenda, or fails with it.
* `agenda_refines` — and so does every run.
* `Agenda.Balanced` — what becomes of the timers that are added.
* `timers_accounted` — a timer that fires once is there until it has fired, and a repeating one
  is always there.
-/

namespace MWebServer

open StableQueue TimerManager

/-- An agenda, with what has happened to it. -/
structure Agenda where
  /-- The timers in the order in which they were pushed. -/
  timers : List Timer
  /-- Timers that have expired are being called back. -/
  expiring : Bool
  /-- The timers that were called back, and when. -/
  fired : List (Timer × Int)
  /-- The timers that were added. -/
  added : List Timer

namespace Agenda

/-- The timers that are added in a span. -/
def spanTimers (span : Span) : List Timer := span.adds.map fun a => a.timer

/-- What the callback of an expired timer leads to, if it has one. -/
def call (a : Agenda) (span : Span) (ti : Timer) : Agenda where
  timers := a.timers ++ (if ti.type = .repeat then [ti.armed] else []) ++
    (spanTimers span).map Timer.armed
  expiring := a.expiring
  fired := a.fired ++ [(ti, span.start)]
  added := a.added ++ spanTimers span

/-- One tick.  Without a timer there is nothing to expire, and the loop fails. -/
def step (a : Agenda) : Tick → Except Fault Agenda
  | .dispatch span =>
      let timers := a.timers ++ (spanTimers span).map Timer.armed
      let added := a.added ++ spanTimers span
      if a.timers = [] then .ok { a with timers := timers, added := added }
      else .ok { a with
        timers := timers.map (Timer.elapse (ServerManager.elapsed span))
        expiring := true
        added := added }
  | .expire span =>
      match popMin Timer.timeLeft a.timers with
      | none => .error .nullDeref
      | some (ti, rest) =>
          if 0 < ti.timeLeft then .ok { a with expiring := false }
          else if ti.type = .none then .ok { a with timers := rest }
          else .ok (call { a with timers := rest } span ti)

/-- The agenda before the loop. -/
def create (span : Span) : Agenda where
  timers := (spanTimers span).map Timer.armed
  expiring := false
  fired := []
  added := spanTimers span

end Agenda

namespace ServerManager

variable {s s' : ServerManager} {a : Agenda} {es : List (Nat × Timer)} {span : Span}

/-- What a manager shows of the agenda it keeps. -/
structure Shows (s : ServerManager) (a : Agenda) : Prop where
  timers : s.timerManager.timers = .ok a.timers
  expiring : s.expiring = a.expiring
  fired : s.fired.map (fun f => (f.timer, f.time)) = a.fired

/-- The manager keeps the agenda. -/
def Keeps (s : ServerManager) (a : Agenda) : Prop :=
  (∃ es, s.timerManager.Holds es ∧ a.timers = es.map Prod.snd) ∧ a.expiring = s.expiring ∧
    a.fired = s.fired.map fun f => (f.timer, f.time)

theorem Keeps.shows (h : s.Keeps a) : s.Shows a := by
  obtain ⟨⟨es, hes, htimers⟩, hexpiring, hfired⟩ := h
  exact ⟨by rw [htimers]; exact hes.timers, hexpiring.symm, hfired.symm⟩

/-- **A dispatch.** -/
theorem dispatch_keeps (h : s.Keeps a) (span : Span) :
    Run.Agree Keeps (s.dispatch span) (a.step (.dispatch span)) := by
  obtain ⟨⟨es, hes, htimers⟩, hexpiring, hfired⟩ := h
  have harmed : (Agenda.spanTimers span).map Timer.armed =
      span.adds.map fun a => a.timer.armed := List.map_map
  simp only [Agenda.step, htimers, List.map_eq_nil_iff, harmed]
  by_cases hnil : es = []
  · subst hnil
    obtain ⟨t, new, ht, htm, hnew, hexpiring', hfired'⟩ := dispatch_empty hes span
    rw [ht, if_pos rfl]
    exact .ok ⟨⟨new, htm, hnew.symm⟩, hexpiring.trans hexpiring'.symm, by rw [hfired']; exact hfired⟩
  · obtain ⟨t, es', ht, htm, hmap, hexpiring', hfired'⟩ := dispatch_expiring hes hnil span
    rw [ht, if_neg hnil]
    exact .ok ⟨⟨es', htm, hmap.symm⟩, hexpiring'.symm, by rw [hfired']; exact hfired⟩

/-- The callback of the popped timer `ti`, which is in its place again if it repeats. -/
theorem call_keeps {u : ServerManager} {e : Timer} (h : s.Keeps a) (span : Span) (added : Int)
    (hagain : ∃ armed, u.timerManager.Holds armed ∧ armed.map Prod.snd =
      a.timers ++ if e.type = .repeat then [e.armed] else [])
    (hexpiring : u.expiring = s.expiring) (hfired : u.fired = s.fired) :
    ∃ t, u.call span e added = .ok t ∧ t.Keeps (a.call span e) := by
  obtain ⟨-, hexpiring₀, hfired₀⟩ := h
  obtain ⟨armed, harmed, hmap⟩ := hagain
  obtain ⟨t, new, ht, htm, hnew, hexpiring', hfired'⟩ := addTimers_armed (s := { u with
    fired := u.fired ++ [Firing.mk e added span.start] }) harmed span.adds
  refine ⟨{ t with clock := span.stop }, by rw [call, ht]; rfl, ⟨armed ++ new, htm, ?_⟩, ?_, ?_⟩
  · rw [List.map_append, hmap, hnew, Agenda.call, Agenda.spanTimers, List.map_map]
    rfl
  · exact hexpiring₀.trans (hexpiring'.trans hexpiring).symm
  · show a.fired ++ _ = t.fired.map _
    rw [hfired', List.map_append, hfired₀, hfired]
    rfl

/-- **A pass through the loop of `server_manager_time_event`.** -/
theorem expireTop_keeps (h : s.Keeps a) (span : Span) :
    Run.Agree Keeps (s.expireTop span) (a.step (.expire span)) := by
  obtain ⟨⟨es, hes, htimers⟩, hexpiring, hfired⟩ := h
  by_cases hnil : es = []
  · subst hnil
    rw [expireTop_nil hes, Agenda.step, htimers]
    exact .error _
  · obtain ⟨e, tm, hmin, haddr, hpop, htm⟩ := pop_spec hes hnil
    have he : e ∈ es := List.mem_of_getElem? hmin.getElem?
    have htop : s.timerManager.getTop = .ok e.2 := by
      rw [getTop, haddr, deref_eq_ok (hes.live e he)]
    have hrest : (es.map Prod.snd).eraseIdx s.timerManager.topIndex =
        (es.eraseIdx s.timerManager.topIndex).map Prod.snd := List.eraseIdx_map ..
    simp only [Agenda.step, htimers, popMin_eq (firstMin_timers hmin), hrest]
    rw [expireTop, htop, Run.ok_bind]
    by_cases hleft : 0 < e.2.timeLeft
    · rw [if_neg (not_le.2 hleft), if_pos hleft]
      exact .ok ⟨⟨es, hes, rfl⟩, rfl, hfired⟩
    · rw [if_pos (not_lt.1 hleft), if_neg hleft, hpop, Run.ok_bind]
      simp only
      have hpopped : { s with timerManager := tm }.Keeps
          { a with timers := (es.eraseIdx s.timerManager.topIndex).map Prod.snd } :=
        ⟨⟨_, htm, rfl⟩, hexpiring, hfired⟩
      cases htype : e.2.type with
      | none => exact .ok hpopped
      | once =>
        obtain ⟨t, ht, hkeeps⟩ := call_keeps (u := { s with timerManager := tm }) (e := e.2) hpopped
          span ((s.timerManager.top.map s.added).getD 0) ⟨_, htm, by simp [htype]⟩ rfl rfl
        simp only [ht]
        exact .ok hkeeps
      | «repeat» =>
        obtain ⟨u, p, hu, hutm, -, -, hfired', hexpiring', -⟩ := serverManagerAddTimer_spec
          (s := { s with timerManager := tm }) htm ⟨span.start, e.2⟩
        obtain ⟨t, ht, hkeeps⟩ := call_keeps (u := u) (e := e.2) hpopped span
          ((s.timerManager.top.map s.added).getD 0) ⟨_, hutm, by simp [htype, Timer.armed]⟩
          hexpiring' hfired'
        simp only [hu, Run.ok_bind, ht]
        exact .ok hkeeps

/-- **Every tick does to the manager what it does to the agenda.** -/
theorem step_keeps (h : s.Keeps a) (tick : Tick) :
    Run.Agree Keeps (s.step tick) (a.step tick) := by
  cases tick with
  | dispatch span => exact dispatch_keeps h span
  | expire span => exact expireTop_keeps h span

theorem create_keeps (span : Span) : ∃ s, create span = .ok s ∧ s.Keeps (Agenda.create span) := by
  obtain ⟨t, new, ht, htm, hnew, hexpiring, hfired⟩ := addTimers_armed
    (s := ⟨TimerManager.create, false, span.start, fun _ => 0, []⟩) create_holds span.adds
  refine ⟨{ t with clock := span.stop }, by rw [create, ht]; rfl, ⟨new, htm, ?_⟩, hexpiring.symm, ?_⟩
  · rw [hnew, Agenda.create, Agenda.spanTimers, List.map_map]
    rfl
  · show _ = t.fired.map _
    rw [hfired]
    rfl

/-- **The loop of the server manager keeps an agenda.**  In every run, whatever the callbacks add
and when, it has the timers of the agenda and has called back what the agenda says; it reads a null
`top` exactly when an agenda without timers is to expire. -/
theorem agenda_refines (span : Span) : ∃ s, create span = .ok s ∧ ∀ ticks,
    Run.Agree Shows (Run.run step s ticks) (Run.run Agenda.step (Agenda.create span) ticks) := by
  obtain ⟨s, hs, hkeeps⟩ := create_keeps span
  exact ⟨s, hs, fun ticks =>
    (Run.run_agree (fun _ _ tick h => step_keeps h tick) hkeeps ticks).imp fun _ _ h => h.shows⟩

end ServerManager

/-! ## What becomes of the timers -/

/-- The timers of one kind, as they were when they were added. -/
def account (kind : TimerOptions) (ts : List Timer) : List Timer :=
  (ts.filter fun ti => ti.type = kind).map Timer.armed

section Account

variable {kind : TimerOptions} {ts us : List Timer}

@[simp] theorem account_append : account kind (ts ++ us) = account kind ts ++ account kind us := by
  unfold account
  rw [List.filter_append, List.map_append]

theorem account_cons (ti : Timer) :
    account kind (ti :: ts) = (if ti.type = kind then [ti.armed] else []) ++ account kind ts := by
  unfold account
  by_cases h : ti.type = kind <;> simp [h]

/-- Neither time nor another push changes what was added. -/
theorem account_map {f : Timer → Timer} (htype : ∀ ti, (f ti).type = ti.type)
    (harmed : ∀ ti, (f ti).armed = ti.armed) : account kind (ts.map f) = account kind ts := by
  unfold account
  rw [List.filter_map, List.map_map]
  simp only [Function.comp_def, htype, harmed]

@[simp] theorem account_armed : account kind (ts.map Timer.armed) = account kind ts :=
  account_map (fun _ => rfl) fun _ => rfl

@[simp] theorem account_elapse (d : Int) : account kind (ts.map (Timer.elapse d)) = account kind ts :=
  account_map (fun _ => rfl) fun _ => rfl

@[simp] theorem account_nil : account kind [] = [] := rfl

theorem account_perm (kind : TimerOptions) (h : ts.Perm us) :
    (account kind ts).Perm (account kind us) :=
  (h.filter _).map _

end Account

namespace Agenda

/-- **The balance of an agenda.**  Of the timers that were added, those that fire once wait or have
fired, each once, and those that repeat wait, each in one place. -/
structure Balanced (a : Agenda) : Prop where
  once : (account .once a.timers ++ account .once (a.fired.map Prod.fst)).Perm (account .once a.added)
  repeats : (account .repeat a.timers).Perm (account .repeat a.added)

variable {a a' : Agenda} {tick : Tick}

theorem balanced_create (span : Span) : (create span).Balanced :=
  ⟨by simp [create], by simp [create]⟩

/-- Timers are added, and time passes. -/
theorem Balanced.add (h : a.Balanced) (span : Span) (expiring : Bool) {ts : List Timer}
    (hts : ∀ kind, account kind ts = account kind a.timers ++ account kind (spanTimers span)) :
    (Agenda.mk ts expiring a.fired (a.added ++ spanTimers span)).Balanced where
  once := by
    rw [List.perm_iff_count]
    intro t
    have hcount := h.once.count_eq t
    simp only [hts, account_append, List.count_append] at hcount ⊢
    omega
  repeats := by
    simp only [hts, account_append]
    exact h.repeats.append_right _

/-- The timer `ti` is called back, and pushed again if it repeats. -/
theorem Balanced.call {ti : Timer} {rest : List Timer} (h : a.Balanced)
    (hrest : a.timers.Perm (ti :: rest)) (htype : ti.type ≠ .none) (span : Span) :
    (Agenda.call { a with timers := rest } span ti).Balanced := by
  have hkind : ti.type = .once ∨ ti.type = .repeat := by
    cases hti : ti.type
    · exact absurd hti htype
    · exact Or.inl rfl
    · exact Or.inr rfl
  have harmed : ti.armed.armed = ti.armed := rfl
  have hsame : ti.armed.type = ti.type := rfl
  constructor
  all_goals
    rw [List.perm_iff_count]
    intro t
    have honce := h.once.count_eq t
    have hrepeats := h.repeats.count_eq t
    have hcount := fun kind => (account_perm kind hrest).count_eq t
    simp only [account_cons, List.count_append] at honce hrepeats hcount
    have honce' := hcount .once
    have hrepeats' := hcount .repeat
    rcases hkind with hti | hti <;>
      simp [Agenda.call, account_cons, List.count_cons, hti, hsame, harmed] at honce' hrepeats' ⊢ <;>
        omega

/-- **Every tick keeps the balance.** -/
theorem balanced_step (h : a.Balanced) (hok : a.step tick = .ok a') : a'.Balanced := by
  cases tick with
  | dispatch span =>
    simp only [step] at hok
    split_ifs at hok
    · rw [← Except.ok.inj hok]
      exact h.add span a.expiring fun kind => by simp
    · rw [← Except.ok.inj hok]
      exact h.add span true fun kind => by rw [account_elapse, account_append, account_armed]
  | expire span =>
    simp only [step] at hok
    split at hok
    · cases hok
    · next ti rest hpop =>
      have hrest := perm_of_popMin hpop
      split_ifs at hok with hleft htype
      · rw [← Except.ok.inj hok]
        exact ⟨h.once, h.repeats⟩
      · -- a timer without a callback is dropped
        rw [← Except.ok.inj hok]
        have hdrop : ∀ kind, kind ≠ .none → (account kind a.timers).Perm (account kind rest) := by
          intro kind hkind
          have hperm := account_perm kind hrest
          rwa [account_cons, if_neg (htype ▸ hkind.symm), List.nil_append] at hperm
        exact ⟨((hdrop .once (by decide)).symm.append_right _).trans h.once,
          (hdrop .repeat (by decide)).symm.trans h.repeats⟩
      · rw [← Except.ok.inj hok]
        exact h.call hrest htype span

end Agenda

namespace ServerManager

/-- **No timer is lost, and none fires twice.**  Of the timers `added`, those that fire once are in
the manager or have been called back, each once; those that repeat are in the manager, each in one
place. -/
def Accounted (s : ServerManager) (added : List Timer) : Prop :=
  ∃ ts, s.timerManager.timers = .ok ts ∧
    (account .once ts ++ account .once (s.fired.map Firing.timer)).Perm (account .once added) ∧
    (account .repeat ts).Perm (account .repeat added)

/-- **Every timer is accounted for** in every run, whatever the callbacks add and when. -/
theorem timers_accounted (span : Span) : ∃ s, create span = .ok s ∧ ∀ ticks,
    Run.Agree (fun s' a => s'.Accounted a.added) (Run.run step s ticks)
      (Run.run Agenda.step (Agenda.create span) ticks) := by
  obtain ⟨s, hs, hkeeps⟩ := create_keeps span
  refine ⟨s, hs, fun ticks => ?_⟩
  have hagree : Run.Agree (fun s a => s.Keeps a ∧ a.Balanced) (Run.run step s ticks)
      (Run.run Agenda.step (Agenda.create span) ticks) := by
    refine Run.run_agree ?_ ⟨hkeeps, Agenda.balanced_create span⟩ ticks
    rintro s a tick ⟨h, hbalanced⟩
    exact (step_keeps h tick).and fun t hok => Agenda.balanced_step hbalanced hok
  refine hagree.imp fun s' a h => ?_
  have hshows := h.1.shows
  refine ⟨a.timers, hshows.timers, ?_, h.2.repeats⟩
  have hfired : s'.fired.map Firing.timer = a.fired.map Prod.fst := by
    rw [← hshows.fired, List.map_map]
    rfl
  rw [hfired]
  exact h.2.once

end ServerManager

end MWebServer
