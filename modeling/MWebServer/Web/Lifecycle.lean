import MWebServer.Lib.Run
import MWebServer.Web.Response

/-!
# The life of a connection

A run is any sequence of turns of the event loop, each with the bits that are ready,
what a read delivers and what the kernel answers.  `connection_free` sits at the end
of three paths (`event_writable_callback`, `connection_disconnect` from the readable
side, and from `http_request`), and on every one of them a caller goes on with the
pointer it holds.

* `eventReadableCallback_cases` — the readable side answers what it has read, or closes.
* `turn_freed` — a turn that frees the connection touches what it has freed.
* `turn_kept` — any other turn leaves the connection steady.
* `sound_iff_never_frees` — so a run keeps to the rules exactly as long as it frees
  nothing.
-/

namespace MWebServer

namespace Session

variable {env : Env} {s s' : WebSession}

/-- `connection_free` has run at most once, and nothing freed was read or written. -/
def Sound (s : WebSession) : Prop := s.frees ≤ 1 ∧ s.touchedDead = false

/-- The state of a connection between two turns, before it is freed.  Its event may be gone:
`event_error_handler` frees that alone. -/
structure Steady (s : WebSession) : Prop where
  conn : s.connLive = true
  handler : s.handlerLive = true
  untouched : s.touchedDead = false
  frees : s.frees = 0
  write : s.conn.ringBufferWrite.Inv

theorem Steady.alive (h : s.Steady) (hev : s.evLive = true) : s.Alive :=
  ⟨h.conn, hev, h.handler, h.untouched⟩

theorem Steady.sound (h : s.Steady) : s.Sound := ⟨by rw [h.frees]; exact Nat.zero_le 1, h.untouched⟩

theorem Steady.of_life (h : s.Steady) (hlife : s'.life = s.life)
    (htouched : s'.touchedDead = s.touchedDead) (hwrite : s'.conn.ringBufferWrite.Inv) :
    s'.Steady := by
  simp only [life, Prod.mk.injEq] at hlife
  obtain ⟨hconn, -, hhandler, hfrees, -⟩ := hlife
  exact ⟨hconn.trans h.conn, hhandler.trans h.handler, htouched.trans h.untouched,
    hfrees.trans h.frees, hwrite⟩

theorem steady_start (connfd now : Int) : (start connfd now : WebSession).Steady :=
  ⟨rfl, rfl, rfl, rfl, RingBuffer.new_inv⟩

/-! ## The readable side -/

/-- The readable callback reads, and then answers what it has read, or closes. -/
theorem eventReadableCallback_cases {incoming : Option (List Byte)} (ha : s.Alive)
    (hok : s.eventReadableCallback env (onMessage env) incoming = .ok s') :
    ∃ n rb, s.readBuffer env.fresh incoming = .ok (n, s.setRead rb) ∧ (s.setRead rb).Alive ∧
      ((n > 0 ∧ (s.setRead rb).httpRequest env = .ok s') ∨
        (¬ n > 0 ∧ s' = (s.setRead rb).connectionDisconnect)) := by
  unfold eventReadableCallback at hok
  obtain ⟨⟨n, s₁⟩, hread, hok⟩ := Run.bind_eq_ok.1 hok
  obtain ⟨⟨rb, rfl⟩, -⟩ := readBuffer_frame ha hread
  have ha₁ : (s.setRead rb).Alive := ha.of_life rfl rfl
  refine ⟨n, rb, hread, ha₁, ?_⟩
  simp only at hok
  split_ifs at hok with hdata
  · unfold onMessage at hok
    simp only [ha₁.touchConn] at hok
    exact Or.inl ⟨hdata, hok⟩
  · exact Or.inr ⟨hdata, (Except.ok.inj hok).symm⟩

/-- The readable callback frees the connection: the peer has closed, or the read fails, and
nothing waits; or the message that was read is a request that closes at once. -/
def FreesOnRead (env : Env) (incoming : Option (List Byte)) (s : WebSession) : Prop :=
  ∃ n s₁, s.readBuffer env.fresh incoming = .ok (n, s₁) ∧
    if n > 0 then s₁.ClosesAtOnce env else s₁.pending = []

/-- **The readable callback frees under `FreesOnRead`**, and then goes on with the connection. -/
theorem eventReadableCallback_freed {incoming : Option (List Byte)}
    (hw : s.conn.ringBufferWrite.Inv) (ha : s.Alive) (h : s.FreesOnRead env incoming) :
    ∃ s', s.eventReadableCallback env (onMessage env) incoming = .ok s' ∧ s'.touchedDead = true ∧
      s'.pending = [] ∧ s'.conn.ringBufferWrite.Inv ∧ s.Freed s' := by
  obtain ⟨n, s₁, hread, hfrees⟩ := h
  obtain ⟨⟨rb, rfl⟩, -⟩ := readBuffer_frame ha hread
  have ha₁ : (s.setRead rb).Alive := ha.of_life rfl rfl
  have hw₁ : (s.setRead rb).conn.ringBufferWrite.Inv := hw
  unfold eventReadableCallback
  simp only [hread, Run.ok_bind]
  split_ifs at hfrees ⊢
  · unfold onMessage
    simp only [ha₁.touchConn]
    obtain ⟨t, ht⟩ := httpRequest_of_closesAtOnce hw₁ ha₁ hfrees
    obtain ⟨-, -, hwrite, hout⟩ := httpRequest_outcome hw₁ ha₁ ht
    cases hout with
    | freed closes touched empty freed => exact ⟨t, ht, touched, empty, hwrite, freed⟩
    | closing not_closes => exact absurd hfrees not_closes
    | kept not_closes => exact absurd hfrees not_closes
  · obtain ⟨hidle, hcases⟩ := connectionDisconnect_spec hw₁ ha₁
    rcases hcases with ⟨hp, htouched, hfreed⟩ | ⟨hp, -⟩
    · refine ⟨_, rfl, htouched, hidle.pending.trans hp, ?_, hfreed⟩
      rw [hidle.write]
      exact hw
    · exact absurd hfrees hp

/-- **In any other case the readable callback leaves the three objects alone.** -/
theorem eventReadableCallback_kept {incoming : Option (List Byte)}
    (hw : s.conn.ringBufferWrite.Inv) (ha : s.Alive) (h : ¬ s.FreesOnRead env incoming)
    (hok : s.eventReadableCallback env (onMessage env) incoming = .ok s') :
    s'.life = s.life ∧ s'.touchedDead = s.touchedDead ∧ s'.conn.ringBufferWrite.Inv := by
  obtain ⟨n, rb, hread, ha₁, hsides⟩ := eventReadableCallback_cases ha hok
  have hw₁ : (s.setRead rb).conn.ringBufferWrite.Inv := hw
  have hnot : ¬ if n > 0 then (s.setRead rb).ClosesAtOnce env else (s.setRead rb).pending = [] :=
    fun hfrees => h ⟨n, _, hread, hfrees⟩
  rcases hsides with ⟨hdata, hok⟩ | ⟨hnone, rfl⟩
  · rw [if_pos hdata] at hnot
    obtain ⟨-, -, hwrite, hcases⟩ := httpRequest_spec hw₁ ha₁ hok
    rcases hcases with ⟨hcloses, -⟩ | ⟨-, hlife, htouched⟩
    · exact absurd hcloses hnot
    · exact ⟨hlife, htouched, hwrite⟩
  · rw [if_neg hnone] at hnot
    obtain ⟨hidle, hcases⟩ := connectionDisconnect_spec hw₁ ha₁
    rcases hcases with ⟨hp, -⟩ | ⟨-, hlife, htouched, -⟩
    · exact absurd hp hnot
    · refine ⟨hlife, htouched, ?_⟩
      rw [hidle.write]
      exact hw

/-! ## The writable side -/

/-- The writable callback frees the connection: it is closing, and `send` takes the last
bytes that wait. -/
def FreesOnWrite (env : Env) (s : WebSession) : Prop :=
  s.ev.activeEvent.epollOut = true ∧ s.conn.state = .closing ∧ s.pending ≠ [] ∧ s.SendsAll env

/-- **The end of `event_handler` frees exactly under `FreesOnWrite`.** -/
theorem eventHandlerOut_spec (hw : s.conn.ringBufferWrite.Inv) (ha : s.Alive) :
    ∃ s', s.eventHandlerOut env = .ok s' ∧
      ((s.FreesOnWrite env ∧ s'.touchedDead = true ∧ s.Freed s') ∨
        (¬ s.FreesOnWrite env ∧ s'.life = s.life ∧ s'.touchedDead = s.touchedDead ∧
          s'.conn.ringBufferWrite.Inv)) := by
  unfold eventHandlerOut
  simp only [ha.touchEv]
  cases hout : s.ev.activeEvent.epollOut with
  | false =>
    have hnot : ¬ s.FreesOnWrite env := fun h => Bool.noConfusion (hout.symm.trans h.1)
    exact ⟨s, rfl, Or.inr ⟨hnot, rfl, rfl, hw⟩⟩
  | true =>
    obtain ⟨s', hs', hwritten⟩ := eventWritableCallback_spec env hw ha
    refine ⟨s', hs', ?_⟩
    have hkept : ∀ t, s.Sent t → t.conn.ringBufferWrite.Inv := by
      intro t hsent
      obtain ⟨rb, hinv, hconn⟩ := hsent.conn
      rw [hconn]
      exact hinv
    cases hwritten with
    | freed closing waits all touched freed gone =>
      exact Or.inl ⟨⟨hout, closing, waits, all⟩, touched, freed⟩
    | drained stays waits all sent empty ev =>
      exact Or.inr ⟨fun h => stays h.2.1, sent.life, sent.touched, hkept s' sent⟩
    | kept more sent waits ev =>
      exact Or.inr ⟨fun h => more h.2.2, sent.life, sent.touched, hkept s' sent⟩

/-- Behind a readable callback that has freed the connection nothing is left to send. -/
theorem eventHandlerOut_freed (env : Env) (hw : s.conn.ringBufferWrite.Inv) (hp : s.pending = [])
    (htouched : s.touchedDead = true) :
    ∃ s', s.eventHandlerOut env = .ok s' ∧ s'.touchedDead = true ∧ s'.life = s.life := by
  have hev : s.touchEv.touchedDead = true := by simp [touchEv, htouched]
  unfold eventHandlerOut
  simp only
  split_ifs
  · have hmsg := getMsg_empty hw hp
    unfold eventWritableCallback
    simp only
    rw [show s.touchEv.touchConn.conn.ringBufferWrite.getMsg = _ from hmsg]
    exact ⟨_, rfl, by simp [touchConn, hev], rfl⟩
  · exact ⟨_, rfl, hev, rfl⟩

/-! ## One turn -/

/-- Hang-up or an error is reported. -/
abbrev HungUp (s : WebSession) : Prop :=
  (s.ev.activeEvent.epollHup || s.ev.activeEvent.epollErr) = true

/-- `event_handler` takes the readable side. -/
abbrev Readable (s : WebSession) : Prop :=
  (s.ev.activeEvent.epollIn || s.ev.activeEvent.epollPri) = true

/-- `event_handler` frees the connection: without hang-up or error, on its readable side, or on
its writable side, which comes behind the readable one where both are taken. -/
def HandlerFrees (env : Env) (incoming : Option (List Byte)) (s : WebSession) : Prop :=
  ¬ s.HungUp ∧
    ((s.Readable ∧ (s.FreesOnRead env incoming ∨
        ∃ s₁, s.eventReadableCallback env (onMessage env) incoming = .ok s₁ ∧ s₁.FreesOnWrite env)) ∨
      (¬ s.Readable ∧ s.FreesOnWrite env))

theorem eventHandler_freed {incoming : Option (List Byte)} (hw : s.conn.ringBufferWrite.Inv)
    (ha : s.Alive) (h : s.HandlerFrees env incoming) :
    ∃ s', s.eventHandler env (onMessage env) incoming = .ok s' ∧ s'.touchedDead = true ∧
      s.Freed s' := by
  obtain ⟨hup, hsides⟩ := h
  unfold eventHandler
  simp only [ha.touchEv]
  rw [if_neg hup]
  -- the writable side, on whatever live session it is reached
  have hout : ∀ t : WebSession, t.conn.ringBufferWrite.Inv → t.Alive → t.FreesOnWrite env →
      ∃ s', t.eventHandlerOut env = .ok s' ∧ s'.touchedDead = true ∧ t.Freed s' := by
    intro t hwt hat hfrees
    obtain ⟨s', hs', hcases⟩ := eventHandlerOut_spec hwt hat
    rcases hcases with ⟨-, htouched, hfreed⟩ | ⟨hnot, -⟩
    · exact ⟨s', hs', htouched, hfreed⟩
    · exact absurd hfrees hnot
  rcases hsides with ⟨hr, hread⟩ | ⟨hr, hwrite⟩
  · rw [if_pos hr]
    by_cases hfrees : s.FreesOnRead env incoming
    · obtain ⟨t, ht, htouched, hp, hwt, hfreed⟩ := eventReadableCallback_freed hw ha hfrees
      obtain ⟨s', hs', htouched', hlife⟩ := eventHandlerOut_freed env hwt hp htouched
      rw [ht, Run.ok_bind]
      exact ⟨s', hs', htouched', hlife.trans hfreed⟩
    · obtain hread | ⟨t, ht, hwrite⟩ := hread
      · exact absurd hread hfrees
      · obtain ⟨hlife, htouched, hwt⟩ := eventReadableCallback_kept hw ha hfrees ht
        obtain ⟨s', hs', htouched', hfreed⟩ := hout t hwt (ha.of_life hlife htouched) hwrite
        rw [ht, Run.ok_bind]
        exact ⟨s', hs', htouched', hfreed.of_life hlife⟩
  · rw [if_neg hr]
    exact hout s hw ha hwrite

theorem eventHandler_kept {incoming : Option (List Byte)} (h : s.Steady) (hev : s.evLive = true)
    (hkeep : ¬ s.HandlerFrees env incoming)
    (hok : s.eventHandler env (onMessage env) incoming = .ok s') : s'.Steady := by
  have ha := h.alive hev
  unfold eventHandler at hok
  simp only [ha.touchEv] at hok
  -- the writable side, on whatever steady session it is reached
  have hout : ∀ t : WebSession, t.Steady → t.Alive → ¬ t.FreesOnWrite env →
      t.eventHandlerOut env = .ok s' → s'.Steady := by
    intro t ht hat hnot hok
    obtain ⟨u, hu, hcases⟩ := eventHandlerOut_spec ht.write hat
    obtain rfl := Run.ok_unique hok hu
    rcases hcases with ⟨hfrees, -⟩ | ⟨-, hlife, htouched, hwrite⟩
    · exact absurd hfrees hnot
    · exact ht.of_life hlife htouched hwrite
  by_cases hup : s.HungUp
  · -- the event is freed, and the connection is left behind
    rw [if_pos hup] at hok
    obtain rfl := Except.ok.inj hok
    unfold eventFree
    simp only [ha.touchEv]
    exact ⟨h.conn, h.handler, h.untouched, h.frees, h.write⟩
  · rw [if_neg hup] at hok
    by_cases hr : s.Readable
    · rw [if_pos hr] at hok
      obtain ⟨t, ht, hok⟩ := Run.bind_eq_ok.1 hok
      have hnot : ¬ s.FreesOnRead env incoming :=
        fun hfrees => hkeep ⟨hup, Or.inl ⟨hr, Or.inl hfrees⟩⟩
      obtain ⟨hlife, htouched, hwt⟩ := eventReadableCallback_kept h.write ha hnot ht
      exact hout t (h.of_life hlife htouched hwt) (ha.of_life hlife htouched)
        (fun hwrite => hkeep ⟨hup, Or.inl ⟨hr, Or.inr ⟨t, ht, hwrite⟩⟩⟩) hok
    · rw [if_neg hr] at hok
      exact hout s h ha (fun hwrite => hkeep ⟨hup, Or.inr ⟨hr, hwrite⟩⟩) hok

/-- The event with the bits that are reported. -/
def activate (ready : Ready) (s : WebSession) : WebSession :=
  { s with ev := { s.ev with activeEvent := s.ev.eventFlag.reported ready.mask } }

/-- **The turns that free the connection**: `event_handler` is called on a live event, with the
bits that are reported now, and frees it. -/
def TurnFrees (s : WebSession) (t : Turn) : Prop :=
  s.evLive = true ∧ (s.activate t.ready).HandlerFrees t.env t.ready.incoming

/-- A turn on a live event is a call of `event_handler`, if anything is reported. -/
theorem turn_eq {t : Turn} (hev : s.evLive = true) :
    s.turn t = if s.ev.eventFlag.reported t.ready.mask ≠ ⟨false, false, false, false, false⟩ then
      eventHandler t.env (onMessage t.env) t.ready.incoming (s.activate t.ready) else .ok s := by
  by_cases hmask : s.ev.eventFlag.reported t.ready.mask ≠ ⟨false, false, false, false, false⟩
  · rw [if_pos hmask]
    exact if_pos ⟨hev, hmask⟩
  · rw [if_neg hmask]
    exact if_neg fun h => hmask h.2

/-- What is reported is handled. -/
theorem epollerDispatch_active {cb : WebSession → Except Fault WebSession} {ready : Ready}
    (hev : s.evLive = true)
    (h : (s.activate ready).HungUp ∨ (s.activate ready).Readable ∨
      (s.activate ready).ev.activeEvent.epollOut = true) :
    s.epollerDispatch env cb ready = eventHandler env cb ready.incoming (s.activate ready) := by
  have hmask : s.ev.eventFlag.reported ready.mask ≠ ⟨false, false, false, false, false⟩ := by
    intro hmask
    have hactive : (s.activate ready).ev.activeEvent = ⟨false, false, false, false, false⟩ := hmask
    unfold HungUp Readable at h
    rw [hactive] at h
    exact absurd h (by decide)
  exact if_pos ⟨hev, hmask⟩

theorem Steady.activate (h : s.Steady) (ready : Ready) : (s.activate ready).Steady :=
  h.of_life rfl rfl h.write

/-- **A turn that frees the connection goes on with it.** -/
theorem turn_freed {t : Turn} (h : s.Steady) (hfrees : s.TurnFrees t) :
    ∃ s', s.turn t = .ok s' ∧ ¬ s'.Sound ∧ s.Freed s' := by
  obtain ⟨hev, hfrees⟩ := hfrees
  have hactive : (s.activate t.ready).Readable ∨ (s.activate t.ready).ev.activeEvent.epollOut = true := by
    obtain ⟨-, ⟨hr, -⟩ | ⟨-, hout, -⟩⟩ := hfrees
    · exact Or.inl hr
    · exact Or.inr hout
  have h' := h.activate t.ready
  obtain ⟨s', hs', htouched, hfreed⟩ := eventHandler_freed h'.write (h'.alive hev) hfrees
  refine ⟨s', ?_, fun hsound => Bool.noConfusion (hsound.2.symm.trans htouched), hfreed⟩
  exact (epollerDispatch_active hev (Or.inr hactive)).trans hs'

/-- **Any other turn leaves the connection steady.** -/
theorem turn_kept {t : Turn} (h : s.Steady) (hkeep : ¬ s.TurnFrees t) (hok : s.turn t = .ok s') :
    s'.Steady := by
  by_cases hev : s.evLive = true
  · rw [turn_eq hev] at hok
    split_ifs at hok
    · exact eventHandler_kept (h.activate t.ready) hev (fun hfrees => hkeep ⟨hev, hfrees⟩) hok
    · obtain rfl := Except.ok.inj hok
      exact h
  · have hturn : s.turn t = .ok s := if_neg fun h => hev h.1
    obtain rfl := Run.ok_unique hok hturn
    exact h

/-! ## Runs -/

/-- **A run keeps to the rules exactly as long as it frees nothing**: in every state it reaches
`connection_free` has run at most once and no freed object was touched, if and only if none of
its turns frees the connection. -/
theorem sound_iff_never_frees (connfd now : Int) (turns : List Turn) :
    Run.Always turn Sound (start connfd now) turns ↔
      Run.Meets turn (fun s t => ¬ s.TurnFrees t) (start connfd now) turns :=
  Run.always_iff_meets (fun _ h => h.sound) (fun _ _ _ h hkeep hok => turn_kept h hkeep hok)
    (fun _ _ h hfrees => by
      obtain ⟨s', hs', hunsound, -⟩ := turn_freed h (not_not.1 hfrees)
      exact ⟨s', hs', hunsound⟩) (steady_start connfd now) turns

/-- A peer that connects and closes without a word: the read delivers nothing, nothing waits,
and the connection is written to once it is freed. -/
theorem not_always_sound : ¬ ∀ (connfd now : Int) (turns : List Turn),
    Run.Always turn Sound (start connfd now) turns := by
  intro h
  let t : Turn := ⟨Env.oneFile, ⟨⟨true, false, false, false, false⟩, some []⟩⟩
  have hsound := h 5 0 [t] [t] (List.prefix_refl _) _ rfl
  exact Bool.noConfusion hsound.2

end Session

end MWebServer
