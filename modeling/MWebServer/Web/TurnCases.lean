import MWebServer.Web.Lifecycle

/-!
# What a turn makes of a connection

A turn of the event loop takes a connection through its readable side, its writable
side, or both.  Unless a side frees the connection, what it leaves is one of a few
things (`ReadSide`, `WriteSide`), told apart by the state, what waits in the write
buffer and whether the event waits for the socket.

* `eventReadableCallback_side`, `eventHandlerOut_side` — the two sides.
* `turn_keeps` — what both keep, a turn keeps of a connection it does not free.
-/

namespace MWebServer

namespace Session

variable {env : Env} {s s' : WebSession}

/-! ## The two sides -/

/-- What the readable callback leaves of a connection it does not free. -/
inductive ReadSide (env : Env) (incoming : Option (List Byte)) (s s' : WebSession) : Prop
  /-- The peer has closed, the read has failed, or the message that was read ends the
  connection. -/
  | closing (state : s'.conn.state = .closing) (waits : s'.pending ≠ []) (ev : s'.ev = s.setOut true)
  /-- A message has been read, and it keeps the connection. -/
  | answered {n : Int} {rb : RingBuffer} {s₁ : WebSession} {head : List Byte}
      (read : s.readBuffer env.fresh incoming = .ok (n, s.setRead rb)) (data : n > 0)
      (ok : (s.setRead rb).httpRequest env = .ok s')
      (persists : (s.setRead rb).Persists env s₁) (head_eq : (s.setRead rb).Head env s₁ head)
      (state : s'.conn.state = s.conn.state)
      (sent : ((s.setRead rb).TakesHead env head ∧ s'.pending = [] ∧ s'.ev = s.ev) ∨
        (¬ (s.setRead rb).TakesHead env head ∧ s'.pending ≠ [] ∧
          ((s.SendsNothing env ∧ s'.ev = s.ev) ∨ (¬ s.SendsNothing env ∧ s'.ev = s.setOut true))))

/-- What the writable side leaves of a connection it does not free. -/
inductive WriteSide (s s' : WebSession) : Prop
  /-- The last bytes that waited are sent. -/
  | drained (stays : s.conn.state ≠ .closing) (waited : s.pending ≠ [])
      (state : s'.conn.state = s.conn.state) (empty : s'.pending = []) (ev : s'.ev = s.setOut false)
  | kept (state : s'.conn.state = s.conn.state) (waits : s'.pending = [] ↔ s.pending = [])
      (ev : s'.ev = s.ev)

/-- The same objects are live, and nothing freed was touched. -/
structure Spared (s s' : WebSession) : Prop where
  life : s'.life = s.life
  touched : s'.touchedDead = s.touchedDead
  write : s'.conn.ringBufferWrite.Inv

theorem Spared.alive (h : s.Spared s') (ha : s.Alive) : s'.Alive := ha.of_life h.life h.touched

theorem Spared.evLive (h : s.Spared s') : s'.evLive = s.evLive :=
  congrArg (fun l : Life => l.2.1) h.life

/-- **The readable side**: the connection is freed, with nothing left to send, or it is spared. -/
theorem eventReadableCallback_side {incoming : Option (List Byte)}
    (hw : s.conn.ringBufferWrite.Inv) (ha : s.Alive)
    (hok : s.eventReadableCallback env (onMessage env) incoming = .ok s') :
    (s.Freed s' ∧ s'.touchedDead = true ∧ s'.pending = [] ∧ s'.conn.ringBufferWrite.Inv) ∨
      (s.Spared s' ∧ s.ReadSide env incoming s') := by
  obtain ⟨n, rb, hread, ha₁, hsides⟩ := eventReadableCallback_cases ha hok
  have hw₁ : (s.setRead rb).conn.ringBufferWrite.Inv := hw
  rcases hsides with ⟨hdata, hok⟩ | ⟨-, rfl⟩
  · obtain ⟨-, -, hwrite, hout⟩ := httpRequest_outcome hw₁ ha₁ hok
    cases hout with
    | freed closes touched empty freed => exact Or.inl ⟨freed, touched, empty, hwrite⟩
    | closing not_closes short life touched waits state ev =>
      exact Or.inr ⟨⟨life, touched, hwrite⟩, .closing state waits ev⟩
    | kept not_closes persists head_eq stream file life touched state sent =>
      exact Or.inr ⟨⟨life, touched, hwrite⟩, .answered hread hdata hok persists head_eq state sent⟩
  · obtain ⟨hidle, hcases⟩ := connectionDisconnect_spec hw₁ ha₁
    have hwrite : (s.setRead rb).connectionDisconnect.conn.ringBufferWrite.Inv := by
      rw [hidle.write]
      exact hw
    rcases hcases with ⟨hp, htouched, hfreed⟩ | ⟨hp, hlife, htouched, hstate, hev⟩
    · exact Or.inl ⟨hfreed, htouched, hidle.pending.trans hp, hwrite⟩
    · exact Or.inr ⟨⟨hlife, htouched, hwrite⟩,
        .closing hstate (by rw [hidle.pending]; exact hp) hev⟩

/-- **The writable side**: a closing connection with nothing left to send is freed, any other is
spared. -/
theorem eventHandlerOut_side (env : Env) (hw : s.conn.ringBufferWrite.Inv) (ha : s.Alive) :
    ∃ s', s.eventHandlerOut env = .ok s' ∧
      ((s.pending ≠ [] ∧ s.Freed s') ∨ (s.Spared s' ∧ s.WriteSide s' ∧
        (∃ rb, s'.conn = { s.conn with ringBufferWrite := rb }) ∧ (s.Rewound → s'.Rewound))) := by
  unfold eventHandlerOut
  simp only [ha.touchEv]
  split_ifs with hout
  · obtain ⟨s', hs', hwritten⟩ := eventWritableCallback_spec env hw ha
    refine ⟨s', hs', ?_⟩
    have hspared : s.Sent s' → s.Spared s' ∧ s'.conn.state = s.conn.state ∧
        (∃ rb, s'.conn = { s.conn with ringBufferWrite := rb }) ∧ (s.Rewound → s'.Rewound) := by
      intro hsent
      obtain ⟨rb, hinv, hconn⟩ := hsent.conn
      exact ⟨⟨hsent.life, hsent.touched, by rw [hconn]; exact hinv⟩, by rw [hconn], ⟨rb, hconn⟩,
        hsent.rewound⟩
    cases hwritten with
    | freed closing waits all touched freed gone => exact Or.inl ⟨waits, freed⟩
    | drained stays waits all sent empty ev =>
      obtain ⟨hs, hstate, hconn⟩ := hspared sent
      exact Or.inr ⟨hs, .drained stays waits hstate empty ev, hconn⟩
    | kept more sent waits ev =>
      obtain ⟨hs, hstate, hconn⟩ := hspared sent
      exact Or.inr ⟨hs, .kept hstate waits ev, hconn⟩
  · exact ⟨s, rfl, Or.inr ⟨⟨rfl, rfl, hw⟩, .kept rfl Iff.rfl rfl, ⟨_, rfl⟩, id⟩⟩

/-! ## One turn -/

/-- **The turn rule.**  What the readable side, the writable side and the release of the event
alone keep of a live connection, a turn keeps, unless it frees the connection. -/
theorem turn_keeps {X : WebSession → Prop} {t : Turn} (h : s.Steady) (hev : s.evLive = true)
    (hX : X (s.activate t.ready))
    (hhup : (s.activate t.ready).HungUp → X (s.activate t.ready) →
      X (s.activate t.ready).eventFree)
    (hread : ∀ u, (s.activate t.ready).Readable → ¬ (s.activate t.ready).HungUp →
      (s.activate t.ready).eventReadableCallback t.env (onMessage t.env) t.ready.incoming = .ok u →
        (s.activate t.ready).Spared u → (s.activate t.ready).ReadSide t.env t.ready.incoming u →
          X (s.activate t.ready) → X u)
    (hwrite : ∀ u v : WebSession, u.Spared v → u.WriteSide v →
      (∃ rb, v.conn = { u.conn with ringBufferWrite := rb }) ∧ (u.Rewound → v.Rewound) → X u → X v)
    (hquiet : X s) (hok : s.turn t = .ok s') : (s'.Steady ∧ X s') ∨ s.Freed s' := by
  rw [turn_eq hev] at hok
  split_ifs at hok with hmask
  · have h' := h.activate t.ready
    have ha := h'.alive hev
    -- the writable side, on whatever live session it is reached
    have hside : ∀ u : WebSession, (s.activate t.ready).Spared u → X u →
        u.eventHandlerOut t.env = .ok s' → (s'.Steady ∧ X s') ∨ s.Freed s' := by
      intro u hspared hXu hok
      obtain ⟨v, hv, hcases⟩ := eventHandlerOut_side t.env hspared.write (hspared.alive ha)
      obtain rfl := Run.ok_unique hok hv
      rcases hcases with ⟨-, hfreed⟩ | ⟨hspared', hwritten, hconn⟩
      · exact Or.inr (hfreed.of_life hspared.life)
      · exact Or.inl ⟨h'.of_life (hspared'.life.trans hspared.life)
          (hspared'.touched.trans hspared.touched) hspared'.write, hwrite u s' hspared' hwritten hconn hXu⟩
    unfold eventHandler at hok
    simp only [ha.touchEv] at hok
    by_cases hup : (s.activate t.ready).HungUp
    · rw [if_pos hup] at hok
      obtain rfl := Except.ok.inj hok
      refine Or.inl ⟨?_, hhup hup hX⟩
      unfold eventFree
      simp only [ha.touchEv]
      exact ⟨h'.conn, h'.handler, h'.untouched, h'.frees, h'.write⟩
    · rw [if_neg hup] at hok
      by_cases hr : (s.activate t.ready).Readable
      · rw [if_pos hr] at hok
        obtain ⟨u, hu, hok⟩ := Run.bind_eq_ok.1 hok
        rcases eventReadableCallback_side h'.write ha hu with
          ⟨hfreed, htouched, hempty, hinv⟩ | ⟨hspared, hside'⟩
        · obtain ⟨v, hv, -, hlife⟩ := eventHandlerOut_freed t.env hinv hempty htouched
          obtain rfl := Run.ok_unique hok hv
          exact Or.inr (hlife.trans hfreed)
        · exact hside u hspared (hread u hr hup hu hspared hside' hX) hok
      · rw [if_neg hr] at hok
        exact hside _ ⟨rfl, rfl, h'.write⟩ hX hok
  · obtain rfl := Except.ok.inj hok
    exact Or.inl ⟨h, hquiet⟩

/-- A turn on an event that is gone does nothing. -/
theorem turn_of_not_evLive {t : Turn} (hev : s.evLive = false) : s.turn t = .ok s := by
  refine if_neg fun h => ?_
  rw [hev] at h
  exact Bool.noConfusion h.1

end Session

end MWebServer
