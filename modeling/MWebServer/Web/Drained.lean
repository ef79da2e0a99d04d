import MWebServer.Web.ReadRoom
import MWebServer.Web.Wire

/-!
# The end of a closing connection

`connection_disconnect` frees a connection at once only if nothing waits to be sent.  Otherwise
it enables writing, and leaves the end to `event_writable_callback`.  The end comes: nothing
of what waits is lost, and no turn of a socket that has room is in vain.

* `orderly_turn` — what a connection keeps to as long as a closing one hears nothing.
* `Ebbs` — a turn in which the socket has room.
* `ebb_turn` — such a turn sends something, and frees the connection if it sends all.
* `drained` — after as many of them as bytes wait, all is sent, and the connection freed.
-/

namespace MWebServer

namespace Session

variable {s s' : WebSession} {t : Turn}

/-! ## Before the end -/

/-- A connection between two turns whose teardown has not begun and which, if it is closing, has
bytes to send and waits for the socket; or its event is gone. -/
structure Orderly (s : WebSession) : Prop where
  blank : s.Blank
  draining : s.Draining
  life : s.evLive = true → s.life = born

theorem orderly_start (connfd now : Int) : (start connfd now).Orderly :=
  ⟨blank_start connfd now, fun _ hclosing => ConnState.noConfusion hclosing, fun _ => rfl⟩

/-- **One turn**, in which a closing connection hears nothing. -/
theorem orderly_turn (h : s.Orderly) (hquiet : s.conn.state = .closing → ¬ s.Hears t)
    (hok : s.turn t = .ok s') : s'.Orderly := by
  by_cases hev : s.evLive = true
  · obtain ⟨hsteady, -⟩ := h.blank hev
    refine ⟨blank_turn h.blank hok, fun hlive => ?_, fun hlive => ?_⟩
    · rcases draining_turn hsteady h.draining hquiet hok with ⟨-, hdrains⟩ | hgone
      · exact hdrains hlive
      · exact Bool.noConfusion (hgone.2.symm.trans hlive)
    · rcases born_turn hsteady hev (h.life hev) hok with ⟨-, hborn⟩ | hended
      · exact hborn hlive
      · exact Bool.noConfusion (hlive.symm.trans (congrArg (fun l : Life => l.2.1) hended))
  · obtain rfl := turn_eq_self hev hok
    exact h

/-! ## Ebbing -/

/-- The connection is closing, and not yet freed. -/
structure Ebbing (s : WebSession) : Prop where
  orderly : s.Orderly
  ev : s.evLive = true
  closing : s.conn.state = .closing

/-- **The socket has room in this turn**, no more is heard, and neither hang-up nor an error is
reported. -/
structure Ebbs (s : WebSession) (t : Turn) : Prop where
  untroubled : Untroubled t
  silent : ¬ s.Hears t
  writable : t.ready.mask.epollOut = true
  room : ∃ n, 0 < n ∧ t.env.send s.kernel.sends = some n

/-- **A turn that ebbs is a call of `event_writable_callback`** on what is on the wire before it. -/
theorem Ebbing.turn_eq (h : s.Ebbing) (hebbs : s.Ebbs t) :
    ∃ u : WebSession, s.turn t = u.eventWritableCallback t.env ∧ u.Alive ∧ u.conn.ringBufferWrite.Inv ∧
      u.onWire = s.onWire ∧ u.kernel.sends = s.kernel.sends ∧ u.life = s.life ∧
      u.conn.state = .closing := by
  obtain ⟨hsteady, n, hn⟩ := h.orderly.blank h.ev
  obtain ⟨hwaits, hout⟩ := h.orderly.draining h.ev h.closing
  have ha := (hsteady.activate t.ready).alive h.ev
  have hw : (s.activate t.ready).conn.ringBufferWrite.Inv := hsteady.write
  have hactive : (s.activate t.ready).ev.activeEvent.epollOut = true := by
    show (s.ev.eventFlag.epollOut && t.ready.mask.epollOut) = true
    rw [hout, hebbs.writable]
    rfl
  have hup : ¬ (s.activate t.ready).HungUp := by
    show ¬ (t.ready.mask.epollHup || t.ready.mask.epollErr) = true
    rw [hebbs.untroubled.1, hebbs.untroubled.2]
    exact Bool.false_ne_true
  have hmask : s.turn t =
      eventHandler t.env (onMessage t.env) t.ready.incoming (s.activate t.ready) :=
    epollerDispatch_active h.ev (Or.inr (Or.inr hactive))
  -- the writable side is reached
  have hside : ∀ u : WebSession, u.Alive → u.ev.activeEvent.epollOut = true →
      u.eventHandlerOut t.env = u.eventWritableCallback t.env := by
    intro u hu hactive
    unfold eventHandlerOut
    simp only [hu.touchEv, hactive, if_true]
  rw [hmask]
  unfold eventHandler
  simp only [ha.touchEv]
  rw [if_neg hup]
  by_cases hr : (s.activate t.ready).Readable
  · -- the end of the stream is read once more
    obtain ⟨k, u, hread⟩ := readBuffer_total (s := s.activate t.ready) ha hn t.ready.incoming
    have hk : ¬ k > 0 := fun hdata => hebbs.silent ⟨h.ev, hup, hr, k, u, hread, hdata⟩
    obtain rfl := readBuffer_silent ha hread hk
    obtain ⟨hidle, hcases⟩ := connectionDisconnect_spec hw ha
    rcases hcases with ⟨hempty, -⟩ | ⟨-, hlife, htouched, hstate, hev⟩
    · exact absurd hempty hwaits
    · have hu := ha.of_life hlife htouched
      refine ⟨(s.activate t.ready).connectionDisconnect, ?_, hu, ?_, hidle.onWire, ?_, hlife, hstate⟩
      · rw [if_pos hr]
        unfold eventReadableCallback
        rw [hread]
        simp only [Run.ok_bind]
        rw [if_neg hk]
        refine hside _ hu ?_
        rw [hev]
        exact hactive
      · rw [hidle.write]
        exact hw
      · unfold connectionDisconnect
        simp only
        split_ifs <;> rfl
  · refine ⟨s.activate t.ready, ?_, ha, hw, rfl, rfl, rfl, h.closing⟩
    rw [if_neg hr]
    exact hside _ ha hactive

/-- **One turn that ebbs** sends something; and either that was all, and the connection is freed, or
it goes on to ebb. -/
theorem ebb_turn (h : s.Ebbing) (hebbs : s.Ebbs t) :
    ∃ s', s.turn t = .ok s' ∧
      ((s'.life = ended ∧ s'.kernel.sent = s.stream) ∨
        (s'.Ebbing ∧ s'.stream = s.stream ∧ s'.pending.length < s.pending.length)) := by
  obtain ⟨hwaits, -⟩ := h.orderly.draining h.ev h.closing
  obtain ⟨u, hturn, ha, hw, hwire, hsends, hlife, hclosing⟩ := h.turn_eq hebbs
  obtain ⟨room, hpos, hroom⟩ := hebbs.room
  obtain ⟨s', hs', htaken⟩ := eventWritableCallback_wire t.env hw
  obtain ⟨v, hv, hwritten⟩ := eventWritableCallback_spec t.env hw ha
  obtain rfl := Run.ok_unique hs' hv
  rw [hwire, hsends, hroom] at htaken
  have hpending : s'.pending = s.pending.drop room := congrArg Wire.queued htaken
  have hstream : s'.stream = s.stream := by
    have hsent : s'.kernel.sent = s.kernel.sent ++ s.pending.take room := congrArg Wire.sent htaken
    unfold stream
    rw [hsent, hpending, List.append_assoc, List.take_append_drop]
  have hu : u.stream = s.stream := congrArg (fun w : Wire => w.sent ++ w.queued) hwire
  refine ⟨s', hturn.trans hs', ?_⟩
  cases hwritten with
  | freed closing waits all touched freed gone =>
    exact Or.inl ⟨freed.ended (hlife.trans (h.orderly.life h.ev)), gone.trans hu⟩
  | drained stays => exact absurd hclosing stays
  | kept more sent waits ev =>
    obtain ⟨rb, -, hconn⟩ := sent.conn
    have hlive := sent.life.trans hlife
    simp only [life, Prod.mk.injEq] at hlive
    refine Or.inr ⟨⟨orderly_turn h.orderly (fun _ => hebbs.silent) (hturn.trans hs'),
      hlive.2.1.trans h.ev, by rw [hconn]; exact hclosing⟩, hstream, ?_⟩
    rw [hpending, List.length_drop]
    have hlen := List.length_pos_iff.2 hwaits
    omega

/-! ## The end -/

/-- **A closing connection comes to its end.**  Whatever has been done before, as long as a closing
connection heard nothing: once it is closing, as many turns of a socket with room as bytes wait
are enough for all of them to be sent, and for the connection to be freed, once, with its event,
its request and the blocks of its buffers. -/
theorem drained (connfd now : Int) (before after : List Turn) (s : WebSession)
    (hrun : Run.run turn (start connfd now) before = .ok s)
    (hquiet : Run.Meets turn (fun s t => s.conn.state = .closing → ¬ s.Hears t)
      (start connfd now) before)
    (hev : s.evLive = true) (hclosing : s.conn.state = .closing)
    (hebbs : Run.Meets turn (fun s t => s.evLive = true → s.Ebbs t) s after)
    (hlong : s.pending.length ≤ after.length) :
    ∃ s', Run.run turn s after = .ok s' ∧ s'.life = ended ∧
      s'.kernel.sent = s.stream := by
  have horderly : s.Orderly :=
    Run.always_of_meets (I := Orderly) (fun _ h => h)
      (fun _ _ _ h hquiet hok => orderly_turn h hquiet hok) (orderly_start connfd now) hquiet before
      (List.prefix_refl _) s hrun
  refine Run.reaches_of_measure (I := fun u => u.Ebbing ∧ u.stream = s.stream)
    (Q := fun u => u.life = ended ∧ u.kernel.sent = s.stream)
    (fun u => u.pending.length) ?_ ?_ ?_ (Or.inr ⟨⟨⟨horderly, hev, hclosing⟩, rfl⟩, hlong⟩) hebbs
  · rintro u ⟨hebbing, -⟩
    exact List.length_pos_iff.2 (hebbing.orderly.draining hebbing.ev hebbing.closing).1
  · rintro u t ⟨hebbing, hstream⟩ hebbs
    obtain ⟨u', hu', ⟨hlife, hsent⟩ | ⟨hebbing', hstream', hlt⟩⟩ :=
      ebb_turn hebbing (hebbs hebbing.ev)
    · exact ⟨u', hu', Or.inl ⟨hlife, hsent.trans hstream⟩⟩
    · exact ⟨u', hu', Or.inr ⟨⟨hebbing', hstream'.trans hstream⟩, hlt⟩⟩
  · rintro u t ⟨hlife, hsent⟩
    exact ⟨u, turn_of_not_evLive (congrArg (fun l : Life => l.2.1) hlife), hlife, hsent⟩

/-- A turn in which the socket has room for a byte. -/
def writesOne : Turn :=
  ⟨{ Env.oneFile with send := fun _ => some 1 }, ⟨⟨false, false, true, false, false⟩, none⟩⟩

theorem ebbs_writesOne (s : WebSession) : s.Ebbs writesOne where
  untroubled := ⟨rfl, rfl⟩
  silent := by
    rintro ⟨-, -, hr, -⟩
    have hmask : ((s.ev.eventFlag.epollIn && false) || (s.ev.eventFlag.epollPri && false)) = true := hr
    simp at hmask
  writable := rfl
  room := ⟨1, Nat.one_pos, rfl⟩

/-- Of a response ten bytes are sent, and the rest byte by byte. -/
theorem drained_byteByByte : ∃ s s',
    Run.run turn (start 5 0) [readsWith (some 10) (str "GET / HTTP/1.0\r\n\r\n")] = .ok s ∧
      10 < s.pending.length ∧
      Run.run turn s (List.replicate s.pending.length writesOne) = .ok s' ∧
      s'.life = ended ∧ s'.kernel.sent = s.stream := by
  have hruns : (Run.run turn (start 5 0) [readsWith (some 10) (str "GET / HTTP/1.0\r\n\r\n")]).map
      (fun s => (s.evLive, s.conn.state, decide (10 < s.pending.length))) =
        .ok (true, .closing, true) := by decide +kernel
  obtain ⟨s, hrun, hval⟩ := Run.map_eq_ok.1 hruns
  obtain ⟨hev, hval⟩ := Prod.mk.inj hval
  obtain ⟨hclosing, hwaits⟩ := Prod.mk.inj hval
  have hquiet : Run.Meets turn (fun s t => s.conn.state = .closing → ¬ s.Hears t) (start 5 0)
      [readsWith (some 10) (str "GET / HTTP/1.0\r\n\r\n")] :=
    ⟨fun hstate => ConnState.noConfusion hstate, fun _ _ => trivial⟩
  have hebbs : Run.Meets turn (fun s t => s.evLive = true → s.Ebbs t) s
      (List.replicate s.pending.length writesOne) := by
    refine Run.meets_of_forall (fun t ht u _ => ?_) s
    rw [List.eq_of_mem_replicate ht]
    exact ebbs_writesOne u
  obtain ⟨s', hs', hlife, hsent⟩ := drained 5 0 _ (List.replicate s.pending.length writesOne) s hrun
    hquiet hev hclosing hebbs (List.length_replicate.symm.le)
  exact ⟨s, s', hrun, of_decide_eq_true hwaits, hs', hlife, hsent⟩

end Session

end MWebServer
