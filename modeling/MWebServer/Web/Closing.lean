import MWebServer.Web.TurnCases

/-!
# Draining, write interest and teardown

Three things a connection should keep to over every run of turns.

* `drainsOnly_iff` — a closing connection only drains, as long as nothing is read from
  it: `event_readable_callback` does not ask for the state.
* `interested_iff` — `EPOLLOUT` is waited for exactly while bytes wait, as long as no
  accepted keep-alive request finds `send` in one of two moods: it takes nothing
  though nothing waited before, or it takes everything though something did.
* `tornDown_iff` — the event and the connection go together, as long as neither hang-up
  nor an error is reported: `event_error_handler` frees the event alone.
-/

namespace MWebServer

namespace Session

variable {env : Env} {s s' : WebSession} {t : Turn}

/-! ## Freed connections -/

/-- The connection and its event are gone. -/
def Gone (s : WebSession) : Prop := s.connLive = false ∧ s.evLive = false

theorem Freed.gone (h : s.Freed s') : s'.Gone := by
  simp only [Freed, life, Prod.mk.injEq] at h
  exact ⟨h.1, h.2.1⟩

/-- Nothing happens to what is gone. -/
theorem Gone.turn (h : s.Gone) (hok : s.turn t = .ok s') : s' = s :=
  Run.ok_unique hok (turn_of_not_evLive h.2)

/-- A turn on an event that is gone changes nothing, whatever becomes ready. -/
theorem turn_eq_self (hev : s.evLive ≠ true) (hok : s.turn t = .ok s') : s' = s :=
  Run.ok_unique hok (turn_of_not_evLive (Bool.eq_false_of_not_eq_true hev))

/-! ## Draining -/

/-- A closing connection with a live event has bytes to send, and waits for the socket. -/
def Draining (s : WebSession) : Prop :=
  s.evLive = true → s.conn.state = .closing → s.pending ≠ [] ∧ s.ev.eventFlag.epollOut = true

/-- A read delivers data in this turn. -/
def Hears (s : WebSession) (t : Turn) : Prop :=
  s.evLive = true ∧ ¬ (s.activate t.ready).HungUp ∧ (s.activate t.ready).Readable ∧
    ∃ n s₁, (s.activate t.ready).readBuffer t.env.fresh t.ready.incoming = .ok (n, s₁) ∧ n > 0

/-- The message callback is not invoked in this turn: the turn would be the same with any
other. -/
def Unanswered (s : WebSession) (t : Turn) : Prop :=
  ∀ cb cb' : WebSession → Except Fault WebSession,
    s.epollerDispatch t.env cb t.ready = s.epollerDispatch t.env cb' t.ready

/-- **The callback is invoked exactly when a read delivers data.** -/
theorem unanswered_iff : s.Unanswered t ↔ ¬ s.Hears t := by
  by_cases hev : s.evLive = true
  · have htouch : (s.activate t.ready).touchEv = s.activate t.ready := by
      have hflag : (s.touchedDead || !s.evLive) = s.touchedDead := by simp [hev]
      show { s.activate t.ready with touchedDead := s.touchedDead || !s.evLive } = _
      rw [hflag]
      rfl
    constructor
    · rintro hsame ⟨-, hup, hr, n, s₁, hread, hdata⟩
      -- two callbacks that fail in different ways
      have hfault : ∀ f : Fault, s.epollerDispatch t.env (fun _ => .error f) t.ready = .error f := by
        intro f
        rw [epollerDispatch_active hev (Or.inr (Or.inl hr))]
        unfold eventHandler eventReadableCallback
        simp only [htouch]
        rw [if_neg hup, if_pos hr, hread]
        simp only [Run.ok_bind]
        rw [if_pos hdata]
        rfl
      have hne := (hfault .noFuel).symm.trans ((hsame _ _).trans (hfault .nullDeref))
      exact absurd (Except.error.inj hne) (by decide)
    · intro hquiet cb cb'
      unfold epollerDispatch
      simp only
      split_ifs with hcall
      · show eventHandler t.env cb t.ready.incoming (s.activate t.ready) =
          eventHandler t.env cb' t.ready.incoming (s.activate t.ready)
        unfold eventHandler eventReadableCallback
        simp only [htouch]
        split_ifs with hup hr
        · rfl
        · cases hread : (s.activate t.ready).readBuffer t.env.fresh t.ready.incoming with
          | error f => rfl
          | ok r =>
            have hnone : ¬ r.1 > 0 := fun hdata => hquiet ⟨hev, hup, hr, r.1, r.2, hread, hdata⟩
            simp only [Run.ok_bind, if_neg hnone]
        · rfl
      · rfl
  · have hquiet : ¬ s.Hears t := fun hh => hev hh.1
    have hnone : ∀ cb, s.epollerDispatch t.env cb t.ready = .ok s :=
      fun cb => if_neg fun hcall => hev hcall.1
    exact iff_of_true (fun cb cb' => (hnone cb).trans (hnone cb').symm) hquiet

/-- What a turn in which a closing connection hears nothing keeps. -/
theorem draining_turn (h : s.Steady) (hdrains : s.Draining)
    (hquiet : s.conn.state = .closing → ¬ s.Hears t) (hok : s.turn t = .ok s') :
    (s'.Steady ∧ s'.Draining) ∨ s'.Gone := by
  by_cases hev : s.evLive = true
  · have hkeeps := turn_keeps (X := Draining) h hev (t := t) hdrains
      (fun _ _ hlive => Bool.noConfusion hlive) ?_ ?_ hdrains hok
    · exact hkeeps.imp_right Freed.gone
    · intro u hr hup _ hspared hside hX _ hclosing
      cases hside with
      | closing state waits ev =>
        rw [ev]
        exact ⟨waits, rfl⟩
      | answered read data ok persists head_eq state sent =>
        exact absurd ⟨hev, hup, hr, _, _, read, data⟩ (hquiet (state.symm.trans hclosing))
    · intro u v hspared hside hconn hX hlive hclosing
      cases hside with
      | drained stays waited state empty ev => exact absurd (state.symm.trans hclosing) stays
      | kept state waits ev =>
        obtain ⟨hmore, hout⟩ := hX (hspared.evLive.symm.trans hlive) (state.symm.trans hclosing)
        exact ⟨mt waits.1 hmore, by rw [ev]; exact hout⟩
  · obtain rfl := turn_eq_self hev hok
    exact Or.inl ⟨h, hdrains⟩

/-- **A closing connection only drains**: in no turn that finds it closing is the callback invoked,
and in every state between turns it has bytes to send and waits for the socket, unless it is
freed. -/
def DrainsOnly (s : WebSession) (turns : List Turn) : Prop :=
  Run.Meets turn (fun s t => s.conn.state = .closing → s.Unanswered t) s turns ∧
    Run.Always turn (fun s => s.connLive = true → s.Draining) s turns

/-- **A closing connection only drains exactly as long as nothing is read from it.** -/
theorem drainsOnly_iff (connfd now : Int) (turns : List Turn) :
    DrainsOnly (start connfd now) turns ↔
      Run.Meets turn (fun s t => s.conn.state = .closing → ¬ s.Hears t) (start connfd now) turns := by
  constructor
  · rintro ⟨hunanswered, -⟩
    exact hunanswered.imp fun s t h hclosing => unanswered_iff.1 (h hclosing)
  · intro hquiet
    refine ⟨hquiet.imp fun s t h hclosing => unanswered_iff.2 (h hclosing), ?_⟩
    refine Run.always_of_meets (I := fun s => (s.Steady ∧ s.Draining) ∨ s.Gone) ?_ ?_
      (Or.inl ⟨steady_start connfd now, fun _ h => ConnState.noConfusion h⟩) hquiet
    · rintro s (⟨-, hdrains⟩ | hgone) hlive
      · exact hdrains
      · exact Bool.noConfusion (hgone.1.symm.trans hlive)
    · rintro s t s' (⟨hsteady, hdrains⟩ | hgone) hC hok
      · exact draining_turn hsteady hdrains hC hok
      · rw [hgone.turn hok]
        exact Or.inr hgone

/-- A turn in which `data` can be read, on a server with one empty file, whose socket has the given
room. -/
def readsWith (room : Option Nat) (data : List Byte) : Turn :=
  ⟨{ Env.oneFile with send := fun _ => room }, ⟨⟨true, false, false, false, false⟩, some data⟩⟩

/-- **A second request on a closing connection**: of the response to the first, which ends the
connection, ten bytes are sent.  The second keeps it, all is sent, and nothing is left that would
free the connection. -/
theorem not_drainsOnly : ¬ ∀ (connfd now : Int) (turns : List Turn),
    DrainsOnly (start connfd now) turns := by
  intro h
  let turns := [readsWith (some 10) (str "GET / HTTP/1.0\r\n\r\n"),
    readsWith (some 1000) (str "GET / HTTP/1.1\r\n\r\n")]
  have hrun : (Run.run turn (start 5 0) turns).map (fun s =>
      (s.connLive, s.evLive, s.conn.state, s.pending)) = .ok (true, true, .closing, []) := by
    decide +kernel
  obtain ⟨s, hs, hval⟩ := Run.map_eq_ok.1 hrun
  simp only [Prod.mk.injEq] at hval
  obtain ⟨hlive, hev, hclosing, hempty⟩ := hval
  obtain ⟨-, hdraining⟩ := h 5 0 turns
  exact (hdraining turns (List.prefix_refl _) s hs hlive hev hclosing).1 hempty

/-! ## Write interest -/

/-- A live event waits for the socket exactly while bytes wait to be sent. -/
def Interested (s : WebSession) : Prop :=
  s.evLive = true → (s.ev.eventFlag.epollOut = true ↔ s.pending ≠ [])

/-- An accepted request that keeps the connection finds `send` taking nothing, though nothing
waited before it, or everything, though something did. -/
def Mismatches (env : Env) (s : WebSession) : Prop :=
  ∃ s₁ head, s.Persists env s₁ ∧ s.Head env s₁ head ∧ (∃ s', s.httpRequest env = .ok s') ∧
    ((s.pending = [] ∧ s.SendsNothing env) ∨ (s.pending ≠ [] ∧ s.TakesHead env head))

/-- Such a request is read in this turn. -/
def TurnMismatches (s : WebSession) (t : Turn) : Prop :=
  s.evLive = true ∧ ¬ (s.activate t.ready).HungUp ∧ (s.activate t.ready).Readable ∧
    ∃ n rb, (s.activate t.ready).readBuffer t.env.fresh t.ready.incoming =
      .ok (n, (s.activate t.ready).setRead rb) ∧ n > 0 ∧
        ((s.activate t.ready).setRead rb).Mismatches t.env

/-- What any other turn keeps. -/
theorem interested_turn (h : s.Steady) (hinterested : s.Interested)
    (hmatch : ¬ s.TurnMismatches t) (hok : s.turn t = .ok s') :
    (s'.Steady ∧ s'.Interested) ∨ s'.Gone := by
  by_cases hev : s.evLive = true
  · have hkeeps := turn_keeps (X := Interested) h hev (t := t) hinterested
      (fun _ _ hlive => Bool.noConfusion hlive) ?_ ?_ hinterested hok
    · exact hkeeps.imp_right Freed.gone
    · intro u hr hup _ hspared hside hX _
      have hX := hX hev
      cases hside with
      | closing state waits ev =>
        rw [ev]
        exact iff_of_true rfl waits
      | @answered n rb s₁ head read data ok persists head_eq state sent =>
        -- neither of the two mismatches
        have hnot : ∀ hmis : (s.pending = [] ∧ (s.activate t.ready).SendsNothing t.env) ∨
            (s.pending ≠ [] ∧ ((s.activate t.ready).setRead rb).TakesHead t.env head), False :=
          fun hmis => hmatch ⟨hev, hup, hr, n, rb, read, data, s₁, head, persists, head_eq,
            ⟨u, ok⟩, hmis⟩
        rcases sent with ⟨htakes, hempty, hev'⟩ | ⟨-, hmore, ⟨hnothing, hev'⟩ | ⟨-, hev'⟩⟩
        · rw [hev']
          refine iff_of_false (fun hout => ?_) (fun hne => hne hempty)
          exact hnot (Or.inr ⟨hX.1 hout, htakes⟩)
        · rw [hev']
          refine iff_of_true (hX.2 fun hempty => ?_) hmore
          exact hnot (Or.inl ⟨hempty, hnothing⟩)
        · rw [hev']
          exact iff_of_true rfl hmore
    · intro u v hspared hside hconn hX hlive
      have hX := hX (hspared.evLive.symm.trans hlive)
      cases hside with
      | drained stays waited state empty ev =>
        rw [ev]
        exact iff_of_false (fun hout => Bool.noConfusion hout) (fun hne => hne empty)
      | kept state waits ev =>
        rw [ev, hX]
        exact not_congr waits.symm
  · obtain rfl := turn_eq_self hev hok
    exact Or.inl ⟨h, hinterested⟩

/-- **A mismatch shows at the end of the request.** -/
theorem httpRequest_mismatches (hw : s.conn.ringBufferWrite.Inv) (ha : s.Alive)
    (h : s.Mismatches env) :
    ∃ s', s.httpRequest env = .ok s' ∧ s.Spared s' ∧ s'.ev = s.ev ∧
      (s'.pending = [] ↔ s.pending ≠ []) := by
  obtain ⟨s₁, head, hpersists, hhead, ⟨s', hok⟩, hmis⟩ := h
  obtain ⟨-, -, hwrite, hout⟩ := httpRequest_outcome hw ha hok
  cases hout with
  | freed closes touched empty freed =>
    obtain ⟨t₁, -, -, ht₁, hshort, -⟩ := closes
    obtain rfl : s₁ = t₁ := congrArg Prod.snd (Run.ok_unique hpersists.1 ht₁)
    exact Bool.noConfusion (hshort.symm.trans hpersists.2)
  | closing not_closes short life touched waits state ev => exact absurd hpersists (short s₁)
  | @kept t₁ head' tail not_closes persists head_eq stream file life touched state sent =>
    obtain rfl : s₁ = t₁ :=
      congrArg Prod.snd (Run.ok_unique hpersists.1 persists.1)
    obtain rfl := hhead.unique head_eq
    refine ⟨s', hok, ⟨life, touched, hwrite⟩, ?_⟩
    rcases hmis with ⟨hempty, hnothing⟩ | ⟨hmore, htakes⟩
    · -- `send` takes nothing of the head
      have hnot : ¬ s.TakesHead env head := by
        rintro ⟨n, hn, hle⟩
        have hlen := List.length_pos_iff.2 hhead.ne_nil
        rw [List.length_append] at hle
        rcases hnothing with hnone | hzero
        · rw [hnone] at hn
          cases hn
        · rw [hzero] at hn
          cases hn
          omega
      rcases sent with ⟨htakes, -⟩ | ⟨-, hwaits, ⟨-, hev⟩ | ⟨hsome, -⟩⟩
      · exact absurd htakes hnot
      · exact ⟨hev, iff_of_false hwaits (fun hne => hne hempty)⟩
      · exact absurd hnothing hsome
    · rcases sent with ⟨-, hgone, hev⟩ | ⟨hnot, -⟩
      · exact ⟨hev, iff_of_true hgone hmore⟩
      · exact absurd htakes hnot

/-- **Such a turn leaves the event waiting for nothing, or bytes waiting for no event.** -/
theorem turn_mismatches (h : s.Steady) (hinterested : s.Interested) (hmis : s.TurnMismatches t) :
    ∃ s', s.turn t = .ok s' ∧ s'.connLive = true ∧ ¬ s'.Interested := by
  obtain ⟨hev, hup, hr, n, rb, hread, hdata, hmis⟩ := hmis
  have h' := h.activate t.ready
  have ha := h'.alive hev
  have ha₁ : ((s.activate t.ready).setRead rb).Alive := ha.of_life rfl rfl
  have hw₁ : ((s.activate t.ready).setRead rb).conn.ringBufferWrite.Inv := h'.write
  obtain ⟨u, hu, hspared, hevu, hpending⟩ := httpRequest_mismatches hw₁ ha₁ hmis
  have hau := hspared.alive ha₁
  -- up to the writable side
  have hturn : s.turn t = u.eventHandlerOut t.env := by
    unfold turn
    rw [epollerDispatch_active hev (Or.inr (Or.inl hr))]
    unfold eventHandler eventReadableCallback onMessage
    simp only [ha.touchEv]
    rw [if_neg hup, if_pos hr, hread]
    simp only [Run.ok_bind]
    rw [if_pos hdata, ha₁.touchConn, hu, Run.ok_bind]
  rw [hturn]
  have hinterested := hinterested hev
  by_cases hp : s.pending = []
  · -- the event did not wait, so that the writable side is not taken
    have hout : s.ev.eventFlag.epollOut = false :=
      Bool.eq_false_of_not_eq_true fun hout => hinterested.1 hout hp
    have hactive : u.ev.activeEvent.epollOut = false := by
      rw [hevu]
      show (s.ev.eventFlag.epollOut && t.ready.mask.epollOut) = false
      rw [hout]
      rfl
    have hnone : u.eventHandlerOut t.env = .ok u := by
      unfold eventHandlerOut
      simp only [hau.touchEv, hactive]
      rfl
    refine ⟨u, hnone, hau.conn, fun h => ?_⟩
    have hiff : s.ev.eventFlag.epollOut = true ↔ u.pending ≠ [] := by
      have hiff := h hau.ev
      rwa [hevu] at hiff
    exact Bool.noConfusion (hout.symm.trans (hiff.2 fun hempty => hpending.1 hempty hp))
  · -- nothing waits any more, so that the writable side does nothing
    have hempty : u.pending = [] := hpending.2 hp
    obtain ⟨v, hv, hcases⟩ := eventHandlerOut_side t.env hspared.write hau
    rcases hcases with ⟨hwaits, -⟩ | ⟨hspared', hside, -⟩
    · exact absurd hempty hwaits
    · cases hside with
      | drained stays waited => exact absurd hempty waited
      | kept state waits ev =>
        refine ⟨v, hv, (hspared'.alive hau).conn, fun h => ?_⟩
        have hiff : s.ev.eventFlag.epollOut = true ↔ v.pending ≠ [] := by
          have hiff := h (hspared'.alive hau).ev
          rwa [ev, hevu] at hiff
        exact hiff.1 (hinterested.2 hp) (waits.2 hempty)

/-- **Write interest matches pending output exactly as long as no turn mismatches them.** -/
theorem interested_iff (connfd now : Int) (turns : List Turn) :
    Run.Always turn (fun s => s.connLive = true → s.Interested) (start connfd now) turns ↔
      Run.Meets turn (fun s t => ¬ s.TurnMismatches t) (start connfd now) turns := by
  refine Run.always_iff_meets (I := fun s => (s.Steady ∧ s.Interested) ∨ s.Gone) ?_ ?_ ?_
    (Or.inl ⟨steady_start connfd now, fun _ => iff_of_false Bool.noConfusion fun hne => hne rfl⟩) turns
  · rintro s (⟨-, hinterested⟩ | hgone) hlive
    · exact hinterested
    · exact Bool.noConfusion (hgone.1.symm.trans hlive)
  · rintro s t s' (⟨hsteady, hinterested⟩ | hgone) hC hok
    · exact interested_turn hsteady hinterested hC hok
    · rw [hgone.turn hok]
      exact Or.inr hgone
  · rintro s t (⟨hsteady, hinterested⟩ | hgone) hmis
    · obtain ⟨s', hs', hlive, hnot⟩ := turn_mismatches hsteady hinterested (not_not.1 hmis)
      exact ⟨s', hs', fun h => hnot (h hlive)⟩
    · exact absurd (hgone.2.symm.trans (not_not.1 hmis).1) Bool.false_ne_true

/-- **A `send` that fails**: the head waits in the write buffer, and nobody waits for the socket. -/
theorem not_interested : ¬ ∀ (connfd now : Int) (turns : List Turn),
    Run.Always turn (fun s => s.connLive = true → s.Interested) (start connfd now) turns := by
  intro h
  let turns := [readsWith none (str "GET / HTTP/1.1\r\n\r\n")]
  have hrun : (Run.run turn (start 5 0) turns).map (fun s =>
      (s.connLive, s.evLive, s.ev.eventFlag.epollOut, s.pending.isEmpty)) =
        .ok (true, true, false, false) := by
    decide +kernel
  obtain ⟨s, hs, hval⟩ := Run.map_eq_ok.1 hrun
  simp only [Prod.mk.injEq] at hval
  obtain ⟨hlive, hev, hout, hmore⟩ := hval
  have hinterested := h 5 0 turns turns (List.prefix_refl _) s hs hlive hev
  have hne : s.pending ≠ [] := fun hempty => by
    rw [hempty] at hmore
    exact Bool.noConfusion hmore
  exact Bool.noConfusion (hout.symm.trans (hinterested.2 hne))

/-! ## Teardown -/

/-- The event has been freed, with its descriptor, exactly if `disconnected_cb` has run once and
the request, the connection and the blocks of its two ring buffers are freed.  The `ring_buffer`
objects are left out: nothing ever frees them (`ringBuffers_leak`). -/
def TornDown (s : WebSession) : Prop :=
  s.evLive = false ↔ s.disconnects = 1 ∧ s.handlerLive = false ∧ s.connLive = false ∧
    s.readHeap.block = false ∧ s.writeHeap.block = false

/-- Neither hang-up nor an error is reported. -/
def Untroubled (t : Turn) : Prop := t.ready.mask.epollHup = false ∧ t.ready.mask.epollErr = false

/-- A live connection whose teardown has not begun. -/
structure Whole (s : WebSession) : Prop where
  steady : s.Steady
  life : s.life = born

theorem Whole.ev (h : s.Whole) : s.evLive = true := congrArg (fun l : Life => l.2.1) h.life

/-- Until its event is freed, a connection lives as it was born. -/
theorem born_turn (h : s.Steady) (hev : s.evLive = true) (hlife : s.life = born)
    (hok : s.turn t = .ok s') :
    (s'.Steady ∧ (s'.evLive = true → s'.life = born)) ∨ s'.life = ended := by
  have hkeeps := turn_keeps (X := fun s => s.evLive = true → s.life = born) h hev (t := t)
    (fun _ => hlife) (fun _ _ hlive => Bool.noConfusion hlive)
    (fun u _ _ _ hspared _ hX _ => hspared.life.trans (hX hev))
    (fun u v hspared _ _ hX hlive =>
      hspared.life.trans (hX (hspared.evLive.symm.trans hlive))) (fun _ => hlife) hok
  exact hkeeps.imp_right fun hfreed => hfreed.ended hlife

/-- What a turn without trouble makes of it. -/
theorem whole_turn (h : s.Whole) (htrouble : Untroubled t) (hok : s.turn t = .ok s') :
    s'.Whole ∨ s'.life = ended := by
  have hup : ¬ (s.activate t.ready).HungUp := by
    show ¬ (t.ready.mask.epollHup || t.ready.mask.epollErr) = true
    rw [htrouble.1, htrouble.2]
    exact Bool.false_ne_true
  have hkeeps := turn_keeps (X := fun s => s.life = born) h.steady h.ev (t := t)
    h.life (fun hup' _ => absurd hup' hup) (fun u _ _ _ hspared _ hX => hspared.life.trans hX)
    (fun u v hspared _ _ hX => hspared.life.trans hX) h.life hok
  rcases hkeeps with ⟨hsteady, hlife⟩ | hfreed
  · exact Or.inl ⟨hsteady, hlife⟩
  · exact Or.inr (hfreed.ended h.life)

/-- A turn with trouble frees the event and leaves the connection behind. -/
theorem turn_troubled (h : s.Whole) (htrouble : ¬ Untroubled t) :
    ∃ s', s.turn t = .ok s' ∧ ¬ s'.TornDown := by
  have hup : (s.activate t.ready).HungUp := by
    show (t.ready.mask.epollHup || t.ready.mask.epollErr) = true
    by_contra hnot
    rw [Bool.not_eq_true, Bool.or_eq_false_iff] at hnot
    exact htrouble hnot
  refine ⟨(s.activate t.ready).touchEv.eventFree, ?_, fun htorn => ?_⟩
  · exact (epollerDispatch_active h.ev (Or.inl hup)).trans (if_pos hup)
  · exact Bool.noConfusion ((htorn.1 rfl).2.2.1.symm.trans h.steady.conn)

/-- **Teardown is complete exactly as long as no live event reports hang-up or an error.** -/
theorem tornDown_iff (connfd now : Int) (turns : List Turn) :
    Run.Always turn TornDown (start connfd now) turns ↔
      Run.Meets turn (fun s t => s.evLive = true → Untroubled t) (start connfd now) turns := by
  have hended : ∀ {s : WebSession}, s.life = ended → s.evLive = false :=
    fun h => congrArg (fun l : Life => l.2.1) h
  refine Run.always_iff_meets (I := fun s => s.Whole ∨ s.life = ended) ?_ ?_ ?_
    (Or.inl ⟨steady_start connfd now, rfl⟩) turns
  · rintro s (hwhole | hlife)
    · refine iff_of_false (fun hev => Bool.noConfusion (hev.symm.trans hwhole.ev)) fun htorn => ?_
      exact Bool.noConfusion (htorn.2.2.1.symm.trans hwhole.steady.conn)
    · simp only [life, ended, Prod.mk.injEq] at hlife
      obtain ⟨hconn, hev, hhandler, -, hdisconnects, hread, hwrite⟩ := hlife
      exact iff_of_true hev ⟨hdisconnects, hhandler, hconn, congrArg RingBuffer.Heap.block hread,
        congrArg RingBuffer.Heap.block hwrite⟩
  · rintro s t s' (hwhole | hlife) hC hok
    · exact whole_turn hwhole (hC hwhole.ev) hok
    · rw [turn_eq_self (by rw [hended hlife]; exact Bool.false_ne_true) hok]
      exact Or.inr hlife
  · intro s t hI hC
    rw [Classical.not_imp] at hC
    rcases hI with hwhole | hlife
    · exact turn_troubled hwhole hC.2
    · exact Bool.noConfusion ((hended hlife).symm.trans hC.1)

/-- **A peer that hangs up**: the descriptor is closed, and `disconnected_cb` is never invoked. -/
theorem not_tornDown : ¬ ∀ (connfd now : Int) (turns : List Turn),
    Run.Always turn TornDown (start connfd now) turns := by
  intro h
  let turns : List Turn := [⟨Env.oneFile, ⟨⟨false, false, false, false, true⟩, none⟩⟩]
  have hrun : (Run.run turn (start 5 0) turns).map (fun s => (s.evLive, s.disconnects)) =
      .ok (false, 0) := by
    decide +kernel
  obtain ⟨s, hs, hval⟩ := Run.map_eq_ok.1 hrun
  obtain ⟨hev, hnone⟩ := Prod.mk.inj hval
  have hone := ((h 5 0 turns turns (List.prefix_refl _) s hs).1 hev).1
  rw [hnone] at hone
  exact absurd hone (by decide)

/-- **The two `ring_buffer` objects are never freed**, whether the connection is torn down or not. -/
theorem ringBuffers_leak (connfd now : Int) (turns : List Turn) :
    Run.Always turn (fun s => s.readHeap.object = true ∧ s.writeHeap.object = true)
      (start connfd now) turns := by
  let Leaks : WebSession → Prop := fun s => s.readHeap.object = true ∧ s.writeHeap.object = true
  have hspare : ∀ {u v : WebSession}, v.life = u.life → Leaks u → Leaks v := by
    intro u v hlife hu
    simp only [life, Prod.mk.injEq] at hlife
    obtain ⟨-, -, -, -, -, hread, hwrite⟩ := hlife
    exact ⟨by rw [hread]; exact hu.1, by rw [hwrite]; exact hu.2⟩
  refine Run.always_of_meets (I := fun s => (s.evLive = true → s.Steady) ∧ Leaks s)
    (C := fun _ _ => True) (fun s h => h.2) ?_ ⟨fun _ => steady_start connfd now, rfl, rfl⟩
    (Run.meets_of_forall (fun _ _ _ => trivial) _)
  rintro s t s' ⟨hsteady, hleaks⟩ - hok
  by_cases hev : s.evLive = true
  · have hkeeps := turn_keeps (X := Leaks) (hsteady hev) hev (t := t) hleaks (fun _ hX => hX)
      (fun u _ _ _ hspared _ hX => hspare hspared.life hX)
      (fun u v hspared _ _ hX => hspare hspared.life hX) hleaks hok
    rcases hkeeps with ⟨hsteady', hleaks'⟩ | hfreed
    · exact ⟨fun _ => hsteady', hleaks'⟩
    · refine ⟨fun hlive => Bool.noConfusion (hfreed.gone.2.symm.trans hlive), ?_⟩
      simp only [Freed, life, Prod.mk.injEq] at hfreed
      obtain ⟨-, -, -, -, -, hread, hwrite⟩ := hfreed
      exact ⟨by rw [hread]; exact hleaks.1, by rw [hwrite]; exact hleaks.2⟩
  · obtain rfl := turn_eq_self hev hok
    exact ⟨hsteady, hleaks⟩

end Session

end MWebServer
