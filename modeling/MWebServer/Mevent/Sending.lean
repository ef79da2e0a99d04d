import MWebServer.Mevent.Connection

/-!
# Sending (`connection_send_buffer`, `event_writable_callback`)

Whatever `send` accepts, the bytes on the socket followed by those that wait in the
write buffer stay the same (`stream`).  `Sent` is the frame both functions share;
they differ in what they do when the buffer runs empty or does not.

* `connectionSendBuffer_spec` — the answer is `0` exactly when `send` takes all.
* `connectionDisconnect_spec` — a connection is freed exactly when nothing waits.
* `eventWritableCallback_spec` — a closing connection is freed exactly then.
-/

namespace MWebServer

namespace Session

variable {H : Type}

/-! ## Live objects -/

/-- Whether the three objects are live, how often they have been freed, and what the two ring
buffers have on the heap. -/
abbrev Life := Bool × Bool × Bool × Nat × Nat × RingBuffer.Heap × RingBuffer.Heap

/-- Everything about the objects of a connection but their fields. -/
def life (s : Session H) : Life :=
  (s.connLive, s.evLive, s.handlerLive, s.frees, s.disconnects, s.readHeap, s.writeHeap)

/-- The three objects have been freed with the blocks of the ring buffers, and `disconnected_cb` has
run once more. -/
def Freed (s s' : Session H) : Prop :=
  s'.life =
    (false, false, false, s.frees + 1, s.disconnects + 1, s.readHeap.free, s.writeHeap.free)

theorem Freed.of_life {s t s' : Session H} (h : t.Freed s') (hlife : t.life = s.life) : s.Freed s' := by
  simp only [life, Prod.mk.injEq] at hlife
  obtain ⟨-, -, -, hfrees, hdisconnects, hread, hwrite⟩ := hlife
  unfold Freed at h ⊢
  rw [h, hfrees, hdisconnects, hread, hwrite]

/-- The life of a connection whose teardown has not begun. -/
def born : Life := (true, true, true, 0, 0, .new, .new)

/-- The life of a connection that has been torn down, once.  The two `ring_buffer` objects are still
on the heap. -/
def ended : Life := (false, false, false, 1, 1, ⟨false, true⟩, ⟨false, true⟩)

theorem Freed.ended {s s' : Session H} (h : s.Freed s') (hlife : s.life = born) :
    s'.life = ended := by
  simp only [life, born, Prod.mk.injEq] at hlife
  obtain ⟨-, -, -, hfrees, hdisconnects, hread, hwrite⟩ := hlife
  unfold Freed at h
  rw [h, hfrees, hdisconnects, hread, hwrite]
  rfl

/-- The connection, its event and its request are live, and nothing freed was ever touched. -/
structure Alive (s : Session H) : Prop where
  conn : s.connLive = true
  ev : s.evLive = true
  handler : s.handlerLive = true
  untouched : s.touchedDead = false

theorem Alive.touchConn {s : Session H} (h : s.Alive) : s.touchConn = s := by
  have hflag : (s.touchedDead || !s.connLive) = s.touchedDead := by simp [h.conn]
  unfold Session.touchConn
  rw [hflag]

theorem Alive.touchEv {s : Session H} (h : s.Alive) : s.touchEv = s := by
  have hflag : (s.touchedDead || !s.evLive) = s.touchedDead := by simp [h.ev]
  unfold Session.touchEv
  rw [hflag]

theorem Alive.touchHandler {s : Session H} (h : s.Alive) : s.touchHandler = s := by
  have hflag : (s.touchedDead || !s.handlerLive) = s.touchedDead := by simp [h.handler]
  unfold Session.touchHandler
  rw [hflag]

/-- What lives on after a step that frees nothing and touches nothing freed. -/
theorem Alive.of_life {s s' : Session H} (h : s.Alive) (hlife : s'.life = s.life)
    (htouched : s'.touchedDead = s.touchedDead) : s'.Alive := by
  simp only [life, Prod.mk.injEq] at hlife
  exact ⟨hlife.1.trans h.conn, hlife.2.1.trans h.ev, hlife.2.2.1.trans h.handler,
    htouched.trans h.untouched⟩

/-! ## The bytes of a connection -/

/-- The bytes that wait in the write buffer. -/
def pending (s : Session H) : List Byte := s.conn.ringBufferWrite.content

/-- The bytes on the socket, and behind them those that wait. -/
def stream (s : Session H) : List Byte := s.kernel.sent ++ s.pending

/-- A write buffer in which nothing waits stands at the beginning of its block. -/
def Rewound (s : Session H) : Prop := s.pending = [] → s.conn.ringBufferWrite.start = 0

/-- `send`, called now with all that waits, takes it. -/
def SendsAll (env : Env) (s : Session H) : Prop :=
  ∃ n, env.send s.kernel.sends = some n ∧ s.pending.length ≤ n

/-- `send`, called now, takes nothing. -/
def SendsNothing (env : Env) (s : Session H) : Prop :=
  env.send s.kernel.sends = none ∨ env.send s.kernel.sends = some 0

/-- The event waits for the socket to become writable, or does not. -/
def setOut (out : Bool) (s : Session H) : Event :=
  { s.ev with eventFlag := { s.ev.eventFlag with epollOut := out } }

/-- **The frame of sending.** -/
structure Sent (s s' : Session H) : Prop where
  conn : ∃ rb, rb.Inv ∧ s'.conn = { s.conn with ringBufferWrite := rb }
  handler : s'.handler = s.handler
  stream : s'.stream = s.stream
  files : s'.kernel.files = s.kernel.files
  sendfiles : s'.kernel.sendfiles = s.kernel.sendfiles
  life : s'.life = s.life
  touched : s'.touchedDead = s.touchedDead
  rewound : s.Rewound → s'.Rewound

theorem Sent.alive {s s' : Session H} (h : s.Sent s') (ha : s.Alive) : s'.Alive :=
  ha.of_life h.life h.touched

theorem Sent.trans {s t u : Session H} (h : s.Sent t) (h' : t.Sent u) : s.Sent u := by
  obtain ⟨rb, -, hconn⟩ := h.conn
  obtain ⟨rb', hinv', hconn'⟩ := h'.conn
  exact ⟨⟨rb', hinv', by rw [hconn', hconn]⟩, h'.handler.trans h.handler, h'.stream.trans h.stream,
    h'.files.trans h.files, h'.sendfiles.trans h.sendfiles, h'.life.trans h.life,
    h'.touched.trans h.touched, fun hs => h'.rewound (h.rewound hs)⟩

theorem readableBytes_pos_iff {s : Session H} (h : s.conn.ringBufferWrite.Inv) :
    0 < s.conn.ringBufferWrite.readableBytes ↔ s.pending ≠ [] := by
  rw [← RingBuffer.length_content h, ← List.length_pos_iff]
  exact Int.natCast_pos

/-- What `ring_buffer_get_msg` gives of the write buffer. -/
theorem getMsg_pending {s : Session H} (h : s.conn.ringBufferWrite.Inv) (hp : s.pending ≠ []) :
    s.conn.ringBufferWrite.getMsg =
      (some s.conn.ringBufferWrite.start, (s.pending.length : Int)) := by
  have hlen := RingBuffer.length_content h
  have hpos : 0 < s.pending.length := List.length_pos_iff.2 hp
  unfold RingBuffer.readableBytes at hlen
  unfold pending at hpos ⊢
  rw [RingBuffer.getMsg, if_neg (by omega), hlen]

theorem getMsg_empty {s : Session H} (h : s.conn.ringBufferWrite.Inv) (hp : s.pending = []) :
    s.conn.ringBufferWrite.getMsg = (none, 0) := by
  have hlen := RingBuffer.length_content h
  unfold pending at hp
  unfold RingBuffer.readableBytes at hlen
  rw [hp, List.length_nil] at hlen
  have hend : s.conn.ringBufferWrite.end_ = s.conn.ringBufferWrite.start := by omega
  simp [RingBuffer.getMsg, hend]

/-- The session after a call of `send` that has put `bytes` on the socket. -/
def afterSend (s : Session H) (bytes : List Byte) : Session H :=
  { s with kernel := { s.kernel with
    sent := s.kernel.sent ++ bytes, sends := s.kernel.sends + 1 } }

theorem sendPending_eq {env : Env} {s : Session H} (h : s.conn.ringBufferWrite.Inv) :
    s.sendPending env s.conn.ringBufferWrite.start s.pending.length =
      .ok ((Kernel.accepted (env.send s.kernel.sends) s.pending).1,
        s.afterSend (Kernel.accepted (env.send s.kernel.sends) s.pending).2) := by
  have hlen : (s.pending.length : Int) = _ := RingBuffer.length_content h
  have hslice : readSlice s.conn.ringBufferWrite.msg s.conn.ringBufferWrite.start
      s.pending.length = .ok s.pending := by
    obtain ⟨h1, h2, h3, h4⟩ := h
    unfold RingBuffer.readableBytes at hlen
    refine readSlice_eq_ok.2 ⟨h1, by omega, by omega, ?_⟩
    rw [hlen]
    rfl
  unfold sendPending
  rw [hslice]
  rfl

/-- The write buffer gives up the first `n` bytes that wait. -/
theorem releaseWrite_spec {s : Session H} (h : s.conn.ringBufferWrite.Inv) {n : Nat}
    (hn : n ≤ s.pending.length) :
    ∃ rb, s.releaseWrite n = .ok (s.setWrite rb) ∧ rb.Inv ∧ rb.content = s.pending.drop n ∧
      (rb.content = [] → rb.start = 0) := by
  have hlen : (s.pending.length : Int) = _ := RingBuffer.length_content h
  obtain ⟨rb, hok, hinv, -, hcont⟩ := RingBuffer.releaseBytes_spec h (Int.natCast_nonneg n)
    (by omega)
  exact ⟨rb, by rw [releaseWrite, hok]; rfl, hinv, by rw [hcont, Int.toNat_natCast]; rfl,
    RingBuffer.releaseBytes_start hok hinv⟩

/-- What is sent and given up leaves the stream as it was. -/
theorem sent_afterSend {s : Session H} {n : Nat} {rb : RingBuffer} (hinv : rb.Inv)
    (hcont : rb.content = s.pending.drop n) (hstart : rb.content = [] → rb.start = 0) :
    s.Sent ((s.afterSend (s.pending.take n)).setWrite rb) := by
  refine ⟨⟨rb, hinv, rfl⟩, rfl, ?_, rfl, rfl, rfl, rfl, fun _ => hstart⟩
  show (s.kernel.sent ++ s.pending.take n) ++ rb.content = s.kernel.sent ++ s.pending
  rw [hcont, List.append_assoc, List.take_append_drop]

/-- A call of `send` that takes nothing. -/
theorem sent_nothing {s : Session H} (h : s.conn.ringBufferWrite.Inv) : s.Sent (s.afterSend []) :=
  ⟨⟨_, h, rfl⟩, rfl, by simp [stream, pending, afterSend], rfl, rfl, rfl, rfl, id⟩

theorem sent_refl {s : Session H} (h : s.conn.ringBufferWrite.Inv) : s.Sent s :=
  ⟨⟨_, h, rfl⟩, rfl, rfl, rfl, rfl, rfl, rfl, id⟩

/-- The three ways in which `send` can go: nothing is taken, a part, or all. -/
theorem accepted_cases (room : Option Nat) {data : List Byte} (hne : data ≠ []) :
    ((Kernel.accepted room data).1 ≤ 0 ∧ (Kernel.accepted room data).2 = [] ∧
        (room = none ∨ room = some 0) ∧ ¬ ∃ n, room = some n ∧ data.length ≤ n) ∨
      (∃ n : Nat, 0 < n ∧ n < data.length ∧ Kernel.accepted room data = ((n : Int), data.take n) ∧
        ¬ (room = none ∨ room = some 0) ∧ ¬ ∃ n, room = some n ∧ data.length ≤ n) ∨
      (Kernel.accepted room data = ((data.length : Int), data.take data.length) ∧
        ∃ n, room = some n ∧ data.length ≤ n) := by
  have hpos : 0 < data.length := List.length_pos_iff.2 hne
  cases room with
  | none => exact Or.inl ⟨by simp [Kernel.accepted], rfl, Or.inl rfl, by simp⟩
  | some n =>
    by_cases hall : data.length ≤ n
    · exact Or.inr (Or.inr ⟨by rw [Kernel.accepted_all hall, List.take_length], n, rfl, hall⟩)
    · have hmin : min (n : Int) data.length = n := min_eq_left (by omega)
      have hnot : ¬ ∃ k, some n = some k ∧ data.length ≤ k := by
        rintro ⟨k, hk, hle⟩
        cases hk
        exact hall hle
      by_cases h0 : n = 0
      · exact Or.inl ⟨by simp [Kernel.accepted, h0], by simp [Kernel.accepted, h0],
          Or.inr (by rw [h0]), hnot⟩
      · refine Or.inr (Or.inl ⟨n, by omega, by omega, by simp only [Kernel.accepted, hmin], ?_, hnot⟩)
        simp [h0]

/-- `event_enable_writing` and `event_disable_writing` on a live connection. -/
theorem sent_enableWriting {s : Session H} (h : s.conn.ringBufferWrite.Inv) (ha : s.Alive) :
    s.Sent s.eventEnableWriting ∧ s.eventEnableWriting.pending = s.pending ∧
      s.eventEnableWriting.ev = s.setOut true := by
  unfold eventEnableWriting
  simp only [ha.touchConn, ha.touchEv]
  exact ⟨⟨⟨_, h, rfl⟩, rfl, rfl, rfl, rfl, rfl, rfl, id⟩, rfl, rfl⟩

theorem sent_disableWriting {s : Session H} (h : s.conn.ringBufferWrite.Inv) (ha : s.Alive) :
    s.Sent s.eventDisableWriting ∧ s.eventDisableWriting.pending = s.pending ∧
      s.eventDisableWriting.ev = s.setOut false := by
  unfold eventDisableWriting
  simp only [ha.touchConn, ha.touchEv]
  exact ⟨⟨⟨_, h, rfl⟩, rfl, rfl, rfl, rfl, rfl, rfl, id⟩, rfl, rfl⟩

/-! ## `connection_send_buffer` -/

/-- **`connection_send_buffer` answers `0` exactly when `send` takes all that waits**, and
otherwise leaves something waiting.  It then waits for the socket, if `send` took anything. -/
theorem connectionSendBuffer_spec (env : Env) {s : Session H} (h : s.conn.ringBufferWrite.Inv)
    (ha : s.Alive) (hp : s.pending ≠ []) :
    ∃ ret s', s.connectionSendBuffer env = .ok (ret, s') ∧ s.Sent s' ∧
      ((ret = 0 ∧ s.SendsAll env ∧ s'.pending = [] ∧ s'.ev = s.ev) ∨
        (ret ≠ 0 ∧ ¬ s.SendsAll env ∧ s'.pending ≠ [] ∧
          ((s.SendsNothing env ∧ s'.ev = s.ev) ∨
            (¬ s.SendsNothing env ∧ s'.ev = s.setOut true)))) := by
  have hpos : 0 < s.pending.length := List.length_pos_iff.2 hp
  have hlen : (s.pending.length : Int) > 0 := by omega
  unfold connectionSendBuffer
  simp only [ha.touchConn, getMsg_pending h hp]
  rw [if_pos hlen, sendPending_eq h, Run.ok_bind]
  simp only
  rcases accepted_cases (env.send s.kernel.sends) hp with
    ⟨hle, hnone, hzero, hnot⟩ | ⟨n, h0, hlt, hacc, hsome, hnot⟩ | ⟨hacc, hall⟩
  · -- nothing is taken
    refine ⟨-1, s.afterSend [], ?_, sent_nothing h,
      Or.inr ⟨by decide, hnot, hp, Or.inl ⟨hzero, rfl⟩⟩⟩
    have hnpos : ¬ (Kernel.accepted (env.send s.kernel.sends) s.pending).1 > 0 := by omega
    unfold sendBufferDone
    rw [hnone, if_neg hnpos]
    exact ite_self _
  · -- a part is taken, and the rest is left to the event loop
    obtain ⟨rb, hrel, hinv, hcont, hstart⟩ := releaseWrite_spec
      (s := s.afterSend (s.pending.take n)) h (n := n) hlt.le
    have hsent := sent_afterSend (s := s) hinv hcont hstart
    have hmore : rb.content ≠ [] := by
      rw [hcont]
      exact mt List.drop_eq_nil_iff.1 (Nat.not_le_of_lt hlt)
    obtain ⟨henable, hpending, hev⟩ := sent_enableWriting
      (s := (s.afterSend (s.pending.take n)).setWrite rb) hinv (hsent.alive ha)
    refine ⟨1, _, ?_, hsent.trans henable, Or.inr ⟨by decide, hnot, by rw [hpending]; exact hmore,
      Or.inr ⟨hsome, hev⟩⟩⟩
    unfold sendBufferDone
    rw [hacc, if_neg (by omega), if_pos (by omega), hrel, Run.ok_bind, if_pos (by omega)]
    rfl
  · -- all is taken
    obtain ⟨rb, hrel, hinv, hcont, hstart⟩ := releaseWrite_spec
      (s := s.afterSend (s.pending.take s.pending.length)) h (n := s.pending.length) le_rfl
    have hsent := sent_afterSend (s := s) hinv hcont hstart
    refine ⟨0, _, ?_, hsent, Or.inl ⟨rfl, hall, hcont.trans (List.drop_length), rfl⟩⟩
    unfold sendBufferDone
    rw [hacc, if_neg (by omega), if_pos (by omega), hrel, Run.ok_bind, if_neg (by omega)]
    rfl

/-! ## Closing -/

/-- `connection_free`, and the write behind it. -/
theorem touched_of_connectionFree (s : Session H) (state : ConnState) :
    (s.connectionFree.setConnState state).touchedDead = true := by
  simp [setConnState, touchConn, connectionFree]

/-- Nothing is read, queued or sent. -/
structure Idle (s s' : Session H) : Prop where
  read : s'.conn.ringBufferRead = s.conn.ringBufferRead
  write : s'.conn.ringBufferWrite = s.conn.ringBufferWrite
  sent : s'.kernel.sent = s.kernel.sent

theorem Idle.trans {s t u : Session H} (h : s.Idle t) (h' : t.Idle u) : s.Idle u :=
  ⟨h'.read.trans h.read, h'.write.trans h.write, h'.sent.trans h.sent⟩

theorem Idle.pending {s s' : Session H} (h : s.Idle s') : s'.pending = s.pending :=
  congrArg RingBuffer.content h.write

theorem Idle.stream {s s' : Session H} (h : s.Idle s') : s'.stream = s.stream :=
  congrArg₂ (· ++ ·) h.sent h.pending

/-- **`connection_disconnect` frees the connection exactly when nothing waits**, and then
writes to it.  Otherwise it waits for the socket. -/
theorem connectionDisconnect_spec {s : Session H} (h : s.conn.ringBufferWrite.Inv) (ha : s.Alive) :
    s.Idle s.connectionDisconnect ∧
      ((s.pending = [] ∧ s.connectionDisconnect.touchedDead = true ∧
          s.Freed s.connectionDisconnect) ∨
        (s.pending ≠ [] ∧ s.connectionDisconnect.life = s.life ∧
          s.connectionDisconnect.touchedDead = s.touchedDead ∧
          s.connectionDisconnect.conn.state = .closing ∧
          s.connectionDisconnect.ev = s.setOut true)) := by
  have ha' : (s.setConnState .closing).Alive := by
    unfold setConnState
    simp only [ha.touchConn]
    exact ha.of_life rfl rfl
  have hwrite : (s.setConnState .closing).conn.ringBufferWrite = s.conn.ringBufferWrite := rfl
  unfold connectionDisconnect
  simp only [hwrite]
  by_cases hp : s.pending = []
  · have hnot : ¬ s.conn.ringBufferWrite.readableBytes > 0 :=
      fun hpos => (readableBytes_pos_iff h).1 hpos hp
    rw [if_neg hnot]
    exact ⟨⟨rfl, rfl, rfl⟩, Or.inl ⟨hp, touched_of_connectionFree _ _, rfl⟩⟩
  · have hpos : s.conn.ringBufferWrite.readableBytes > 0 := (readableBytes_pos_iff h).2 hp
    rw [if_pos hpos]
    have htouched : (s.setConnState .closing).eventEnableWriting.touchedDead = s.touchedDead := by
      unfold eventEnableWriting
      simp only [ha'.touchConn, ha'.touchEv]
      exact ha'.untouched.trans ha.untouched.symm
    exact ⟨⟨rfl, rfl, rfl⟩, Or.inr ⟨hp, rfl, htouched, rfl, rfl⟩⟩

/-! ## `event_writable_callback` -/

/-- What `event_writable_callback` makes of a live connection. -/
inductive Written (env : Env) (s s' : Session H) : Prop
  /-- A closing connection has nothing left to send. -/
  | freed (closing : s.conn.state = .closing) (waits : s.pending ≠ []) (all : s.SendsAll env)
      (touched : s'.touchedDead = true) (freed : s.Freed s') (gone : s'.kernel.sent = s.stream)
      (out : s'.ev.eventFlag.epollOut = false)
  /-- Another connection has nothing left to send. -/
  | drained (stays : s.conn.state ≠ .closing) (waits : s.pending ≠ []) (all : s.SendsAll env)
      (sent : s.Sent s') (empty : s'.pending = []) (ev : s'.ev = s.setOut false)
  /-- Nothing waited, or something still does. -/
  | kept (more : ¬ (s.pending ≠ [] ∧ s.SendsAll env)) (sent : s.Sent s')
      (waits : s'.pending = [] ↔ s.pending = []) (ev : s'.ev = s.ev)

/-- **`event_writable_callback` frees a closing connection exactly when `send` takes all that
waits**; the assignment that follows in the source then goes to freed memory. -/
theorem eventWritableCallback_spec (env : Env) {s : Session H} (h : s.conn.ringBufferWrite.Inv)
    (ha : s.Alive) : ∃ s', s.eventWritableCallback env = .ok s' ∧ s.Written env s' := by
  by_cases hp : s.pending = []
  · refine ⟨s, ?_, .kept (fun hc => hc.1 hp) (sent_refl h) Iff.rfl rfl⟩
    unfold eventWritableCallback
    simp only [ha.touchConn, getMsg_empty h hp]
    rfl
  have hpos : 0 < s.pending.length := List.length_pos_iff.2 hp
  have hlen : (s.pending.length : Int) > 0 := by omega
  unfold eventWritableCallback
  simp only [ha.touchConn, getMsg_pending h hp]
  rw [if_pos hlen, sendPending_eq h, Run.ok_bind]
  simp only
  rcases accepted_cases (env.send s.kernel.sends) hp with
    ⟨hle, hnone, -, hnot⟩ | ⟨n, h0, hlt, hacc, -, hnot⟩ | ⟨hacc, hall⟩
  · refine ⟨s.afterSend [], ?_, .kept (fun hc => hnot hc.2) (sent_nothing h) Iff.rfl rfl⟩
    unfold writableDone
    rw [hnone, if_neg (by omega)]
    rfl
  · obtain ⟨rb, hrel, hinv, hcont, hstart⟩ := releaseWrite_spec
      (s := s.afterSend (s.pending.take n)) h (n := n) hlt.le
    have hsent := sent_afterSend (s := s) hinv hcont hstart
    have hmore : ((s.afterSend (s.pending.take n)).setWrite rb).pending ≠ [] := by
      show rb.content ≠ []
      rw [hcont]
      exact mt List.drop_eq_nil_iff.1 (Nat.not_le_of_lt hlt)
    have hreadable := (readableBytes_pos_iff
      (s := (s.afterSend (s.pending.take n)).setWrite rb) hinv).2 hmore
    refine ⟨_, ?_, .kept (fun hc => hnot hc.2) hsent (iff_of_false hmore hp) rfl⟩
    unfold writableDone
    rw [hacc, if_pos (by omega), hrel, Run.ok_bind]
    exact if_neg hreadable.ne'
  · obtain ⟨rb, hrel, hinv, hcont, hstart⟩ := releaseWrite_spec
      (s := s.afterSend (s.pending.take s.pending.length)) h (n := s.pending.length) le_rfl
    have hsent := sent_afterSend (s := s) hinv hcont hstart
    have hcont : rb.content = [] := hcont.trans (List.drop_length)
    have hempty : ((s.afterSend (s.pending.take s.pending.length)).setWrite rb
        ).conn.ringBufferWrite.readableBytes = 0 := by
      show rb.readableBytes = 0
      rw [← RingBuffer.length_content hinv, hcont]
      rfl
    obtain ⟨hdisable, hpending, hev⟩ := sent_disableWriting
      (s := (s.afterSend (s.pending.take s.pending.length)).setWrite rb) hinv (hsent.alive ha)
    have hstate : ((s.afterSend (s.pending.take s.pending.length)).setWrite rb
        ).eventDisableWriting.conn.state = s.conn.state := rfl
    unfold writableDone
    rw [hacc, if_pos (by omega), hrel, Run.ok_bind]
    simp only
    rw [if_pos hempty, hstate]
    by_cases hclosing : s.conn.state = .closing
    · refine ⟨_, if_pos hclosing, .freed hclosing hp hall (touched_of_connectionFree _ _) rfl ?_ rfl⟩
      show s.kernel.sent ++ s.pending.take s.pending.length = s.kernel.sent ++ s.pending
      rw [List.take_length]
    · exact ⟨_, if_neg hclosing, .drained hclosing hp hall (hsent.trans hdisable)
        (hpending.trans hcont) hev⟩

/-! ## `read_buffer` -/

/-- `read_buffer` changes the read buffer of a live connection, and nothing else; it returns
the number of bytes that were delivered. -/
theorem readBuffer_frame {s s' : Session H} {fresh : Nat → Byte} {incoming : Option (List Byte)}
    {nread : Int} (ha : s.Alive) (hok : s.readBuffer fresh incoming = .ok (nread, s')) :
    (∃ rb, s' = s.setRead rb) ∧ nread = incoming.elim (-1) fun data => (data.length : Int) := by
  unfold readBuffer at hok
  simp only [ha.touchConn] at hok
  cases incoming with
  | none =>
    obtain ⟨rfl, rfl⟩ := Prod.mk.inj (Except.ok.inj hok)
    exact ⟨⟨_, rfl⟩, rfl⟩
  | some data =>
    simp only at hok
    split_ifs at hok with hnil
    · obtain ⟨rfl, rfl⟩ := Prod.mk.inj (Except.ok.inj hok)
      exact ⟨⟨_, rfl⟩, (congrArg Nat.cast hnil).symm⟩
    · obtain ⟨msg, -, hok⟩ := Run.bind_eq_ok.1 hok
      obtain ⟨rfl, rfl⟩ := Prod.mk.inj (Except.ok.inj hok)
      exact ⟨⟨_, rfl⟩, rfl⟩
    · obtain ⟨msg, -, hok⟩ := Run.bind_eq_ok.1 hok
      obtain ⟨rb, -, hok⟩ := Run.bind_eq_ok.1 hok
      obtain ⟨rfl, rfl⟩ := Prod.mk.inj (Except.ok.inj hok)
      exact ⟨⟨_, rfl⟩, rfl⟩

end Session

end MWebServer
