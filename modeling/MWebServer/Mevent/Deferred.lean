import MWebServer.Mevent.Sending

/-!
# Deferred sending

What does not go out at once waits in the write buffer with `EPOLLOUT` enabled, and
every time the socket becomes writable `event_writable_callback` sends what it takes.

* `eventWritableCallback_moves` — a call puts on the socket what it takes from the beginning of
  the buffer, as much as `send` answers.
* `deferred_exact` — after any sequence of calls the bytes sent are as many as `send` has taken in
  all, the others wait, and the last byte ends it: `EPOLLOUT` goes, and with it a connection that
  is closing.
-/

namespace MWebServer

namespace Session

variable {H : Type} {s s' s₀ : Session H}

/-- A call of `event_writable_callback`, with what `send` answers it (`none` for `-1`); none is
made for a connection that is freed. -/
def writableStep (env : Env) (s : Session H) (room : Option Nat) : Except Fault (Session H) :=
  if s.connLive = true then s.eventWritableCallback { env with send := fun _ => room } else .ok s

/-! ## One call -/

/-- The socket has taken the first `n` of the bytes that waited. -/
structure Moved (s s' : Session H) (n : Nat) : Prop where
  sent : s'.kernel.sent = s.kernel.sent ++ s.pending.take n
  pending : s'.pending = s.pending.drop n

/-- What is done behind `send`, whether the connection is freed or not. -/
theorem writableDone_moves {n : Nat} (h : s.conn.ringBufferWrite.Inv) (hn : n ≤ s.pending.length) :
    ∃ s', (s.afterSend (s.pending.take n)).writableDone n = .ok s' ∧ s.Moved s' n := by
  unfold writableDone
  by_cases hpos : (n : Int) > 0
  · obtain ⟨rb, hrel, -, hcont, -⟩ := releaseWrite_spec (s := s.afterSend (s.pending.take n)) h hn
    have hmoved : s.Moved ((s.afterSend (s.pending.take n)).setWrite rb) n := ⟨rfl, hcont⟩
    rw [if_pos hpos, hrel, Run.ok_bind]
    simp only
    split_ifs <;> exact ⟨_, rfl, hmoved.sent, hmoved.pending⟩
  · obtain rfl : n = 0 := by omega
    exact ⟨_, if_neg hpos, rfl, rfl⟩

/-- **`event_writable_callback` lets the socket take as much of what waits as it has room for**. -/
theorem eventWritableCallback_moves (env : Env) (h : s.conn.ringBufferWrite.Inv) :
    ∃ s', s.eventWritableCallback env = .ok s' ∧
      s.Moved s' ((env.send s.kernel.sends).getD 0) := by
  have hconn : s.touchConn.conn.ringBufferWrite = s.conn.ringBufferWrite := rfl
  unfold eventWritableCallback
  simp only [hconn]
  by_cases hp : s.pending = []
  · rw [getMsg_empty h hp]
    refine ⟨_, rfl, ?_, ?_⟩
    · rw [hp, List.take_nil, List.append_nil]
      rfl
    · rw [hp, List.drop_nil]
      exact hp
  · have hpos : 0 < s.pending.length := List.length_pos_iff.2 hp
    rw [getMsg_pending h hp]
    simp only
    rw [if_pos (by omega), show s.touchConn.sendPending env s.conn.ringBufferWrite.start
      s.pending.length = _ from sendPending_eq (s := s.touchConn) h, Run.ok_bind]
    show ∃ s', (s.touchConn.afterSend (Kernel.accepted (env.send s.kernel.sends) s.pending).2).writableDone
      (Kernel.accepted (env.send s.kernel.sends) s.pending).1 = .ok s' ∧ _
    cases env.send s.kernel.sends with
    | none =>
      refine ⟨_, if_neg (fun hsome : (-1 : Int) > 0 => absurd hsome (by decide)), ?_, rfl⟩
      rw [Option.getD_none, List.take_zero]
      rfl
    | some n =>
      -- `send` takes no more than it is offered
      obtain ⟨s', hs', hsent, hwaits⟩ := writableDone_moves (s := s.touchConn) h (min_le_right n _)
      refine ⟨s', ?_, hsent.trans (by rw [← List.take_eq_take_min]; rfl),
        hwaits.trans (by rw [← List.drop_eq_drop_min]; rfl)⟩
      rw [← List.take_eq_take_min, Nat.cast_min] at hs'
      exact hs'

/-! ## Sequences of calls -/

/-- How many bytes the calls have been allowed to send, all in all. -/
def taken (rooms : List (Option Nat)) : Nat := (rooms.map (·.getD 0)).sum

/-- Since `s₀`, the socket has had room for `n` bytes.  The event of a connection that is freed is
left as it was when it was freed. -/
structure SentSince (s₀ s : Session H) (n : Nat) : Prop extends s₀.Moved s n where
  out : s.ev.eventFlag.epollOut = false ↔ s₀.pending.length ≤ n
  frees : s.frees = s₀.frees + if s₀.pending.length ≤ n ∧ s₀.conn.state = .closing then 1 else 0

/-- What holds between two calls. -/
structure Deferring (s₀ s : Session H) (n : Nat) : Prop where
  since : s₀.SentSince s n
  ready : s.connLive = true → s.Alive ∧ s.conn.ringBufferWrite.Inv ∧ s.conn.state = s₀.conn.state
  gone : s.connLive = false → s₀.pending.length ≤ n

theorem Moved.trans {t : Session H} {m n : Nat} (h : s₀.Moved s m) (h' : s.Moved t n) :
    s₀.Moved t (m + n) :=
  ⟨by rw [h'.sent, h.sent, h.pending, List.append_assoc, ← List.take_add],
    by rw [h'.pending, h.pending, List.drop_drop]⟩

/-- What waited is sent exactly when nothing waits. -/
theorem Moved.pending_eq_nil {n : Nat} (h : s₀.Moved s n) :
    s.pending = [] ↔ s₀.pending.length ≤ n := by
  rw [h.pending]
  exact List.drop_eq_nil_iff

/-- **One call keeps the account.** -/
theorem Deferring.step {n : Nat} (h : Deferring s₀ s n) (env : Env) (room : Option Nat) :
    ∃ s', s.writableStep env room = .ok s' ∧ Deferring s₀ s' (n + room.getD 0) := by
  by_cases hlive : s.connLive = true
  · obtain ⟨ha, hinv, hstate⟩ := h.ready hlive
    obtain ⟨s', hok, hmoved⟩ :=
      eventWritableCallback_moves { env with send := fun _ => room } hinv
    obtain ⟨t, hok', hw⟩ := eventWritableCallback_spec { env with send := fun _ => room } hinv ha
    obtain rfl := Run.ok_unique hok hok'
    have hall := h.since.trans hmoved
    have hdone := hall.pending_eq_nil
    have hbefore := h.since.pending_eq_nil
    have hframe : s.Sent s' → s'.connLive = true ∧ (s'.connLive = true → s'.Alive ∧
        s'.conn.ringBufferWrite.Inv ∧ s'.conn.state = s₀.conn.state) ∧ s'.frees = s.frees := by
      intro hs
      obtain ⟨rb, hrb, hconn⟩ := hs.conn
      exact ⟨(hs.alive ha).conn, fun _ => ⟨hs.alive ha, by rw [hconn]; exact hrb,
        by rw [hconn]; exact hstate⟩, congrArg (fun l => l.2.2.2.1) hs.life⟩
    refine ⟨s', by rw [writableStep, if_pos hlive, hok], ?_⟩
    cases hw with
    | freed hclosing hwaits hsends _ hlife _ hout =>
      have hfrees : s'.frees = s.frees + 1 := congrArg (fun l => l.2.2.2.1) hlife
      have hdead : s'.connLive = false := congrArg Prod.fst hlife
      obtain ⟨k, hk, hle⟩ := hsends
      obtain rfl : room = some k := hk
      have hend : s₀.pending.length ≤ n + (some k).getD 0 :=
        hdone.1 (by rw [hmoved.pending]; exact List.drop_eq_nil_of_le hle)
      refine ⟨⟨hall, iff_of_true hout hend, ?_⟩, fun hconn => ?_, fun _ => hend⟩
      · rw [hfrees, h.since.frees, if_neg (fun hc => hwaits (hbefore.2 hc.1)),
          if_pos ⟨hend, hstate ▸ hclosing⟩]
      · rw [hdead] at hconn
        cases hconn
    | drained hstays hwaits _ hs hempty hev =>
      obtain ⟨hlive', hready, hfrees⟩ := hframe hs
      have hend := hdone.1 hempty
      refine ⟨⟨hall, iff_of_true (by rw [hev]; rfl) hend, ?_⟩, hready, fun _ => hend⟩
      rw [hfrees, h.since.frees, if_neg (fun hc => hwaits (hbefore.2 hc.1)),
        if_neg (fun hc => hstays (hstate ▸ hc.2))]
    | kept _ hs hwaits hev =>
      obtain ⟨hlive', hready, hfrees⟩ := hframe hs
      have hsame := hdone.symm.trans (hwaits.trans hbefore)
      refine ⟨⟨hall, ?_, ?_⟩, hready, fun hdead => ?_⟩
      · rw [hev, hsame]
        exact h.since.out
      · rw [hfrees, h.since.frees]
        simp only [hsame]
      · rw [hlive'] at hdead
        cases hdead
  · -- the connection is freed, and everything is sent
    have hend := h.gone (Bool.eq_false_iff.2 hlive)
    have hend' := hend.trans (Nat.le_add_right n (room.getD 0))
    refine ⟨s, by rw [writableStep, if_neg hlive], ⟨⟨?_, ?_⟩, ?_, ?_⟩, h.ready, fun _ => hend'⟩
    · rw [h.since.sent, List.take_of_length_le hend, List.take_of_length_le hend']
    · rw [h.since.pending, List.drop_eq_nil_of_le hend, List.drop_eq_nil_of_le hend']
    · exact h.since.out.trans (iff_of_true hend hend')
    · rw [h.since.frees]
      simp only [hend, hend']

theorem Deferring.run {n : Nat} (h : Deferring s₀ s n) (env : Env) (rooms : List (Option Nat)) :
    ∃ s', Run.run (writableStep env) s rooms = .ok s' ∧ Deferring s₀ s' (n + taken rooms) := by
  induction rooms generalizing s n with
  | nil => exact ⟨s, rfl, h⟩
  | cons room rooms ih =>
    obtain ⟨t, ht, hstep⟩ := h.step env room
    obtain ⟨s', hs', hrun⟩ := ih hstep
    refine ⟨s', by rw [Run.run_cons, ht, Run.ok_bind, hs'], ?_⟩
    rw [taken, List.map_cons, List.sum_cons, ← Nat.add_assoc]
    exact hrun

/-- **Deferred sending is exact**, over every sequence of calls of `event_writable_callback` and
whatever `send` answers them.  The bytes sent are the first of those that waited at the beginning,
as many as `send` has answered in all, and the others wait; `EPOLLOUT` is off, and the connection
freed if it is closing, exactly from the call on that sends the last of them. -/
theorem deferred_exact (env : Env) (s₀ : Session H) (hlive : s₀.Alive)
    (hout : s₀.ev.eventFlag.epollOut = true) (hinv : s₀.conn.ringBufferWrite.Inv)
    (hwaits : s₀.conn.ringBufferWrite.start < s₀.conn.ringBufferWrite.end_)
    (rooms : List (Option Nat)) :
    ∃ s, Run.run (writableStep env) s₀ rooms = .ok s ∧ s₀.SentSince s (taken rooms) := by
  have hpos : 0 < s₀.pending.length := by
    rw [List.length_pos_iff, ← readableBytes_pos_iff hinv, RingBuffer.readableBytes]
    omega
  have hfirst : Deferring s₀ s₀ 0 := by
    refine ⟨⟨⟨(List.append_nil _).symm, rfl⟩, ?_, ?_⟩, fun _ => ⟨hlive, hinv, rfl⟩, fun hdead => ?_⟩
    · exact iff_of_false (by rw [hout]; decide) (by omega)
    · rw [if_neg (by omega)]
      rfl
    · rw [hlive.conn] at hdead
      cases hdead
  obtain ⟨s, hs, h⟩ := hfirst.run env rooms
  rw [Nat.zero_add] at h
  exact ⟨s, hs, h.since⟩

/-- A system in which nothing happens by itself. -/
def quiet : Env where
  rootdirFd := 3
  connectTimeLimit := 10
  timeoutKeepAlive := 60
  root := fun _ => none
  now := 0
  date := fun _ => []
  send := fun _ => none
  sendfile := fun _ => none
  fresh := stale
  beyond := []

/-- Two bytes wait on a connection that is closing. -/
def twoWaiting : Session Unit where
  conn := ⟨4, .new, { msg := str "ab", cap := 2, start := 0, end_ := 2 }, .closing, 0⟩
  ev := ⟨4, ⟨true, true, true, false, false⟩, ⟨false, false, true, false, false⟩, true⟩
  handler := ()
  connLive := true
  evLive := true
  handlerLive := true
  readHeap := .new
  writeHeap := .new
  frees := 0
  disconnects := 0
  touchedDead := false
  kernel := ⟨[], 0, 0, 4, fun _ => none, [], []⟩

/-- A byte, a failure, and the other byte. -/
theorem deferred_exact_twoWaiting :
    ∃ s, Run.run (writableStep quiet) twoWaiting [some 1, none, some 1] = .ok s ∧
      s.kernel.sent = str "ab" ∧ s.ev.eventFlag.epollOut = false ∧ s.frees = 1 := by
  obtain ⟨s, hs, hsince⟩ := deferred_exact quiet twoWaiting ⟨rfl, rfl, rfl, rfl⟩ rfl
    ⟨by decide, by decide, by decide, rfl⟩ (by decide) [some 1, none, some 1]
  exact ⟨s, hs, hsince.sent, hsince.out.2 (by decide), hsince.frees⟩

end Session

end MWebServer
