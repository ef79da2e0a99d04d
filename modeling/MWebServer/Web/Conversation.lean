import MWebServer.Web.Answer

/-!
# A conversation

A client sends one request after another on one connection, each in one piece.  Whatever is
asked for, the server says the replies, one behind another, up to the first request that
does not ask to stay; then it closes the connection and hears nothing more.

* `turn_answers` — one turn.
* `run_answers` — a run of turns from a connection at rest.
* `conversation` — a run from the start.
-/

namespace MWebServer

namespace Ask

/-- The turn in which the request arrives. -/
def turn (a : Ask) : Session.Turn := ⟨a.env, ⟨a.mask, some a.bytes⟩⟩

/-- The requests that are answered: those up to the first that does not ask to stay. -/
def answered : List Ask → List Ask
  | [] => []
  | a :: asks => a :: if a.stays then answered asks else []

/-- What is said. -/
def replies (time : Int) (asks : List Ask) : List Byte :=
  (answered asks).flatMap fun a => (a.reply time).bytes

end Ask

namespace Session

variable {s s' : WebSession} {connfd time : Int}

/-- Behind the readable side there is nothing to send. -/
theorem eventHandlerOut_empty (env : Env) (hw : s.conn.ringBufferWrite.Inv) (hp : s.pending = []) :
    ∃ s', s.eventHandlerOut env = .ok s' ∧ s'.conn = s.conn ∧ s'.ev = s.ev ∧ s'.life = s.life ∧
      s'.kernel = s.kernel := by
  unfold eventHandlerOut
  simp only
  split_ifs
  · have hmsg := getMsg_empty hw hp
    unfold eventWritableCallback
    simp only
    rw [show s.touchEv.touchConn.conn.ringBufferWrite.getMsg = _ from hmsg]
    exact ⟨_, rfl, rfl, rfl, rfl, rfl⟩
  · exact ⟨_, rfl, rfl, rfl, rfl, rfl⟩

/-- The connection rests, and its event waits for what can be read. -/
structure Listens (time : Int) (s : WebSession) : Prop where
  steady : s.Steady
  rests : s.Rests
  resting : s.Resting time
  epollIn : s.ev.eventFlag.epollIn = true

/-- A request that arrives. -/
theorem Listens.receives {a : Ask} (h : s.Listens time) (ready : Ready) :
    ∃ tail, (s.activate ready).readBuffer a.env.fresh (some a.bytes) =
        .ok ((a.bytes.length : Int), (s.activate ready).setRead (held a.bytes tail)) ∧
      ((s.activate ready).setRead (held a.bytes tail)).Receives time a.bytes tail := by
  have ha := (h.steady.activate ready).alive h.rests.ev
  obtain ⟨block, hn⟩ := h.resting.read
  exact ⟨_, readBuffer_held (s := s.activate ready) ha hn a.bytes_ne_nil, ha.of_life rfl rfl,
    h.rests.open_, h.resting.timeOnConnect, rfl, h.steady.write,
    h.resting.writeEmpty h.steady.write h.rests.sent⟩

/-- **One turn**: the reply is said, and the connection listens on if the request asks for it. -/
theorem turn_answers {a : Ask} (h : s.Listens time) (ha : a.Served time) :
    ∃ s', s.turn a.turn = .ok s' ∧ s'.pending = [] ∧
      s'.kernel.sent = s.kernel.sent ++ (a.reply time).bytes ∧
      if a.stays then s'.Listens time else s.Freed s' := by
  obtain ⟨tail, hread, hreceives⟩ := h.receives (a := a) a.turn.ready
  obtain ⟨u, hok, hempty, hsent, hkept⟩ := httpRequest_answers hreceives ha
  obtain ⟨-, -, hwrite, -⟩ := httpRequest_outcome hreceives.write hreceives.alive hok
  obtain ⟨s', hout, hconn, hev, hlife, hkernel⟩ := eventHandlerOut_empty a.env hwrite hempty
  have hinv : s.conn.ringBufferRead.Inv := by
    obtain ⟨n, hn⟩ := h.resting.read
    rw [hn]
    exact held_inv [] n
  have hsturdy : s.Sturdy := fun _ => ⟨h.steady, hinv⟩
  have hcalls : s.Calls a.turn ((s.activate a.turn.ready).setRead (held a.bytes tail)) := by
    refine ⟨h.rests.ev, ?_, ?_, _, hread, ?_⟩
    · show ¬ (a.mask.epollHup || a.mask.epollErr) = true
      rw [ha.calm.1, ha.calm.2]
      decide
    · show (s.ev.eventFlag.epollIn && a.mask.epollIn || _) = true
      rw [h.epollIn, ha.heard]
      rfl
    · have := List.length_pos_iff.2 a.bytes_ne_nil
      omega
  have hturn : s.turn a.turn = .ok s' := by
    rw [hcalls.turn_eq hsturdy]
    show _ >>= _ = _
    rw [show Turn.env a.turn = a.env from rfl, hok]
    exact hout
  refine ⟨s', hturn, ?_, ?_, ?_⟩
  · unfold pending
    rw [hconn]
    exact hempty
  · rw [hkernel]
    exact hsent
  · split_ifs at hkept with hstays
    · rw [if_pos hstays]
      obtain ⟨hlife', hstate', hev'⟩ := hkept
      have hlives : s'.life = s.life := hlife.trans hlife'
      simp only [life, Prod.mk.injEq] at hlives
      have hconnLive : s'.connLive = true := hlives.1.trans h.rests.conn
      have hopen : s'.conn.state = .open := by
        rw [hconn, hstate']
        exact h.rests.open_
      rcases resting_turn h.steady (fun _ => h.resting) hturn with ⟨hsteady, hresting⟩ | hgone
      · refine ⟨hsteady, ⟨hconnLive, hlives.2.1.trans h.rests.ev, hopen, ?_⟩, hresting hopen, ?_⟩
        · unfold pending
          rw [hconn]
          exact hempty
        · rw [hev, hev']
          exact h.epollIn
      · exact Bool.noConfusion (hgone.1.symm.trans hconnLive)
    · rw [if_neg hstays]
      exact hlife.trans hkept

/-! ## A run -/

/-- The connection has been torn down, once. -/
def Closed (s : WebSession) : Prop :=
  s.connLive = false ∧ s.evLive = false ∧ s.handlerLive = false ∧ s.frees = 1

theorem Steady.closed (h : s.Steady) (hfreed : s.Freed s') : s'.Closed := by
  unfold Freed at hfreed
  rw [h.frees] at hfreed
  simp only [life, Prod.mk.injEq] at hfreed
  exact ⟨hfreed.1, hfreed.2.1, hfreed.2.2.1, hfreed.2.2.2.1⟩

/-- Nothing is heard when the event is gone. -/
theorem run_of_not_evLive (hev : s.evLive = false) (turns : List Turn) :
    Run.run turn s turns = .ok s := by
  induction turns with
  | nil => rfl
  | cons t turns ih => rw [Run.run_cons, turn_of_not_evLive hev, Run.ok_bind, ih]

/-- **A run from a connection that listens.** -/
theorem run_answers (asks : List Ask) (hasks : ∀ a ∈ asks, a.Served time) (h : s.Listens time) :
    ∃ s', Run.run turn s (asks.map Ask.turn) = .ok s' ∧ s'.pending = [] ∧
      s'.kernel.sent = s.kernel.sent ++ Ask.replies time asks ∧
      if asks.all Ask.stays then s'.Listens time else s'.Closed := by
  induction asks generalizing s with
  | nil => exact ⟨s, rfl, h.rests.sent, (List.append_nil _).symm, h⟩
  | cons a asks ih =>
    obtain ⟨u, hturn, hempty, hsent, hkept⟩ := turn_answers h (hasks a List.mem_cons_self)
    rw [List.map_cons, Run.run_cons, hturn, Run.ok_bind, List.all_cons]
    unfold Ask.replies Ask.answered
    cases hstays : a.stays with
    | true =>
      rw [hstays, if_pos rfl] at hkept
      obtain ⟨s', hrun, hempty', hsent', hkept'⟩ :=
        ih (fun b hb => hasks b (List.mem_cons_of_mem a hb)) hkept
      refine ⟨s', hrun, hempty', ?_, hkept'⟩
      rw [hsent', hsent, if_pos rfl, List.flatMap_cons, List.append_assoc]
      rfl
    | false =>
      rw [hstays, if_neg Bool.false_ne_true] at hkept
      have hclosed := h.steady.closed hkept
      refine ⟨u, run_of_not_evLive hclosed.2.1 _, hempty, ?_, hclosed⟩
      rw [hsent, if_neg Bool.false_ne_true, List.flatMap_cons, List.flatMap_nil, List.append_nil]

theorem listens_start (connfd time : Int) : (start connfd time).Listens time where
  steady := steady_start connfd time
  rests := ⟨rfl, rfl, rfl, rfl⟩
  resting := ⟨⟨[], rfl⟩, rfl, fun _ => rfl⟩
  epollIn := rfl

/-- **A conversation.**  Requests that arrive one by one are answered one by one, each by the reply
that it alone determines, up to the first that does not ask to stay: then everything is torn down,
and else the connection is at rest.  The turn that tears it down goes on to touch the freed
connection, request and event (`touchedDead`); all of the replies is on the socket by then. -/
theorem conversation (connfd time : Int) (asks : List Ask) (hasks : ∀ a ∈ asks, a.Served time) :
    ∃ s, Run.run turn (start connfd time) (asks.map Ask.turn) = .ok s ∧
      s.kernel.sent = Ask.replies time asks ∧ s.pending = [] ∧
      if asks.all Ask.stays then s.Rests else s.Closed := by
  obtain ⟨s, hrun, hempty, hsent, hkept⟩ := run_answers asks hasks (listens_start connfd time)
  refine ⟨s, hrun, hsent, hempty, ?_⟩
  split_ifs at hkept ⊢
  · exact hkept.rests
  · exact hkept

end Session

/-- A request for the file of one byte, with the headers `hs`. -/
def Ask.getByte (hs : List HeaderLine) : Ask where
  env := Session.oneByte 1000
  line := .getRoot
  headers := hs
  blanks := []
  tail := crlf
  mask := ⟨true, false, false, false, false⟩

theorem Ask.served_getByte {hs : List HeaderLine} (h : hs = [] ∨ hs = [.connectionClosed]) :
    (getByte hs).Served 0 where
  complete post := by
    have haccepts : Session.AcceptsLine (Session.oneByte 1000) .getRoot :=
      ⟨by decide +kernel, by decide +kernel, trivial⟩
    have hinside : LengthsInside hs crlf := by
      rcases h with rfl | rfl
      · trivial
      · exact ⟨fun hkey => absurd hkey (by decide +kernel), trivial⟩
    refine ⟨rfl, haccepts, nofun, List.prefix_refl _, ?_⟩
    show ¬ Session.BodyMissing (getByte hs).bytes hs (crlf ++ post ++ [])
    rw [List.append_nil, Session.bodyMissing_inside hinside]
    rcases h with rfl | rfl <;> decide +kernel
  file := rfl
  size := by
    show (1 : Int) ≤ intMax
    decide
  heard := rfl
  calm := ⟨rfl, rfl⟩
  send _ := by
    refine ⟨1000, rfl, ?_⟩
    rcases h with rfl | rfl <;> decide +kernel
  sendfile _ := ⟨2 ^ 20, rfl, by show 1 ≤ 2 ^ 20; decide⟩

/-- Three requests, of which the second ends the conversation. -/
def Ask.threeBytes : List Ask := [.getByte [], .getByte [.connectionClosed], .getByte []]

theorem Ask.served_threeBytes : ∀ a ∈ threeBytes, a.Served 0 := by
  intro a ha
  simp only [threeBytes, List.mem_cons, List.not_mem_nil, or_false] at ha
  rcases ha with rfl | rfl | rfl
  · exact served_getByte (Or.inl rfl)
  · exact served_getByte (Or.inr rfl)
  · exact served_getByte (Or.inl rfl)

theorem Ask.answered_threeBytes :
    answered threeBytes = [.getByte [], .getByte [.connectionClosed]] := by
  have hstays : (getByte []).stays = true ∧ (getByte [.connectionClosed]).stays = false := by
    decide +kernel
  simp only [threeBytes, answered, hstays]
  rfl

namespace Session

/-- **The third request is not heard.** -/
theorem conversation_threeBytes : ∃ s,
    Run.run turn (start 5 0) (Ask.threeBytes.map Ask.turn) = .ok s ∧ s.Closed ∧
      s.kernel.sent = ((Ask.getByte []).reply 0).bytes ++
        ((Ask.getByte [.connectionClosed]).reply 0).bytes := by
  obtain ⟨s, hrun, hsent, -, hkept⟩ := conversation 5 0 Ask.threeBytes Ask.served_threeBytes
  have hends : Ask.threeBytes.all Ask.stays = false := by decide +kernel
  rw [hends, if_neg Bool.false_ne_true] at hkept
  refine ⟨s, hrun, hkept, ?_⟩
  rw [hsent, Ask.replies, Ask.answered_threeBytes]
  simp

end Session

end MWebServer
