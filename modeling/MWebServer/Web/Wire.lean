import MWebServer.Mevent.Deferred
import MWebServer.Web.Alike
import MWebServer.Web.RealStatus

/-!
# What goes over the wire

Bytes reach the socket of a connection in two ways: through the write buffer, from which
`send` takes them as the socket has room, and straight from a file, by `sendfile`.  A `Wire`
is what can be seen of that from outside: the bytes on the socket, and those that wait.

* `Wire.step` — what a turn of the event loop may do to it: one message is answered, and the
  socket takes some of what waits.
* `handleRequest_target` — the file that is answered with is one of the filesystem.
* `turn_wire` — a turn does what `Wire.step` says.
* `wire_replays` — so nothing is ever said but answers.
-/

namespace MWebServer

/-- The bytes on the socket, and those that wait behind them. -/
structure Wire where
  sent : List Byte
  queued : List Byte

namespace Wire

/-- The answer to a message. -/
inductive Answer where
  /-- The socket is offered the head behind what waits and takes `taken` bytes; the file follows
  if nothing is left. -/
  | served (head : List Byte) (taken : Nat) (file : List Byte)
  /-- The head waits, and the page does not wait for it. -/
  | refused (head page : List Byte)

/-- What one turn does. -/
structure Act where
  answer : Option Answer
  taken : Nat

/-- The socket takes the first `n` of the bytes that wait. -/
def take (w : Wire) (n : Nat) : Wire := ⟨w.sent ++ w.queued.take n, w.queued.drop n⟩

/-- A message is answered. -/
def say (w : Wire) : Answer → Wire
  | .served head taken file =>
      let w := take ⟨w.sent, w.queued ++ head⟩ taken
      if w.queued = [] then ⟨w.sent ++ file, []⟩ else w
  | .refused head page => ⟨w.sent ++ page, w.queued ++ head⟩

/-- A turn. -/
def step (w : Wire) (act : Act) : Wire := (act.answer.elim w w.say).take act.taken

theorem take_zero (w : Wire) : w.take 0 = w := by
  unfold take
  rw [List.take_zero, List.drop_zero, List.append_nil]

/-- What keeps all bytes in their order, and takes none back from the socket, has taken some of
those that waited. -/
theorem exists_take {v w : Wire} (hstream : w.sent ++ w.queued = v.sent ++ v.queued)
    (hsent : v.sent <+: w.sent) : ∃ n, w = v.take n := by
  obtain ⟨sent', queued'⟩ := w
  obtain ⟨taken, rfl⟩ := hsent
  rw [List.append_assoc, List.append_cancel_left_eq] at hstream
  refine ⟨taken.length, ?_⟩
  unfold take
  rw [← hstream, List.take_left, List.drop_left]

end Wire

namespace Session

variable {H : Type} {env : Env}

/-- What can be seen of a connection from outside. -/
def onWire (s : Session H) : Wire := ⟨s.kernel.sent, s.pending⟩

theorem Idle.onWire {s s' : Session H} (h : s.Idle s') : s'.onWire = s.onWire := by
  unfold Session.onWire
  rw [h.sent, h.pending]

/-! ## Sending -/

/-- `send` takes nothing back. -/
theorem sent_prefix_sendPending {s s' : Session H} {off len n : Int}
    (h : s.sendPending env off len = .ok (n, s')) : s.kernel.sent <+: s'.kernel.sent := by
  unfold sendPending at h
  obtain ⟨data, -, h⟩ := Run.bind_eq_ok.1 h
  rw [← (Prod.mk.inj (Except.ok.inj h)).2]
  exact List.prefix_append _ _

theorem sent_releaseWrite {s s' : Session H} {n : Int} (h : s.releaseWrite n = .ok s') :
    s'.kernel.sent = s.kernel.sent := by
  unfold releaseWrite at h
  obtain ⟨rb, -, h⟩ := Run.bind_eq_ok.1 h
  rw [← Except.ok.inj h]
  rfl

theorem sent_sendBufferDone {s s' : Session H} {ret n len : Int}
    (h : s.sendBufferDone n len = .ok (ret, s')) : s'.kernel.sent = s.kernel.sent := by
  unfold sendBufferDone at h
  split_ifs at h
  · rw [← (Prod.mk.inj (Except.ok.inj h)).2]
  · obtain ⟨v, hv, h⟩ := Run.bind_eq_ok.1 h
    rw [← (Prod.mk.inj (Except.ok.inj h)).2, ← sent_releaseWrite hv]
    rfl
  · obtain ⟨v, hv, h⟩ := Run.bind_eq_ok.1 h
    rw [← (Prod.mk.inj (Except.ok.inj h)).2, ← sent_releaseWrite hv]
  · rw [← (Prod.mk.inj (Except.ok.inj h)).2]

theorem sent_prefix_connectionSendBuffer {s s' : Session H} {ret : Int}
    (h : s.connectionSendBuffer env = .ok (ret, s')) : s.kernel.sent <+: s'.kernel.sent := by
  unfold connectionSendBuffer at h
  simp only at h
  split at h
  · split_ifs at h
    · obtain ⟨⟨n, u⟩, hsend, h⟩ := Run.bind_eq_ok.1 h
      rw [sent_sendBufferDone h]
      exact sent_prefix_sendPending (s := s.touchConn) hsend
    · rw [← (Prod.mk.inj (Except.ok.inj h)).2]
      exact List.prefix_refl _
  · rw [← (Prod.mk.inj (Except.ok.inj h)).2]
    exact List.prefix_refl _

theorem eventWritableCallback_wire (env : Env) {s : Session H} (h : s.conn.ringBufferWrite.Inv) :
    ∃ s', s.eventWritableCallback env = .ok s' ∧
      s'.onWire = s.onWire.take ((env.send s.kernel.sends).getD 0) := by
  obtain ⟨s', hs', hsent, hwaits⟩ := eventWritableCallback_moves env h
  refine ⟨s', hs', ?_⟩
  unfold onWire Wire.take
  rw [hsent, hwaits]

theorem eventHandlerOut_wire (env : Env) {s : Session H} (h : s.conn.ringBufferWrite.Inv) :
    ∃ s' n, s.eventHandlerOut env = .ok s' ∧ s'.onWire = s.onWire.take n := by
  unfold eventHandlerOut
  simp only
  split_ifs
  · obtain ⟨s', hs', hwire⟩ := eventWritableCallback_wire env (s := s.touchEv) h
    exact ⟨s', _, hs', hwire⟩
  · exact ⟨_, 0, rfl, (Wire.take_zero _).symm⟩

end Session

/-! ## Answering -/

/-- What can be read of a file. -/
def Inode.content : Inode → List Byte
  | .file content => content
  | .dir _ _ => []

namespace Session

variable {env : Env} {s s' s₁ : WebSession} {t : Turn}

theorem openResource_target {path : List Byte} (h : s.openResource env path = (OK, s')) :
    ∃ inode, env.target path = some inode ∧ s'.kernel.file s'.handler.resourceFd = some inode := by
  have hopened := openResource_as env path s
  rw [h] at hopened
  generalize hcode : OK = code at hopened
  cases hopened with
  | missing => exact absurd hcode (by decide)
  | opened target _ _ file handler => exact ⟨_, target, by rw [handler]; exact file⟩

/-- **What the handlers have opened is a file of the filesystem**, as it is during this event. -/
theorem handleRequest_target (hr : s.conn.ringBufferRead.Inv) (ha : s.Alive)
    (h : s.handleRequest env = .ok (OK, s₁)) :
    ∃ path inode, env.target path = some inode ∧ s₁.resource = inode.content := by
  obtain ⟨hconn, -, -, -, hpar, hreq, -⟩ := reset_frame ha
  have hinv : s.httpRequestHandleReset.touchConn.conn.ringBufferRead.Inv := by
    rw [hconn]
    exact hr
  let J : Int → WebSession → Prop := fun status t => status = OK → ∃ path inode,
    env.target path = some inode ∧ t.kernel.file t.handler.resourceFd = some inode
  have hopened : J OK s₁ := by
    refine handlerLoop_stages (J := J) ?_ ?_ ?_ hinv hpar hreq h
    · rintro t t' status hinv hpar ht rfl
      obtain ⟨l, rest, hread⟩ := exists_line_of_ok hinv hpar ht
      obtain ⟨pre, post, hreads⟩ := exists_reads hinv
      rw [hread] at hreads
      obtain ⟨hv, hpath, -⟩ := requestHandleRequestLine_ok hreads hpar ht
      obtain ⟨url, line, -, hspec⟩ := requestHandleRequestLine_spec hreads hpar
      rw [hspec, if_neg (not_not_intro hv), if_pos hpath] at ht
      exact ⟨_, openResource_target (Except.ok.inj ht)⟩
    · rintro t t' status hJ - ht -
      obtain ⟨mem, ar, req, -, -, rfl, -⟩ := requestHandleHeaders_frame ht
      exact hJ rfl
    · rintro t t' status hJ - ht -
      obtain ⟨ar, req, -, rfl, -⟩ := requestHandleBody_frame ht
      exact hJ rfl
  obtain ⟨path, inode, htarget, hfile⟩ := hopened rfl
  refine ⟨path, inode, htarget, ?_⟩
  unfold resource Kernel.fileContent
  rw [hfile]
  cases inode <;> rfl

/-- The answer to the message that `http_request` is called on: a head for the request as the
handlers have left it, with a file of the filesystem or the error page. -/
inductive Says (env : Env) (s : WebSession) : Wire.Answer → Prop
  | served {s₁ s₂ : WebSession} {lines : List (List Byte)} {path file : List Byte} {inode : Inode}
      (taken : Nat) (accepted : s.handleRequest env = .ok (OK, s₁))
      (release : s₁.releaseRead s.conn.ringBufferRead.readableBytes = .ok s₂)
      (head : s₂.headLines env = .ok lines) (target : env.target path = some inode)
      (content : file <+: inode.content) : Says env s (.served lines.flatten taken file)
  | refused {status : Int} {s₁ s₂ : WebSession} {lines : List (List Byte)} {page : List Byte}
      (fails : s.handleRequest env = .ok (status, s₁)) (not_ok : status ≠ OK)
      (release : s₁.releaseRead s.conn.ringBufferRead.readableBytes = .ok s₂)
      (head : (s₂.markError status).errLines env = .ok lines) (content : page <+: errorPage env) :
      Says env s (.refused lines.flatten page)

/-- The head is offered with all that waits before it, and the file behind it if nothing is left. -/
theorem responseHandle_wire {r : Int × WebSession} (hw : s.conn.ringBufferWrite.Inv) (ha : s.Alive)
    (hres : s.handler.resHandler = .sendLineAndHeader) (hok : s.responseHandle env = .ok r) :
    ∃ lines taken file, s.headLines env = .ok lines ∧ file <+: s.resource ∧
      r.2.conn.ringBufferWrite.Inv ∧ r.2.Alive ∧
      r.2.onWire = s.onWire.say (.served lines.flatten taken file) := by
  obtain ⟨lines, t, hlines, happend⟩ := exists_head_of_responseHandle hres hok
  obtain ⟨ret, u, hsend, hoffered⟩ : ∃ ret u, t.connectionSendBuffer env = .ok (ret, u) ∧
      s.HeadOffered env lines.flatten ret u :=
    connectionSendBuffer_head hw ha (crlf_mem_headLines hlines) happend
  obtain ⟨hframe, hhandler, hfiles, -, hstream, hcases⟩ := hoffered
  obtain rfl := Run.ok_unique (responseHandle_eq hres hlines happend hsend) hok
  obtain ⟨hconn, -, hlife, htouched, -, tail, hsent, hfile, hwaiting⟩ :=
    afterHead_frame env ret (hframe.alive ha)
  have hgrows : s.kernel.sent <+: u.kernel.sent := by
    obtain ⟨rb, -, rfl, -⟩ := appendAll_spec hw ha happend
    exact sent_prefix_connectionSendBuffer (s := s.setWrite rb) hsend
  obtain ⟨taken, htaken⟩ := Wire.exists_take
    (v := ⟨s.onWire.sent, s.onWire.queued ++ lines.flatten⟩) (w := u.onWire)
    (by rw [← List.append_assoc]; exact hstream) hgrows
  have hresource : u.resource = s.resource := by
    unfold resource
    rw [hhandler, Kernel.fileContent_congr hfiles]
  have hpending : (u.afterHead env ret).2.pending = u.pending :=
    congrArg (fun conn : Connection => conn.ringBufferWrite.content) hconn
  refine ⟨lines, taken, tail, hlines, hresource ▸ hfile, by rw [hconn]; exact hframe.write,
    (hframe.alive ha).of_life hlife htouched, ?_⟩
  unfold Wire.say
  simp only
  rw [← htaken]
  unfold onWire
  rw [hpending, hsent]
  rcases hcases with ⟨-, -, hnil, -⟩ | ⟨hret, -, hmore, -⟩
  · rw [if_pos hnil, hnil]
  · rw [if_neg hmore, hwaiting hret, List.append_nil]

/-- **`http_request` gives one answer.** -/
theorem httpRequest_wire (hw : s.conn.ringBufferWrite.Inv) (hr : s.conn.ringBufferRead.Inv)
    (ha : s.Alive) (hok : s.httpRequest env = .ok s') :
    ∃ answer, s.Says env answer ∧ s'.onWire = s.onWire.say answer := by
  obtain ⟨status, s₁, s₂, s₃, h1, h2, h3, rfl⟩ := httpRequest_eq_ok.1 hok
  have hrel := handleRequest_released hw ha h1 h2
  have hresp := hrel.responded h3
  obtain ⟨hidle, -⟩ := finishRequest_spec hresp.write (hresp.alive hrel.alive)
  have hwire : s₂.onWire = s.onWire := by
    have hsent : s₂.kernel.sent = s.kernel.sent := by
      have hstream := hrel.stream
      unfold stream at hstream
      rw [hrel.pending] at hstream
      exact List.append_cancel_right hstream
    unfold onWire
    rw [hsent, hrel.pending]
  rw [hidle.onWire, ← hwire]
  unfold respond at h3
  split_ifs at h3 with hstatus
  · subst hstatus
    obtain ⟨r, hr', h3⟩ := Run.bind_eq_ok.1 h3
    obtain rfl := Except.ok.inj h3
    obtain ⟨lines, taken, file, hlines, hfile, -, -, hsaid⟩ :=
      responseHandle_wire hrel.write hrel.alive hrel.resHandler hr'
    obtain ⟨path, inode, htarget, hresource⟩ := handleRequest_target hr ha h1
    have hsame : s₂.resource = s₁.resource := by
      unfold resource
      rw [hrel.handler, hrel.kernel]
    exact ⟨_, .served taken h1 h2 hlines htarget (hresource ▸ hsame ▸ hfile), hsaid⟩
  · obtain ⟨-, -, -, lines, hlines, hpending, hsent⟩ :=
      responseAssembleErrBuffer_spec hrel.write hrel.alive h3
    refine ⟨_, .refused h1 hstatus h2 hlines (errBody_within env s₂), ?_⟩
    unfold onWire Wire.say
    rw [hpending, hsent]

/-! ## A turn -/

/-- What may be done in a turn: a message that is heard is answered, and else nothing is said. -/
def Does (s : WebSession) (t : Turn) (act : Wire.Act) : Prop :=
  (∃ u answer, s.Calls t u ∧ act.answer = some answer ∧ u.Says t.env answer) ∨
    ((∀ u, ¬ s.Calls t u) ∧ act.answer = none)

/-- A turn in which a message is heard. -/
theorem Calls.onWire {u : WebSession} (h : s.Calls t u) (hs : s.Sturdy) (hok : s.turn t = .ok s') :
    ∃ answer taken, u.Says t.env answer ∧ s'.onWire = (s.onWire.say answer).take taken := by
  obtain ⟨hw, hr, ha⟩ := h.session hs
  rw [h.turn_eq hs] at hok
  obtain ⟨u', hu', hok⟩ := Run.bind_eq_ok.1 hok
  obtain ⟨answer, hsays, hsaid⟩ := httpRequest_wire hw hr ha hu'
  obtain ⟨-, -, hw', -⟩ := httpRequest_outcome hw ha hu'
  obtain ⟨v, taken, hout, htaken⟩ := eventHandlerOut_wire t.env hw'
  obtain rfl := Run.ok_unique hout hok
  have hread : u.onWire = s.onWire := by
    obtain ⟨hev, -, -, n, hread, -⟩ := h
    obtain ⟨⟨rb, rfl⟩, -⟩ := readBuffer_frame (((hs hev).1.activate t.ready).alive hev) hread
    rfl
  exact ⟨answer, taken, hsays, by rw [htaken, hsaid, hread]⟩

/-- A turn in which none is. -/
theorem turn_wire_silent (h : s.Sturdy) (hcalls : ∀ u, ¬ s.Calls t u) (hok : s.turn t = .ok s') :
    ∃ taken, s'.onWire = s.onWire.take taken := by
  by_cases hev : s.evLive = true
  · obtain ⟨hsteady, -⟩ := h hev
    have ha := (hsteady.activate t.ready).alive hev
    have hw : (s.activate t.ready).conn.ringBufferWrite.Inv := hsteady.write
    rw [turn_eq hev] at hok
    split_ifs at hok
    · unfold eventHandler at hok
      simp only [ha.touchEv] at hok
      split_ifs at hok with hhup hreadable
      · -- the event alone is freed
        rw [← Except.ok.inj hok]
        exact ⟨0, (Wire.take_zero _).symm⟩
      · obtain ⟨u, hu, hok⟩ := Run.bind_eq_ok.1 hok
        obtain ⟨n, rb, hread, ha', hsides⟩ := eventReadableCallback_cases ha hu
        rcases hsides with ⟨hn, -⟩ | ⟨-, rfl⟩
        · exact absurd ⟨hev, hhup, hreadable, n, hread, hn⟩ (hcalls _)
        · obtain ⟨hidle, -⟩ := connectionDisconnect_spec (s := (s.activate t.ready).setRead rb) hw ha'
          obtain ⟨v, taken, hout, htaken⟩ := eventHandlerOut_wire t.env
            (s := ((s.activate t.ready).setRead rb).connectionDisconnect) (hidle.write ▸ hw)
          obtain rfl := Run.ok_unique hout hok
          exact ⟨taken, by rw [htaken, hidle.onWire]; rfl⟩
      · obtain ⟨v, taken, hout, htaken⟩ := eventHandlerOut_wire t.env hw
        obtain rfl := Run.ok_unique hout hok
        exact ⟨taken, htaken⟩
    · rw [← Except.ok.inj hok]
      exact ⟨0, (Wire.take_zero _).symm⟩
  · rw [turn_of_not_evLive (Bool.eq_false_iff.2 hev)] at hok
    rw [← Except.ok.inj hok]
    exact ⟨0, (Wire.take_zero _).symm⟩

/-- **One turn.** -/
theorem turn_wire (h : s.Sturdy) (hok : s.turn t = .ok s') :
    ∃ act, s.Does t act ∧ s'.onWire = s.onWire.step act := by
  by_cases hcalls : ∃ u, s.Calls t u
  · obtain ⟨u, hu⟩ := hcalls
    obtain ⟨answer, taken, hsays, hwire⟩ := hu.onWire h hok
    exact ⟨⟨some answer, taken⟩, Or.inl ⟨u, answer, hu, rfl, hsays⟩, hwire⟩
  · obtain ⟨taken, hwire⟩ := turn_wire_silent h (fun u hu => hcalls ⟨u, hu⟩) hok
    exact ⟨⟨none, taken⟩, Or.inr ⟨fun u hu => hcalls ⟨u, hu⟩, rfl⟩, hwire⟩

/-- **Nothing but answers is ever said.**  Whatever is read and whatever the kernel answers, the
bytes on the socket and those that wait are what the acts of the turns make of nothing: each
message is answered once, in its turn, and the socket takes bytes in the order in which they
wait. -/
theorem wire_replays (connfd now : Int) (turns : List Turn) (s' : WebSession)
    (hrun : Run.run turn (start connfd now) turns = .ok s') :
    ∃ acts, Run.Records turn Does (start connfd now) turns acts ∧
      s'.onWire = acts.foldl Wire.step ⟨[], []⟩ :=
  Run.run_records (I := Sturdy) (f := onWire)
    (fun _ _ _ h hok => ⟨sturdy_turn h hok, turn_wire h hok⟩) (sturdy_start connfd now) hrun

/-- Two requests on a socket that has little room at first. -/
def twoRequests : List Turn :=
  [readsWith (some 10) (str "GET / HTTP/1.1\r\n\r\n"),
    readsWith (some 1000) (str "GET / HTTP/1.1\r\n\r\n")]

/-- The second head goes out behind what is left of the first. -/
theorem wire_replays_twoRequests : ∃ s' acts, Run.run turn (start 5 0) twoRequests = .ok s' ∧
    s'.pending = [] ∧ Run.Records turn Does (start 5 0) twoRequests acts ∧
      s'.onWire = acts.foldl Wire.step ⟨[], []⟩ := by
  have hreturns : (Run.run turn (start 5 0) twoRequests).map pending = .ok [] := by decide +kernel
  obtain ⟨s', hrun, hempty⟩ := Run.map_eq_ok.1 hreturns
  obtain ⟨acts, hacts, hwire⟩ := wire_replays 5 0 twoRequests s' hrun
  exact ⟨s', acts, hrun, hempty, hacts, hwire⟩

end Session

end MWebServer
