import MWebServer.Web.Handled

/-!
# Responding to a request

The second half of `http_request`: the bytes of the message are given back, the head
is pushed into the write buffer, and the connection may be closed.

* `responseAssembleErrBuffer_spec` — the error path only queues its head.
* `responseHandle_spec` — the other path sends what waits (`connectionSendBuffer_head`), and then the
  file.
* `finishRequest_spec` — a short connection is closed; if nothing waits any more, it
  is freed on the spot.
* `httpRequest_spec` puts the halves together.
-/

namespace MWebServer

namespace Session

variable {env : Env} {s s' : WebSession}

/-- **The frame of a response**: of the connection it changes the write buffer. -/
structure Responded (s s' : WebSession) : Prop where
  conn : ∃ rb, rb.Inv ∧ s'.conn = { s.conn with ringBufferWrite := rb }
  life : s'.life = s.life
  touched : s'.touchedDead = s.touchedDead
  rewound : s.Rewound → s'.Rewound

theorem Sent.responded (h : s.Sent s') : s.Responded s' := ⟨h.conn, h.life, h.touched, h.rewound⟩

theorem Responded.trans {t : WebSession} (h : s.Responded t) (h' : t.Responded s') :
    s.Responded s' := by
  obtain ⟨rb, -, hconn⟩ := h.conn
  obtain ⟨rb', hinv', hconn'⟩ := h'.conn
  exact ⟨⟨rb', hinv', by rw [hconn', hconn]⟩, h'.life.trans h.life, h'.touched.trans h.touched,
    fun hs => h'.rewound (h.rewound hs)⟩

theorem Responded.alive (h : s.Responded s') (ha : s.Alive) : s'.Alive :=
  ha.of_life h.life h.touched

theorem Responded.write (h : s.Responded s') : s'.conn.ringBufferWrite.Inv := by
  obtain ⟨rb, hinv, hconn⟩ := h.conn
  rw [hconn]
  exact hinv

theorem Responded.read (h : s.Responded s') : s'.conn.ringBufferRead = s.conn.ringBufferRead := by
  obtain ⟨rb, -, hconn⟩ := h.conn
  rw [hconn]

theorem responded_of_conn (hw : s.conn.ringBufferWrite.Inv) (hconn : s'.conn = s.conn)
    (hlife : s'.life = s.life) (htouched : s'.touchedDead = s.touchedDead) : s.Responded s' :=
  ⟨⟨_, hw, hconn⟩, hlife, htouched, fun hs => by unfold Rewound pending; rw [hconn]; exact hs⟩

/-! ## Pushing the head -/

/-- What pushing lines does to a live connection. -/
theorem appendAll_spec {lines : List (List Byte)} (hw : s.conn.ringBufferWrite.Inv) (ha : s.Alive)
    (hok : s.appendAll env lines = .ok s') :
    ∃ rb, rb.Inv ∧ s' = s.setWrite rb ∧ rb.content = s.pending ++ lines.flatten := by
  induction lines generalizing s with
  | nil =>
    obtain rfl := Except.ok.inj hok
    exact ⟨_, hw, rfl, by simp [pending]⟩
  | cons line lines ih =>
    rw [appendAll] at hok
    obtain ⟨t, ht, hok⟩ := Run.bind_eq_ok.1 hok
    unfold append at ht
    simp only [ha.touchHandler, ha.touchConn] at ht
    split_ifs at ht with hnil
    · obtain rfl := Except.ok.inj ht
      obtain ⟨rb, hinv, hs', hcont⟩ := ih hw ha hok
      exact ⟨rb, hinv, hs', by rw [hcont, hnil]; rfl⟩
    · obtain ⟨rb, hpush, ht⟩ := Run.bind_eq_ok.1 ht
      obtain rfl := Except.ok.inj ht
      obtain ⟨hinv, hcont⟩ := RingBuffer.pushData_content hw hpush
      obtain ⟨rb', hinv', hs', hcont'⟩ := ih (s := s.setWrite rb) hinv (ha.of_life rfl rfl) hok
      refine ⟨rb', hinv', hs', ?_⟩
      rw [hcont']
      show rb.content ++ lines.flatten = _
      rw [hcont, List.flatten_cons, List.append_assoc]
      rfl

/-- Every line, pushed behind those before it, finds its room at the end of the write buffer. -/
def Fits (env : Env) (s : WebSession) (lines : List (List Byte)) : Prop :=
  Run.Meets RingBuffer.step RingBuffer.OpFits s.conn.ringBufferWrite
    (lines.map fun line => .push line env.fresh)

/-- **The lines are pushed exactly when they fit.** -/
theorem appendAll_ok_iff (env : Env) (lines : List (List Byte)) (hw : s.conn.ringBufferWrite.Inv)
    (ha : s.Alive) : (∃ s', s.appendAll env lines = .ok s') ↔ s.Fits env lines := by
  induction lines generalizing s with
  | nil => exact iff_of_true ⟨s, rfl⟩ trivial
  | cons line lines ih =>
    unfold Fits
    rw [appendAll, append, List.map_cons]
    simp only [ha.touchHandler, ha.touchConn]
    have hfits : (∃ rb, s.conn.ringBufferWrite.pushData env.fresh line = .ok rb) ↔
        s.conn.ringBufferWrite.TailFits line.length := RingBuffer.pushData_ok_iff hw
    split_ifs with hnil
    · subst hnil
      have hsame := RingBuffer.pushData_nil hw env.fresh
      refine (ih hw ha).trans ⟨fun hrest => ⟨hfits.1 ⟨_, hsame⟩, fun rb hrb => ?_⟩, fun h => h.2 _ hsame⟩
      obtain rfl := Run.ok_unique hsame hrb
      exact hrest
    · constructor
      · rintro ⟨s', hs'⟩
        obtain ⟨t, ht, hs'⟩ := Run.bind_eq_ok.1 hs'
        obtain ⟨rb, hpush, ht⟩ := Run.bind_eq_ok.1 ht
        obtain rfl := Except.ok.inj ht
        refine ⟨hfits.1 ⟨rb, hpush⟩, fun rb' hrb' => ?_⟩
        obtain rfl := Run.ok_unique hpush hrb'
        exact (ih (s := s.setWrite rb) (RingBuffer.pushData_content hw hpush).1
          (ha.of_life rfl rfl)).1 ⟨s', hs'⟩
      · rintro ⟨htail, hrest⟩
        obtain ⟨rb, hpush⟩ := hfits.2 htail
        obtain ⟨s', hs'⟩ := (ih (s := s.setWrite rb) (RingBuffer.pushData_content hw hpush).1
          (ha.of_life rfl rfl)).2 (hrest rb hpush)
        exact ⟨s', by rw [hpush]; exact hs'⟩

/-- A write buffer without a gap takes any lines. -/
theorem fits_of_start_eq_zero (env : Env) (lines : List (List Byte))
    (hstart : s.conn.ringBufferWrite.start = 0) : s.Fits env lines := by
  unfold Fits
  generalize s.conn.ringBufferWrite = rb at hstart
  induction lines generalizing rb with
  | nil => trivial
  | cons line lines ih =>
    exact ⟨RingBuffer.tailFits_of_start_eq_zero hstart line.length,
      fun rb' hpush => ih rb' (RingBuffer.pushData_start hpush hstart)⟩

theorem appendAll_returns (env : Env) (lines : List (List Byte)) (hw : s.conn.ringBufferWrite.Inv)
    (hstart : s.conn.ringBufferWrite.start = 0) (ha : s.Alive) : ∃ s', s.appendAll env lines = .ok s' :=
  (appendAll_ok_iff env lines hw ha).2 (fits_of_start_eq_zero env lines hstart)

theorem flatten_ne_nil_of_mem_crlf {lines : List (List Byte)} (h : crlf ∈ lines) :
    lines.flatten ≠ [] := by
  intro hnil
  have := List.flatten_eq_nil_iff.1 hnil crlf h
  exact absurd this (by decide)

theorem crlf_mem_headLines {lines : List (List Byte)} (h : s.headLines env = .ok lines) :
    crlf ∈ lines := by
  obtain ⟨status, -, h⟩ := Run.bind_eq_ok.1 h
  rw [← Except.ok.inj h]
  simp

theorem crlf_mem_errLines {lines : List (List Byte)} (h : s.errLines env = .ok lines) :
    crlf ∈ lines := by
  obtain ⟨status, -, h⟩ := Run.bind_eq_ok.1 h
  rw [← Except.ok.inj h]
  simp

/-! ## The error path -/

/-- What the error path offers to `sendfile`: all of `error.html`, if its size is an `int`. -/
def errorPage (env : Env) : List Byte :=
  match env.root (str "error.html") with
  | some (.file content) =>
      if toInt content.length > 0 then content.take (toSizeT (toInt content.length)) else []
  | _ => []

/-- What it puts on the socket at once: the beginning that `sendfile` takes. -/
def errBody (env : Env) (s : WebSession) : List Byte :=
  (Kernel.accepted (env.sendfile s.kernel.sendfiles) (errorPage env)).2

theorem errBody_of_errorPage (h : errorPage env = []) (s : WebSession) : s.errBody env = [] := by
  unfold errBody Kernel.accepted
  rw [h]
  cases env.sendfile s.kernel.sendfiles <;> simp

theorem errBody_within (env : Env) (s : WebSession) : s.errBody env <+: errorPage env := by
  unfold errBody Kernel.accepted
  split
  · exact List.nil_prefix
  · exact List.take_prefix _ _

/-- `sendfile` on `error.html`, just opened. -/
theorem sent_errBody (env : Env) (s : WebSession) :
    let r := s.kernel.openat env.rootdirFd (str "error.html") (env.root (str "error.html"))
    (r.1 > 0 ∧ errorSize env > 0 →
      (r.2.sendfile env r.1 (toSizeT (errorSize env))).2.sent = s.kernel.sent ++ s.errBody env) ∧
    (¬ (r.1 > 0 ∧ errorSize env > 0) → s.errBody env = []) := by
  unfold errorSize
  cases hroot : env.root (str "error.html") with
  | none =>
    have hpage : errorPage env = [] := by
      unfold errorPage
      rw [hroot]
    exact ⟨fun h => absurd h.2 (lt_irrefl 0), fun _ => errBody_of_errorPage hpage s⟩
  | some inode =>
    have hpos := Kernel.openat_pos env.rootdirFd (str "error.html") inode s.kernel
    have hfile := Kernel.file_openat env.rootdirFd (str "error.html") inode s.kernel
    cases inode with
    | file content =>
      refine ⟨fun h => ?_, fun h => errBody_of_errorPage ?_ s⟩
      · have hcontent := Kernel.fileContent_openat env.rootdirFd (str "error.html") content s.kernel
        have hpage : errorPage env = content.take (toSizeT (toInt content.length)) := by
          unfold errorPage
          rw [hroot]
          exact if_pos h.2
        unfold Kernel.sendfile errBody
        simp only [hcontent, hpage]
        rfl
      · unfold errorPage
        rw [hroot]
        exact if_neg fun hsize => h ⟨hpos, hsize⟩
    | dir size index =>
      have hpage : errorPage env = [] := by
        unfold errorPage
        rw [hroot]
      refine ⟨fun _ => ?_, fun _ => errBody_of_errorPage hpage s⟩
      have hcontent : Kernel.fileContent (s.kernel.openat env.rootdirFd (str "error.html")
          (some (.dir size index))).2 (s.kernel.openat env.rootdirFd (str "error.html")
          (some (.dir size index))).1 = none := by
        unfold Kernel.fileContent
        rw [hfile]
      unfold Kernel.sendfile
      simp only [hcontent, errBody_of_errorPage hpage, List.append_nil]
      rfl

/-- **The error path queues its head and turns `keep_alive` off.**  The file does not wait for the
head. -/
theorem responseAssembleErrBuffer_spec {code : Int} (hw : s.conn.ringBufferWrite.Inv) (ha : s.Alive)
    (hok : s.responseAssembleErrBuffer env code = .ok s') :
    s.Responded s' ∧ s'.ev = s.ev ∧ s'.handler.par.keepAlive = false ∧
      ∃ lines, (s.markError code).errLines env = .ok lines ∧
        s'.pending = s.pending ++ lines.flatten ∧ s'.kernel.sent = s.kernel.sent ++ s.errBody env := by
  unfold responseAssembleErrBuffer at hok
  simp only [ha.touchHandler] at hok
  obtain ⟨lines, hlines, hok⟩ := Run.bind_eq_ok.1 hok
  obtain ⟨t, ht, hok⟩ := Run.bind_eq_ok.1 hok
  -- the session in which the lines are pushed
  obtain ⟨rb, hinv, rfl, hcont⟩ := appendAll_spec (s := ((s.markError code).syscall
    (Kernel.openat env.rootdirFd (str "error.html") (env.root (str "error.html")))).2) hw
    (ha.of_life rfl rfl) ht
  obtain ⟨hsent, hnothing⟩ := sent_errBody env s
  have hopened : (s.kernel.openat env.rootdirFd (str "error.html")
      (env.root (str "error.html"))).2.sent = s.kernel.sent :=
    congrArg Prod.fst (openat_wire _ _ _ s.kernel)
  have hmore : rb.content ≠ [] := by
    rw [hcont]
    exact List.append_ne_nil_of_right_ne_nil _ (flatten_ne_nil_of_mem_crlf (crlf_mem_errLines hlines))
  obtain rfl := Except.ok.inj hok
  split_ifs with hfile
  · refine ⟨⟨⟨rb, hinv, rfl⟩, rfl, ?_, fun _ hempty => absurd hempty hmore⟩, rfl, rfl, lines, hlines,
      hcont, hsent hfile⟩
    show (s.touchedDead || !s.connLive) = s.touchedDead
    simp [ha.conn]
  · refine ⟨⟨⟨rb, hinv, rfl⟩, rfl, rfl, fun _ hempty => absurd hempty hmore⟩, rfl, rfl, lines, hlines,
      hcont, ?_⟩
    rw [hnothing hfile, List.append_nil]
    exact hopened

/-! ## The head and the file -/

/-- What `response_handle` does once `connection_send_buffer` has returned `ret`. -/
def afterHead (env : Env) (ret : Int) (s : WebSession) : Int × WebSession :=
  let r := s.headSent ret
  if r.1 = OK ∧ ¬ r.2.handler.par.responseDone then r.2.responseHandleSendFile env else r

theorem responseHandle_eq {lines : List (List Byte)} {t u : WebSession} {ret : Int}
    (hres : s.handler.resHandler = .sendLineAndHeader) (hlines : s.headLines env = .ok lines)
    (happend : s.appendAll env lines = .ok t) (hsend : t.connectionSendBuffer env = .ok (ret, u)) :
    s.responseHandle env = .ok (u.afterHead env ret) := by
  unfold responseHandle responseHandleSendLineAndHeader
  rw [hres]
  simp only [hlines, happend, hsend, Run.ok_bind, Run.pure_eq_ok]
  unfold afterHead
  simp only
  split_ifs <;> rfl

/-- The file behind the descriptor of a request. -/
def resource (s : WebSession) : List Byte :=
  (s.kernel.fileContent s.handler.resourceFd).getD []

theorem headSent_frame (ret : Int) (ha : s.Alive) :
    (s.headSent ret).2.conn = s.conn ∧ (s.headSent ret).2.ev = s.ev ∧
      (s.headSent ret).2.life = s.life ∧ (s.headSent ret).2.touchedDead = s.touchedDead ∧
      (s.headSent ret).2.handler.par.keepAlive = s.handler.par.keepAlive ∧
      (s.headSent ret).2.handler.resourceFd = s.handler.resourceFd ∧
      (s.headSent ret).2.kernel = s.kernel := by
  unfold headSent
  simp only [ha.touchHandler]
  split_ifs <;> exact ⟨rfl, rfl, rfl, rfl, rfl, rfl, rfl⟩

theorem responseHandleSendFile_frame (env : Env) (ha : s.Alive) :
    (s.responseHandleSendFile env).2.conn = s.conn ∧ (s.responseHandleSendFile env).2.ev = s.ev ∧
      (s.responseHandleSendFile env).2.life = s.life ∧
      (s.responseHandleSendFile env).2.touchedDead = s.touchedDead ∧
      (s.responseHandleSendFile env).2.handler.par.keepAlive = s.handler.par.keepAlive ∧
      ∃ tail, (s.responseHandleSendFile env).2.kernel.sent = s.kernel.sent ++ tail ∧
        tail <+: s.resource := by
  have hsent := Kernel.sent_sendfile env s.handler.resourceFd (toSizeT s.handler.resourceSize) s.kernel
  unfold responseHandleSendFile
  simp only [ha.touchHandler, ha.touchConn, syscall]
  split_ifs <;> exact ⟨rfl, rfl, rfl, rfl, rfl, hsent⟩

/-- Nothing follows a head that waits. -/
theorem afterHead_waiting (env : Env) {ret : Int} (ha : s.Alive) (hret : ret ≠ 0) :
    (s.afterHead env ret).2.kernel = s.kernel := by
  unfold afterHead headSent
  simp only [ha.touchHandler]
  rw [if_neg hret]
  by_cases hone : ret = 1
  · simp [hone, setResponseDone, setPar]
  · have hne : ¬ (500 : Int) = OK := by decide
    simp only [if_neg hone, if_neg (fun h : (500 : Int) = OK ∧ _ => hne h.1)]

/-- What happens behind the head leaves the connection alone, and sends a beginning of the file,
if the head is gone. -/
theorem afterHead_frame (env : Env) (ret : Int) (ha : s.Alive) :
    (s.afterHead env ret).2.conn = s.conn ∧ (s.afterHead env ret).2.ev = s.ev ∧
      (s.afterHead env ret).2.life = s.life ∧
      (s.afterHead env ret).2.touchedDead = s.touchedDead ∧
      (s.afterHead env ret).2.handler.par.keepAlive = s.handler.par.keepAlive ∧
      ∃ tail, (s.afterHead env ret).2.kernel.sent = s.kernel.sent ++ tail ∧ tail <+: s.resource ∧
        (ret ≠ 0 → tail = []) := by
  obtain ⟨hconn, hev, hlife, htouched, hkeep, hfd, hkernel⟩ := headSent_frame ret ha
  obtain ⟨hconn', hev', hlife', htouched', hkeep', tail, hsent, hfile⟩ :=
    responseHandleSendFile_frame env (ha.of_life hlife htouched)
  have hresource : (s.headSent ret).2.resource = s.resource := by
    unfold resource
    rw [hkernel, hfd]
  have hwaiting := fun hret : ret ≠ 0 => congrArg Kernel.sent (afterHead_waiting env ha hret)
  unfold afterHead at hwaiting ⊢
  simp only at hwaiting ⊢
  split_ifs at hwaiting ⊢
  · refine ⟨hconn'.trans hconn, hev'.trans hev, hlife'.trans hlife, htouched'.trans htouched,
      hkeep'.trans hkeep, tail, by rw [hsent, hkernel], hresource ▸ hfile, fun hret => ?_⟩
    have hsame := hwaiting hret
    rw [hsent, hkernel] at hsame
    exact List.append_right_eq_self.1 hsame
  · exact ⟨hconn, hev, hlife, htouched, hkeep, [], by rw [hkernel, List.append_nil],
      List.nil_prefix, fun _ => rfl⟩

/-- A head has been assembled and queued. -/
theorem exists_head_of_responseHandle {r : Int × WebSession}
    (hres : s.handler.resHandler = .sendLineAndHeader) (hok : s.responseHandle env = .ok r) :
    ∃ lines t, s.headLines env = .ok lines ∧ s.appendAll env lines = .ok t := by
  unfold responseHandle at hok
  rw [hres] at hok
  obtain ⟨_, hhead, -⟩ := Run.bind_eq_ok.1 hok
  unfold responseHandleSendLineAndHeader at hhead
  obtain ⟨lines, hlines, hhead⟩ := Run.bind_eq_ok.1 hhead
  obtain ⟨t, happend, -⟩ := Run.bind_eq_ok.1 hhead
  exact ⟨lines, t, hlines, happend⟩

/-- The pending bytes with the head behind them, offered to `send`, are all taken. -/
def TakesHead (env : Env) (s : WebSession) (head : List Byte) : Prop :=
  ∃ n, env.send s.kernel.sends = some n ∧ (s.pending ++ head).length ≤ n

/-- A head has been queued, and what waits has been offered to `send`: nothing is left exactly when
`send` takes the head and all that was waiting before it.  Where `send` takes a part, the rest waits
for the socket. -/
def HeadOffered (env : Env) (s : WebSession) (head : List Byte) (ret : Int) (u : WebSession) : Prop :=
  s.Responded u ∧ u.handler = s.handler ∧ u.kernel.files = s.kernel.files ∧
    u.kernel.sendfiles = s.kernel.sendfiles ∧ u.stream = s.stream ++ head ∧
    ((ret = 0 ∧ s.TakesHead env head ∧ u.pending = [] ∧ u.ev = s.ev) ∨
      (ret ≠ 0 ∧ ¬ s.TakesHead env head ∧ u.pending ≠ [] ∧
        ((s.SendsNothing env ∧ u.ev = s.ev) ∨ (¬ s.SendsNothing env ∧ u.ev = s.setOut true))))

/-- **A head is queued and what waits is sent.** -/
theorem connectionSendBuffer_head {lines : List (List Byte)} {t : WebSession}
    (hw : s.conn.ringBufferWrite.Inv) (ha : s.Alive) (hcrlf : crlf ∈ lines)
    (happend : s.appendAll env lines = .ok t) :
    ∃ ret u, t.connectionSendBuffer env = .ok (ret, u) ∧ s.HeadOffered env lines.flatten ret u := by
  obtain ⟨rb, hinv, rfl, hcont⟩ := appendAll_spec hw ha happend
  have hpending : (s.setWrite rb).pending = s.pending ++ lines.flatten := hcont
  have hne : (s.setWrite rb).pending ≠ [] := by
    rw [hpending]
    exact List.append_ne_nil_of_right_ne_nil _ (flatten_ne_nil_of_mem_crlf hcrlf)
  have hresp : s.Responded (s.setWrite rb) :=
    ⟨⟨rb, hinv, rfl⟩, rfl, rfl, fun _ hempty => absurd hempty hne⟩
  obtain ⟨ret, u, hsend, hsent, hcases⟩ :=
    connectionSendBuffer_spec env (s := s.setWrite rb) hinv (hresp.alive ha) hne
  have hall : (s.setWrite rb).SendsAll env ↔ s.TakesHead env lines.flatten := by
    unfold SendsAll TakesHead
    rw [hpending]
    rfl
  rw [hall] at hcases
  refine ⟨ret, u, hsend, hresp.trans hsent.responded, hsent.handler, hsent.files, hsent.sendfiles, ?_,
    hcases⟩
  rw [hsent.stream]
  show s.kernel.sent ++ (s.setWrite rb).pending = _
  rw [hpending, ← List.append_assoc]
  rfl

/-- The bytes of the head are what `response_handle_send_line_and_header` adds. -/
theorem responseHandleSendLineAndHeader_cases {r : Int × WebSession}
    (hw : s.conn.ringBufferWrite.Inv) (ha : s.Alive)
    (h : s.responseHandleSendLineAndHeader env = .ok r) :
    ∃ lines ret u, s.headLines env = .ok lines ∧ r = u.headSent ret ∧ s.Responded u ∧
      u.handler = s.handler ∧ u.stream = s.stream ++ lines.flatten := by
  unfold responseHandleSendLineAndHeader at h
  obtain ⟨lines, hlines, h⟩ := Run.bind_eq_ok.1 h
  obtain ⟨t, ht, h⟩ := Run.bind_eq_ok.1 h
  obtain ⟨⟨ret, u⟩, hu, h⟩ := Run.bind_eq_ok.1 h
  obtain ⟨ret', u', hsend, hresp, hhandler, -, -, hstream, -⟩ :=
    connectionSendBuffer_head hw ha (crlf_mem_headLines hlines) ht
  obtain ⟨rfl, rfl⟩ := Prod.mk.inj (Run.ok_unique hu hsend)
  exact ⟨lines, ret, u, hlines, (Except.ok.inj h).symm, hresp, hhandler, hstream⟩

/-- The same of `response_handle`, which goes on behind the head. -/
theorem responseHandle_spec {lines : List (List Byte)} {t : WebSession}
    (hw : s.conn.ringBufferWrite.Inv) (ha : s.Alive)
    (hres : s.handler.resHandler = .sendLineAndHeader) (hlines : s.headLines env = .ok lines)
    (happend : s.appendAll env lines = .ok t) :
    ∃ ret u, s.responseHandle env = .ok (u.afterHead env ret) ∧
      s.HeadOffered env lines.flatten ret u := by
  obtain ⟨ret, u, hsend, hrest⟩ :=
    @connectionSendBuffer_head env _ _ _ hw ha (crlf_mem_headLines hlines) happend
  exact ⟨ret, u, responseHandle_eq hres hlines happend hsend, hrest⟩

/-! ## The end of a request -/

/-- Closing the resource leaves the connection alone. -/
theorem httpRequestHandleUnint_frame (s : WebSession) :
    s.httpRequestHandleUnint.conn = s.conn ∧ s.httpRequestHandleUnint.ev = s.ev ∧
      s.httpRequestHandleUnint.kernel.sent = s.kernel.sent ∧
      s.httpRequestHandleUnint.life = s.life ∧
      s.httpRequestHandleUnint.touchedDead = (s.touchedDead || !s.handlerLive) := by
  unfold httpRequestHandleUnint
  simp only
  split_ifs <;> exact ⟨rfl, rfl, rfl, rfl, rfl⟩

/-- What the end of `http_request` makes of a live connection. -/
inductive Finished (s s' : WebSession) : Prop
  /-- A short connection with nothing left to send. -/
  | freed (short : s.handler.par.keepAlive = false) (empty : s.pending = [])
      (touched : s'.touchedDead = true) (freed : s.Freed s')
  /-- A short connection that is left to drain. -/
  | closing (short : s.handler.par.keepAlive = false) (waits : s.pending ≠ [])
      (life : s'.life = s.life) (touched : s'.touchedDead = s.touchedDead)
      (state : s'.conn.state = .closing) (ev : s'.ev = s.setOut true)
  | kept (long : s.handler.par.keepAlive = true) (life : s'.life = s.life)
      (touched : s'.touchedDead = s.touchedDead) (conn : s'.conn = s.conn) (ev : s'.ev = s.ev)

/-- **A short connection is closed**: it is freed at once when nothing waits, and the
function goes on with the freed request; otherwise it is left to drain. -/
theorem finishRequest_spec (hw : s.conn.ringBufferWrite.Inv) (ha : s.Alive) :
    s.Idle s.finishRequest ∧ s.Finished s.finishRequest := by
  unfold finishRequest
  simp only [ha.touchHandler]
  cases hkeep : s.handler.par.keepAlive with
  | true =>
    obtain ⟨hconn, hev, hsent, hlife, htouched⟩ := httpRequestHandleUnint_frame s
    have huntouched : (s.touchedDead || !s.handlerLive) = s.touchedDead := by simp [ha.handler]
    rw [if_pos rfl]
    exact ⟨⟨by rw [hconn], by rw [hconn], hsent⟩,
      .kept hkeep hlife (htouched.trans huntouched) hconn hev⟩
  | false =>
    obtain ⟨hconn, hev, hsent, hlife, htouched⟩ :=
      httpRequestHandleUnint_frame s.connectionDisconnect
    obtain ⟨hidle, hcases⟩ := connectionDisconnect_spec hw ha
    rw [if_neg Bool.false_ne_true]
    refine ⟨hidle.trans ⟨by rw [hconn], by rw [hconn], hsent⟩, ?_⟩
    rcases hcases with ⟨hp, htouched', hfreed⟩ | ⟨hp, hlife', htouched', hstate, hev'⟩
    · refine .freed hkeep hp ?_ (hlife.trans hfreed)
      rw [htouched, htouched']
      rfl
    · have hlive : s.connectionDisconnect.handlerLive = true := by
        simp only [life, Prod.mk.injEq] at hlife'
        exact hlife'.2.2.1.trans ha.handler
      refine .closing hkeep hp (hlife.trans hlife') ?_ (by rw [hconn]; exact hstate)
        (hev.trans hev')
      rw [htouched, hlive, htouched']
      simp

/-! ## `http_request` -/

/-- The handlers' part of `http_request`: the reset and the `do`-`while` loop. -/
def handleRequest (env : Env) (s : WebSession) : Except Fault (Int × WebSession) :=
  s.httpRequestHandleReset.touchConn.handlerLoop env s.handlerFuel

theorem httpRequest_eq_ok :
    s.httpRequest env = .ok s' ↔ ∃ status s₁ s₂ s₃, s.handleRequest env = .ok (status, s₁) ∧
      s₁.releaseRead s.conn.ringBufferRead.readableBytes = .ok s₂ ∧
      s₂.respond env status = .ok s₃ ∧ s' = s₃.finishRequest := by
  have heq : s.httpRequest env = s.handleRequest env >>= fun r =>
      r.2.releaseRead s.conn.ringBufferRead.readableBytes >>= fun s₂ =>
        s₂.respond env r.1 >>= fun s₃ => .ok s₃.finishRequest := rfl
  rw [heq]
  constructor
  · intro h
    obtain ⟨⟨status, s₁⟩, h1, h⟩ := Run.bind_eq_ok.1 h
    obtain ⟨s₂, h2, h⟩ := Run.bind_eq_ok.1 h
    obtain ⟨s₃, h3, h⟩ := Run.bind_eq_ok.1 h
    exact ⟨status, s₁, s₂, s₃, h1, h2, h3, (Except.ok.inj h).symm⟩
  · rintro ⟨status, s₁, s₂, s₃, h1, h2, h3, rfl⟩
    simp only [h1, h2, h3, Run.ok_bind]

/-- The session the handlers begin with. -/
theorem reset_frame (ha : s.Alive) :
    s.httpRequestHandleReset.touchConn.conn = s.conn ∧
      s.httpRequestHandleReset.touchConn.life = s.life ∧
      s.httpRequestHandleReset.touchConn.touchedDead = s.touchedDead ∧
      s.httpRequestHandleReset.touchConn.wire = s.wire ∧
      s.httpRequestHandleReset.touchConn.handler.par = parseArchiveInit ∧
      s.httpRequestHandleReset.touchConn.handler.reqHandler = some .requestLine ∧
      s.httpRequestHandleReset.touchConn.handler.resHandler = .sendLineAndHeader ∧
      s.httpRequestHandleReset.touchConn.handler.statusCode = 200 := by
  refine ⟨rfl, rfl, ?_, rfl, rfl, rfl, rfl, rfl⟩
  show ((s.touchedDead || !s.handlerLive) || !s.connLive) = s.touchedDead
  simp [ha.handler, ha.conn]

/-- What the handlers leave of a session. -/
structure Read (s s' : WebSession) : Prop where
  conn : ∃ mem : Mem, mem.length = s.readMem.length ∧
    s'.conn = { s.conn with ringBufferRead := { s.conn.ringBufferRead with msg := mem } }
  life : s'.life = s.life
  touched : s'.touchedDead = s.touchedDead
  wire : s'.wire = s.wire
  resHandler : s'.handler.resHandler = .sendLineAndHeader
  statusCode : s'.handler.statusCode = 200

theorem handleRequest_read (ha : s.Alive) {status : Int}
    (h : s.handleRequest env = .ok (status, s')) : s.Read s' := by
  obtain ⟨hconn, hlife, htouched, hwire, -, -, hres, hcode⟩ := reset_frame ha
  have hh := handlerLoop_handled h
  obtain ⟨mem, hlen, hconn'⟩ := hh.conn
  simp only [life, Prod.mk.injEq] at hlife
  exact ⟨⟨mem, hlen, hconn'⟩, hh.life, (hh.touched (hlife.1.trans ha.conn)
    (hlife.2.2.1.trans ha.handler)).trans htouched, hh.wire.trans hwire, hh.resHandler.trans hres,
    hh.statusCode.trans hcode⟩

theorem Read.alive (h : s.Read s') (ha : s.Alive) : s'.Alive := ha.of_life h.life h.touched

theorem Read.write (h : s.Read s') : s'.conn.ringBufferWrite = s.conn.ringBufferWrite := by
  obtain ⟨mem, -, hconn⟩ := h.conn
  rw [hconn]

theorem Read.readableBytes (h : s.Read s') :
    s'.conn.ringBufferRead.readableBytes = s.conn.ringBufferRead.readableBytes := by
  obtain ⟨mem, -, hconn⟩ := h.conn
  rw [hconn]
  rfl

theorem Read.inv (h : s.Read s') (hinv : s.conn.ringBufferRead.Inv) :
    s'.conn.ringBufferRead.Inv := by
  obtain ⟨mem, hlen, hconn⟩ := h.conn
  obtain ⟨h1, h2, h3, h4⟩ := hinv
  rw [hconn]
  exact ⟨h1, h2, h3, by rw [← h4]; exact congrArg Nat.cast hlen⟩

/-- Giving the bytes of the message back leaves a live connection with an empty read buffer. -/
theorem Read.release {t : WebSession} (h : s.Read s') (hw : s.conn.ringBufferWrite.Inv)
    (ha : s.Alive) (hok : s'.releaseRead s.conn.ringBufferRead.readableBytes = .ok t) :
    (∃ rb, t = s'.setRead rb) ∧ t.Alive ∧ t.conn.ringBufferWrite = s.conn.ringBufferWrite ∧
      t.conn.ringBufferWrite.Inv ∧ t.conn.ringBufferRead.content = [] := by
  have ha' := h.alive ha
  rw [← h.readableBytes] at hok
  unfold releaseRead at hok
  simp only [ha'.touchHandler, ha'.touchConn] at hok
  obtain ⟨rb, hrb, hok⟩ := Run.bind_eq_ok.1 hok
  obtain rfl := Except.ok.inj hok
  obtain ⟨hstart, hend⟩ := RingBuffer.releaseBytes_all hrb
  refine ⟨⟨rb, rfl⟩, ha'.of_life rfl rfl, h.write, ?_, ?_⟩
  · show s'.conn.ringBufferWrite.Inv
    rw [h.write]
    exact hw
  · show rb.content = []
    rw [RingBuffer.content, hstart, hend]
    rfl

/-- What the handlers and the release leave of a session, for the response to begin with. -/
theorem Read.stream {t : WebSession} (h : s.Read s') {rb : RingBuffer} (ht : t = s'.setRead rb) :
    t.stream = s.stream ∧ t.kernel.sends = s.kernel.sends ∧
      t.kernel.sendfiles = s.kernel.sendfiles ∧ t.pending = s.pending := by
  subst ht
  obtain ⟨hsent, hrest⟩ := Prod.mk.inj h.wire
  obtain ⟨hsends, hsendfiles⟩ := Prod.mk.inj hrest
  have hpending : (s'.setRead rb).pending = s.pending := congrArg RingBuffer.content h.write
  exact ⟨congrArg₂ (· ++ ·) hsent hpending, hsends, hsendfiles, hpending⟩

/-- The request is accepted and asks for the connection to be closed, its head finds room in
the write buffer, and `send` takes it and all that was waiting before it. -/
def ClosesAtOnce (env : Env) (s : WebSession) : Prop :=
  ∃ s₁ s₂ lines, s.handleRequest env = .ok (OK, s₁) ∧ s₁.handler.par.keepAlive = false ∧
    s₁.releaseRead s.conn.ringBufferRead.readableBytes = .ok s₂ ∧
    s₂.headLines env = .ok lines ∧ (∃ t, s₂.appendAll env lines = .ok t) ∧ s₂.TakesHead env lines.flatten

theorem httpRequest_of_closesAtOnce (hw : s.conn.ringBufferWrite.Inv) (ha : s.Alive)
    (h : s.ClosesAtOnce env) : ∃ s', s.httpRequest env = .ok s' := by
  obtain ⟨s₁, s₂, lines, h1, -, h2, hlines, ⟨t, happend⟩, -⟩ := h
  have hread := handleRequest_read ha h1
  obtain ⟨⟨rb, rfl⟩, ha₂, -, hw₂, -⟩ := hread.release hw ha h2
  obtain ⟨ret, u, hresp, -⟩ := responseHandle_spec hw₂ ha₂ hread.resHandler hlines happend
  refine ⟨_, httpRequest_eq_ok.2 ⟨OK, s₁, _, (u.afterHead env ret).2, h1, h2, ?_, rfl⟩⟩
  unfold respond
  rw [if_pos rfl, hresp]
  rfl

/-- The request is accepted, the handlers leave it as `s₁`, and `head` is the head of the
response. -/
def Head (env : Env) (s s₁ : WebSession) (head : List Byte) : Prop :=
  ∃ s₂ lines, s₁.releaseRead s.conn.ringBufferRead.readableBytes = .ok s₂ ∧
    s₂.headLines env = .ok lines ∧ head = lines.flatten

/-- The head of a response is not empty. -/
theorem Head.ne_nil {s₁ : WebSession} {head : List Byte} (h : s.Head env s₁ head) : head ≠ [] := by
  obtain ⟨s₂, lines, -, hlines, rfl⟩ := h
  exact flatten_ne_nil_of_mem_crlf (crlf_mem_headLines hlines)

theorem Head.unique {s₁ : WebSession} {head head' : List Byte} (h : s.Head env s₁ head)
    (h' : s.Head env s₁ head') : head = head' := by
  obtain ⟨s₂, lines, h2, hlines, rfl⟩ := h
  obtain ⟨t₂, lines', ht₂, hlines', rfl⟩ := h'
  obtain rfl := Run.ok_unique h2 ht₂
  rw [Run.ok_unique hlines hlines']

/-- The request is accepted and keeps the connection. -/
def Persists (env : Env) (s s₁ : WebSession) : Prop :=
  s.handleRequest env = .ok (OK, s₁) ∧ s₁.handler.par.keepAlive = true

/-- **What `http_request` makes of a live connection.** -/
inductive Outcome (env : Env) (s s' : WebSession) : Prop
  | freed (closes : s.ClosesAtOnce env) (touched : s'.touchedDead = true) (empty : s'.pending = [])
      (freed : s.Freed s')
  /-- The connection is left to drain. -/
  | closing (not_closes : ¬ s.ClosesAtOnce env) (short : ∀ s₁, ¬ s.Persists env s₁)
      (life : s'.life = s.life) (touched : s'.touchedDead = s.touchedDead)
      (waits : s'.pending ≠ []) (state : s'.conn.state = .closing) (ev : s'.ev = s.setOut true)
  /-- The head and a beginning of the file are sent or wait. -/
  | kept {s₁ : WebSession} {head tail : List Byte} (not_closes : ¬ s.ClosesAtOnce env)
      (persists : s.Persists env s₁) (head_eq : s.Head env s₁ head)
      (stream : s'.stream = s.stream ++ (head ++ tail)) (file : tail <+: s₁.resource)
      (life : s'.life = s.life) (touched : s'.touchedDead = s.touchedDead)
      (state : s'.conn.state = s.conn.state)
      (sent : (s.TakesHead env head ∧ s'.pending = [] ∧ s'.ev = s.ev) ∨
        (¬ s.TakesHead env head ∧ s'.pending ≠ [] ∧
          ((s.SendsNothing env ∧ s'.ev = s.ev) ∨ (¬ s.SendsNothing env ∧ s'.ev = s.setOut true))))

/-- Between the handlers and the response: the bytes of the message are given back, and beside
them nothing has changed but the request and the files. -/
structure Released (s s₁ s₂ : WebSession) : Prop where
  alive : s₂.Alive
  write : s₂.conn.ringBufferWrite.Inv
  empty : s₂.conn.ringBufferRead.content = []
  stream : s₂.stream = s.stream
  pending : s₂.pending = s.pending
  sends : s₂.kernel.sends = s.kernel.sends
  sendfiles : s₂.kernel.sendfiles = s.kernel.sendfiles
  life : s₂.life = s.life
  touched : s₂.touchedDead = s.touchedDead
  state : s₂.conn.state = s.conn.state
  ev : s₂.ev = s.ev
  resHandler : s₂.handler.resHandler = .sendLineAndHeader
  handler : s₂.handler = s₁.handler
  kernel : s₂.kernel = s₁.kernel

theorem handleRequest_released {status : Int} {s₁ s₂ : WebSession}
    (hw : s.conn.ringBufferWrite.Inv) (ha : s.Alive) (h1 : s.handleRequest env = .ok (status, s₁))
    (h2 : s₁.releaseRead s.conn.ringBufferRead.readableBytes = .ok s₂) : s.Released s₁ s₂ := by
  have hread := handleRequest_read ha h1
  obtain ⟨⟨rb, rfl⟩, ha₂, -, hw₂, hempty⟩ := hread.release hw ha h2
  obtain ⟨hstream, hsends, hsendfiles, hpending⟩ := hread.stream rfl
  obtain ⟨mem, -, hconn⟩ := hread.conn
  refine ⟨ha₂, hw₂, hempty, hstream, hpending, hsends, hsendfiles, hread.life, hread.touched, ?_,
    (handlerLoop_handled h1).ev, hread.resHandler, rfl, rfl⟩
  show s₁.conn.state = s.conn.state
  rw [hconn]

/-- The socket takes of a head what it took before. -/
theorem Released.takesHead_iff {s₁ s₂ : WebSession} (h : s.Released s₁ s₂) (head : List Byte) :
    s₂.TakesHead env head ↔ s.TakesHead env head := by
  unfold TakesHead
  rw [h.sends, h.pending]

/-- The bytes of a message can be given back. -/
theorem handleRequest_releases {status : Int} {s₁ : WebSession} (hr : s.conn.ringBufferRead.Inv)
    (ha : s.Alive) (h1 : s.handleRequest env = .ok (status, s₁)) :
    ∃ rb, s₁.releaseRead s.conn.ringBufferRead.readableBytes = .ok (s₁.setRead rb) ∧ rb.Inv := by
  have hread := handleRequest_read ha h1
  have hpos : 0 ≤ s.conn.ringBufferRead.readableBytes := by
    unfold RingBuffer.readableBytes
    have := hr.start_le_end
    omega
  obtain ⟨rb, hrelease, hinv, -⟩ :=
    RingBuffer.releaseBytes_spec (hread.inv hr) hpos (le_of_eq hread.readableBytes.symm)
  refine ⟨rb, ?_, hinv⟩
  unfold releaseRead
  simp only [(hread.alive ha).touchHandler, (hread.alive ha).touchConn]
  rw [hrelease]
  rfl

theorem setOut_of_ev {out : Bool} (h : s'.ev = s.ev) : s'.setOut out = s.setOut out := by
  unfold setOut
  rw [h]

theorem setOut_setOut {out out' : Bool} (h : s'.ev = s.setOut out') :
    s'.setOut out = s.setOut out := by
  unfold setOut at h ⊢
  rw [h]

/-- What `response_handle` does behind the release: the head is queued, what waits is sent, and a
beginning of the file follows a head that is gone. -/
theorem responseHandle_released {s₁ s₂ : WebSession} {r : Int × WebSession}
    (h : s.Released s₁ s₂) (hok : s₂.responseHandle env = .ok r) :
    ∃ lines tail, s₂.headLines env = .ok lines ∧ (∃ t, s₂.appendAll env lines = .ok t) ∧
      s₂.Responded r.2 ∧ r.2.conn.state = s.conn.state ∧
      r.2.handler.par.keepAlive = s₁.handler.par.keepAlive ∧
      r.2.stream = s.stream ++ (lines.flatten ++ tail) ∧ tail <+: s₁.resource ∧
      ((s.TakesHead env lines.flatten ∧ r.2.pending = [] ∧ r.2.ev = s.ev) ∨
        (¬ s.TakesHead env lines.flatten ∧ r.2.pending ≠ [] ∧
          ((s.SendsNothing env ∧ r.2.ev = s.ev) ∨
            (¬ s.SendsNothing env ∧ r.2.ev = s.setOut true)))) := by
  obtain ⟨lines, t, hlines, happend⟩ := exists_head_of_responseHandle h.resHandler hok
  obtain ⟨ret, u, hresp, hframe, hhandler, hfiles, -, hu, hcases⟩ :=
    responseHandle_spec h.write h.alive h.resHandler hlines happend
  obtain rfl := Run.ok_unique hresp hok
  obtain ⟨hconn, hev, hlife, htouched, hkeep, tail, hsent, hfile, hwaiting⟩ :=
    afterHead_frame env ret (hframe.alive h.alive)
  have hpending : (u.afterHead env ret).2.pending = u.pending :=
    congrArg (fun conn : Connection => conn.ringBufferWrite.content) hconn
  have hnothing : s₂.SendsNothing env ↔ s.SendsNothing env := by
    unfold SendsNothing
    rw [h.sends]
  have hresource : u.resource = s₁.resource := by
    unfold resource
    rw [hhandler, h.handler, Kernel.fileContent_congr (hfiles.trans (by rw [h.kernel]))]
  have hstate : u.conn.state = s.conn.state := by
    obtain ⟨rb, -, hu⟩ := hframe.conn
    rw [hu]
    exact h.state
  rw [h.stream] at hu
  rw [h.takesHead_iff, hnothing, setOut_of_ev h.ev, h.ev] at hcases
  refine ⟨lines, tail, hlines, ⟨t, happend⟩,
    hframe.trans (responded_of_conn hframe.write hconn hlife htouched), by rw [hconn]; exact hstate,
    by rw [hkeep, hhandler, h.handler], ?_, hresource ▸ hfile, ?_⟩
  · show (u.afterHead env ret).2.kernel.sent ++ (u.afterHead env ret).2.pending = _
    rw [hpending, hsent, ← List.append_assoc, ← hu]
    rcases hcases with ⟨-, -, hnil, -⟩ | ⟨hret, -⟩
    · rw [Session.stream, hnil, List.append_nil, List.append_nil]
    · rw [hwaiting hret, List.append_nil, List.append_nil]
      rfl
  · rw [hpending, hev]
    rcases hcases with ⟨-, hcase⟩ | ⟨-, hcase⟩
    · exact Or.inl hcase
    · exact Or.inr hcase

/-- Both responses leave the read buffer alone. -/
theorem Released.responded {status : Int} {s₁ s₂ : WebSession} (h : s.Released s₁ s₂)
    (hok : s₂.respond env status = .ok s') : s₂.Responded s' := by
  unfold respond at hok
  split_ifs at hok
  · obtain ⟨r, hr, hok⟩ := Run.bind_eq_ok.1 hok
    obtain rfl := Except.ok.inj hok
    obtain ⟨-, -, -, -, hresp, -⟩ := responseHandle_released h hr
    exact hresp
  · exact (responseAssembleErrBuffer_spec h.write h.alive hok).1

/-- **A request leaves a sound read buffer.** -/
theorem httpRequest_readInv (hw : s.conn.ringBufferWrite.Inv) (hr : s.conn.ringBufferRead.Inv)
    (ha : s.Alive) (h : s.httpRequest env = .ok s') : s'.conn.ringBufferRead.Inv := by
  obtain ⟨status, s₁, s₂, s₃, h1, h2, h3, rfl⟩ := httpRequest_eq_ok.1 h
  obtain ⟨rb, hrelease, hinv⟩ := handleRequest_releases hr ha h1
  obtain rfl := Run.ok_unique hrelease h2
  have hrel := handleRequest_released hw ha h1 h2
  have hresp := hrel.responded h3
  obtain ⟨hidle, -⟩ := finishRequest_spec hresp.write (hresp.alive hrel.alive)
  rw [hidle.read, hresp.read]
  exact hinv

/-- When an accepted request closes at once: it turns `keep_alive` off, and its head is taken. -/
theorem Released.closesAtOnce_iff {s₁ s₂ : WebSession} {lines : List (List Byte)}
    (h : s.Released s₁ s₂) (h1 : s.handleRequest env = .ok (OK, s₁))
    (h2 : s₁.releaseRead s.conn.ringBufferRead.readableBytes = .ok s₂)
    (hlines : s₂.headLines env = .ok lines) (happend : ∃ t, s₂.appendAll env lines = .ok t) :
    s.ClosesAtOnce env ↔ s₁.handler.par.keepAlive = false ∧ s.TakesHead env lines.flatten := by
  rw [← h.takesHead_iff]
  constructor
  · rintro ⟨t₁, t₂, lines', ht₁, hk, ht₂, hlines', -, htakes⟩
    obtain rfl : s₁ = t₁ := congrArg Prod.snd (Run.ok_unique h1 ht₁)
    obtain rfl := Run.ok_unique h2 ht₂
    obtain rfl := Run.ok_unique hlines hlines'
    exact ⟨hk, htakes⟩
  · rintro ⟨hk, htakes⟩
    exact ⟨s₁, s₂, lines, h1, hk, h2, hlines, happend, htakes⟩

/-- **Behind a response with a file** the connection is kept, or closed. -/
theorem Released.outcome_served {s₁ s₂ : WebSession} {r : Int × WebSession} (h : s.Released s₁ s₂)
    (h1 : s.handleRequest env = .ok (OK, s₁))
    (h2 : s₁.releaseRead s.conn.ringBufferRead.readableBytes = .ok s₂)
    (h3 : s₂.responseHandle env = .ok r) :
    r.2.finishRequest.conn.ringBufferRead.content = [] ∧
      s.stream.length < r.2.finishRequest.stream.length ∧
      r.2.finishRequest.conn.ringBufferWrite.Inv ∧ s.Outcome env r.2.finishRequest := by
  obtain ⟨lines, tail, hlines, happend, hresp, hstate, hkeep, hstream, hfile, hsent⟩ :=
    responseHandle_released h h3
  obtain ⟨hidle, hfin⟩ := finishRequest_spec hresp.write (hresp.alive h.alive)
  have hcloses := h.closesAtOnce_iff h1 h2 hlines happend
  refine ⟨?_, ?_, by rw [hidle.write]; exact hresp.write, ?_⟩
  · rw [hidle.read, hresp.read]
    exact h.empty
  · have hpos := List.length_pos_iff.2 (flatten_ne_nil_of_mem_crlf (crlf_mem_headLines hlines))
    rw [hidle.stream, hstream]
    simp only [List.length_append]
    omega
  · cases hfin with
    | freed short empty touched freed =>
      rcases hsent with ⟨htakes, -⟩ | ⟨-, hmore, -⟩
      · exact .freed (hcloses.2 ⟨hkeep ▸ short, htakes⟩) touched (hidle.pending.trans empty)
          (freed.of_life (hresp.life.trans h.life))
      · exact absurd empty hmore
    | closing short waits life touched state ev =>
      rcases hsent with ⟨-, hempty, -⟩ | ⟨hnot, -, hev⟩
      · exact absurd hempty waits
      · refine .closing (fun hc => hnot (hcloses.1 hc).2) ?_
          (life.trans (hresp.life.trans h.life))
          (touched.trans (hresp.touched.trans h.touched)) (by rw [hidle.pending]; exact waits)
          state ?_
        · rintro u ⟨hu, hlong⟩
          obtain rfl : s₁ = u := congrArg Prod.snd (Run.ok_unique h1 hu)
          exact Bool.noConfusion ((hkeep.symm.trans short).symm.trans hlong)
        · rcases hev with ⟨-, hev⟩ | ⟨-, hev⟩
          · exact ev.trans (setOut_of_ev hev)
          · exact ev.trans (setOut_setOut hev)
    | kept long life touched conn ev =>
      have hlong : s₁.handler.par.keepAlive = true := hkeep.symm.trans long
      refine .kept (fun hc => Bool.noConfusion ((hcloses.1 hc).1.symm.trans hlong)) ⟨h1, hlong⟩
        ⟨s₂, lines, h2, hlines, rfl⟩ (hidle.stream.trans hstream) hfile
        (life.trans (hresp.life.trans h.life))
        (touched.trans (hresp.touched.trans h.touched)) (by rw [conn]; exact hstate) ?_
      rw [hidle.pending, ev]
      exact hsent

/-- **Behind an error response** the connection is left to drain. -/
theorem Released.outcome_failed {status : Int} {s₁ s₂ s₃ : WebSession} (h : s.Released s₁ s₂)
    (h1 : s.handleRequest env = .ok (status, s₁)) (hstatus : status ≠ OK)
    (h3 : s₂.responseAssembleErrBuffer env status = .ok s₃) :
    s₃.finishRequest.conn.ringBufferRead.content = [] ∧
      s.stream.length < s₃.finishRequest.stream.length ∧
      s₃.finishRequest.conn.ringBufferWrite.Inv ∧ s.Outcome env s₃.finishRequest := by
  obtain ⟨hresp, hev, hshort, lines, hlines, hpending, hsent⟩ :=
    responseAssembleErrBuffer_spec h.write h.alive h3
  obtain ⟨hidle, hfin⟩ := finishRequest_spec hresp.write (hresp.alive h.alive)
  have hhead := flatten_ne_nil_of_mem_crlf (crlf_mem_errLines hlines)
  have hwaits : s₃.pending ≠ [] := by
    rw [hpending]
    exact List.append_ne_nil_of_right_ne_nil _ hhead
  refine ⟨?_, ?_, by rw [hidle.write]; exact hresp.write, ?_⟩
  · rw [hidle.read, hresp.read]
    exact h.empty
  · have hpos := List.length_pos_iff.2 hhead
    rw [hidle.stream, ← h.stream]
    unfold Session.stream
    rw [hpending, hsent]
    simp only [List.length_append]
    omega
  · have hfails : ∀ u, ¬ s.handleRequest env = .ok (OK, u) := fun u hu =>
      hstatus (congrArg Prod.fst (Run.ok_unique h1 hu))
    cases hfin with
    | freed short empty touched freed => exact absurd empty hwaits
    | closing short waits life touched state ev =>
      exact .closing (fun ⟨u, _, _, hu, _⟩ => hfails u hu) (fun u hu => hfails u hu.1)
        (life.trans (hresp.life.trans h.life))
        (touched.trans (hresp.touched.trans h.touched)) (by rw [hidle.pending]; exact waits)
        state (ev.trans (setOut_of_ev (hev.trans h.ev)))
    | kept long => exact Bool.noConfusion (hshort.symm.trans long)

/-- **What `http_request` does to a live connection.**  Whatever the message was, it empties the
read buffer and responds; and it frees the connection, and goes on with it, in one case only. -/
theorem httpRequest_outcome (hw : s.conn.ringBufferWrite.Inv) (ha : s.Alive)
    (h : s.httpRequest env = .ok s') :
    s'.conn.ringBufferRead.content = [] ∧ s.stream.length < s'.stream.length ∧
      s'.conn.ringBufferWrite.Inv ∧ s.Outcome env s' := by
  obtain ⟨status, s₁, s₂, s₃, h1, h2, h3, rfl⟩ := httpRequest_eq_ok.1 h
  have hrel := handleRequest_released hw ha h1 h2
  unfold respond at h3
  by_cases hstatus : status = OK
  · subst hstatus
    rw [if_pos rfl] at h3
    obtain ⟨r, hr, h3⟩ := Run.bind_eq_ok.1 h3
    obtain rfl := Except.ok.inj h3
    exact hrel.outcome_served h1 h2 hr
  · rw [if_neg hstatus] at h3
    exact hrel.outcome_failed h1 hstatus h3

/-- What of this is needed to see who frees what. -/
theorem httpRequest_spec (hw : s.conn.ringBufferWrite.Inv) (ha : s.Alive)
    (h : s.httpRequest env = .ok s') :
    s'.conn.ringBufferRead.content = [] ∧ s.stream.length < s'.stream.length ∧
      s'.conn.ringBufferWrite.Inv ∧
      ((s.ClosesAtOnce env ∧ s'.touchedDead = true ∧ s'.pending = []) ∨
        (¬ s.ClosesAtOnce env ∧ s'.life = s.life ∧ s'.touchedDead = s.touchedDead)) := by
  obtain ⟨hempty, hgrows, hwrite, hout⟩ := httpRequest_outcome hw ha h
  refine ⟨hempty, hgrows, hwrite, ?_⟩
  cases hout with
  | freed closes touched empty freed => exact Or.inl ⟨closes, touched, empty⟩
  | closing not_closes short life touched waits state ev =>
    exact Or.inr ⟨not_closes, life, touched⟩
  | kept not_closes persists head_eq stream file life touched state sent =>
    exact Or.inr ⟨not_closes, life, touched⟩

end Session

end MWebServer
