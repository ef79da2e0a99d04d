import MWebServer.Web.Response

/-!
# The bytes of a response

`http_request` puts the head into the write buffer and offers all that waits to
`send`.  The file is offered to `sendfile`, once, and only if `send` took everything;
what either of the two leaves behind of it is not kept anywhere.

* `httpRequest_stream` — what a response adds to the socket and the buffer.
* `delivered_iff` — so a file that is not empty is delivered exactly when both calls
  take all they are offered.
-/

namespace MWebServer

namespace Session

variable {env : Env} {s s₁ s' : WebSession}

/-- What the `n`-th call of `sendfile` puts on the socket, of the resource of a request. -/
def fileSent (env : Env) (s : WebSession) (n : Nat) : List Byte :=
  (Kernel.accepted (env.sendfile n) (s.resource.take (toSizeT s.handler.resourceSize))).2

theorem responseHandleSendFile_sent (env : Env) (ha : s.Alive) :
    (s.responseHandleSendFile env).2.kernel.sent =
      s.kernel.sent ++ s.fileSent env s.kernel.sendfiles := by
  have hsent : (Kernel.sendfile env s.handler.resourceFd (toSizeT s.handler.resourceSize)
      s.kernel).2.sent = s.kernel.sent ++ s.fileSent env s.kernel.sendfiles := by
    unfold Kernel.sendfile fileSent resource
    cases s.kernel.fileContent s.handler.resourceFd with
    | none => cases env.sendfile s.kernel.sendfiles <;> simp [Kernel.accepted]
    | some content => rfl
  unfold responseHandleSendFile syscall
  simp only [ha.touchHandler, ha.touchConn]
  split_ifs <;> exact hsent

/-- The file follows a head that is gone. -/
theorem afterHead_zero (ha : s.Alive) (hfd : 0 < s.handler.resourceFd)
    (hdone : s.handler.par.responseDone = false) :
    s.afterHead env 0 =
      (s.setReq { s.handler with resHandler := .sendFile }).responseHandleSendFile env := by
  have hopen : s.handler.resourceFd ≠ -1 := by omega
  have hhead : s.headSent 0 = (OK, s.setReq { s.handler with resHandler := .sendFile }) := by
    unfold headSent
    simp only [ha.touchHandler]
    rw [if_pos trivial, if_pos hopen]
  have hmore : ¬ (s.setReq { s.handler with resHandler := .sendFile }).handler.par.responseDone := by
    show ¬ s.handler.par.responseDone = true
    rw [hdone]
    exact Bool.false_ne_true
  unfold afterHead
  simp only [hhead]
  exact if_pos ⟨trivial, hmore⟩

/-- Handlers that end with `OK` have opened a resource. -/
theorem handleRequest_served (ha : s.Alive) (hr : s.conn.ringBufferRead.Inv)
    (h : s.handleRequest env = .ok (OK, s')) : s'.Served := by
  obtain ⟨hconn, -, -, -, hpar, hreq, -⟩ := reset_frame ha
  exact handlerLoop_served (by rw [hconn]; exact hr) hpar hreq h

/-- A request that is accepted has the size of its file, as an `int`. -/
theorem handleRequest_resourceSize {content : List Byte} (hr : s.conn.ringBufferRead.Inv)
    (ha : s.Alive) (hparsed : s.handleRequest env = .ok (OK, s₁))
    (hfile : s₁.kernel.fileContent s₁.handler.resourceFd = some content) :
    s₁.handler.resourceSize = toInt content.length := by
  obtain ⟨inode, hinode, hsize⟩ := (handleRequest_served ha hr hparsed).resource
  rw [Kernel.file_of_fileContent hfile] at hinode
  obtain rfl := Option.some.inj hinode
  exact hsize

/-- The end of a request changes nothing of the stream. -/
theorem finishRequest_stream (hw : s.conn.ringBufferWrite.Inv) (ha : s.Alive) :
    s.finishRequest.stream = s.stream := (finishRequest_spec hw ha).1.stream

/-- **What a response adds to the stream**: the head, and behind a head that is gone what
`sendfile` takes of the resource. -/
theorem httpRequest_stream (hw : s.conn.ringBufferWrite.Inv) (hr : s.conn.ringBufferRead.Inv)
    (ha : s.Alive) (hparsed : s.handleRequest env = .ok (OK, s₁)) (hok : s.httpRequest env = .ok s') :
    ∃ head, s.Head env s₁ head ∧
      ((s.TakesHead env head ∧
          s'.stream = s.stream ++ (head ++ s₁.fileSent env s.kernel.sendfiles)) ∨
        (¬ s.TakesHead env head ∧ s'.stream = s.stream ++ head)) := by
  obtain ⟨status, t₁, s₂, s₃, h1, h2, h3, rfl⟩ := httpRequest_eq_ok.1 hok
  obtain ⟨rfl, rfl⟩ := Prod.mk.inj (Run.ok_unique hparsed h1)
  have hrel := handleRequest_released hw ha h1 h2
  have hserved := handleRequest_served ha hr h1
  unfold respond at h3
  rw [if_pos rfl] at h3
  obtain ⟨⟨code, t⟩, ht, h3⟩ := Run.bind_eq_ok.1 h3
  obtain rfl := Except.ok.inj h3
  obtain ⟨lines, v, hlines, happend⟩ := exists_head_of_responseHandle hrel.resHandler ht
  obtain ⟨ret, u, hresp, hframe, hhandler, hfiles, hsf, hu, hcases⟩ :=
    responseHandle_spec hrel.write hrel.alive hrel.resHandler hlines happend
  obtain rfl : (u.afterHead env ret).2 = t := congrArg Prod.snd (Run.ok_unique hresp ht)
  refine ⟨lines.flatten, ⟨s₂, lines, h2, hlines, rfl⟩, ?_⟩
  have hau := hframe.alive hrel.alive
  obtain ⟨hconn, -, hlife, htouched, -⟩ := afterHead_frame env ret hau
  have hfinish : (u.afterHead env ret).2.finishRequest.stream =
      (u.afterHead env ret).2.kernel.sent ++ u.pending := by
    have hwrite : (u.afterHead env ret).2.conn.ringBufferWrite.Inv := by
      rw [hconn]
      exact hframe.write
    rw [finishRequest_stream hwrite (hau.of_life hlife htouched)]
    exact congrArg (fun conn : Connection => (u.afterHead env ret).2.kernel.sent ++
      conn.ringBufferWrite.content) hconn
  rw [hrel.takesHead_iff] at hcases
  rw [hrel.stream] at hu
  rw [hfinish]
  rcases hcases with ⟨rfl, hall, hnil, -⟩ | ⟨hret, hnot, -⟩
  · -- the head is gone, and `sendfile` decides
    have hhandler' : u.handler = s₁.handler := hhandler.trans hrel.handler
    have hdone : u.handler.par.responseDone = false := by
      rw [hhandler']
      exact congrArg Prod.fst hserved.response
    have hfile : (u.setReq { u.handler with resHandler := .sendFile }).fileSent env
        u.kernel.sendfiles = s₁.fileSent env s.kernel.sendfiles := by
      have hresource : (u.setReq { u.handler with resHandler := .sendFile }).resource = s₁.resource := by
        unfold resource
        show (u.kernel.fileContent u.handler.resourceFd).getD [] = _
        rw [hhandler', Kernel.fileContent_congr (hfiles.trans (congrArg Kernel.files hrel.kernel))]
      unfold fileSent
      rw [hresource, hsf, hrel.sendfiles]
      show (Kernel.accepted _ (s₁.resource.take (toSizeT u.handler.resourceSize))).2 = _
      rw [hhandler']
    rw [afterHead_zero hau (by rw [hhandler']; exact hserved.fd_pos) hdone,
      responseHandleSendFile_sent env
        (s := u.setReq { u.handler with resHandler := .sendFile }) (hau.of_life rfl rfl)]
    refine Or.inl ⟨hall, ?_⟩
    show u.kernel.sent ++ (u.setReq { u.handler with resHandler := .sendFile }).fileSent env
      u.kernel.sendfiles ++ u.pending = _
    rw [hfile, hnil, List.append_nil, ← List.append_assoc, ← hu, Session.stream, hnil, List.append_nil]
  · -- the head waits, and nothing is kept of the file
    rw [afterHead_waiting env hau hret]
    exact Or.inr ⟨hnot, hu⟩

/-- **A response is delivered exactly when both calls take all they are offered**, or when there
is nothing behind its head: then what is on the socket and what waits is what there was before,
the head, and the whole file. -/
theorem delivered_iff {content : List Byte} (hw : s.conn.ringBufferWrite.Inv)
    (hr : s.conn.ringBufferRead.Inv) (ha : s.Alive) (hparsed : s.handleRequest env = .ok (OK, s₁))
    (hfile : s₁.kernel.fileContent s₁.handler.resourceFd = some content)
    (hlen : content.length < 2 ^ 31) (hok : s.httpRequest env = .ok s') :
    ∃ head, s.Head env s₁ head ∧ (s'.stream = s.stream ++ (head ++ content) ↔
      content = [] ∨ (s.TakesHead env head ∧
        ∃ m, env.sendfile s.kernel.sendfiles = some m ∧ content.length ≤ m)) := by
  obtain ⟨head, hhead, hstream⟩ := httpRequest_stream hw hr ha hparsed hok
  refine ⟨head, hhead, ?_⟩
  have hsize : s₁.handler.resourceSize = content.length := by
    rw [handleRequest_resourceSize hr ha hparsed hfile,
      toInt_of_le (Int.natCast_nonneg _) (by unfold intMax; omega)]
  have hsent : s₁.fileSent env s.kernel.sendfiles =
      (Kernel.accepted (env.sendfile s.kernel.sendfiles) content).2 := by
    unfold fileSent resource
    rw [hfile, hsize, toSizeT_of_le (Int.natCast_nonneg _) (by unfold intMax; omega), Int.toNat_natCast,
      Option.getD_some, List.take_length]
  rcases hstream with ⟨hall, hstream⟩ | ⟨hnot, hstream⟩
  · rw [hstream, hsent, List.append_cancel_left_eq, List.append_cancel_left_eq,
      Kernel.accepted_bytes_eq_iff]
    simp only [hall, true_and]
  · rw [hstream, ← List.append_assoc, List.self_eq_append_right]
    simp only [hnot, false_and, or_false]

/-! ## A file of one byte -/

/-- A server with a file of one byte at every path, whose socket has the given room. -/
def oneByte (room : Nat) : Env :=
  { Env.oneFile with root := fun _ => some (.file [chr 'x']), send := fun _ => some room }

/-- A connection that has just received a request for the file. -/
def askedForByte : WebSession := received (str "GET /f HTTP/1.1\r\n\r\n")

/-- The head of the response, of 176 bytes, does not depend on the room. -/
theorem askedForByte_head {room : Nat} (hroom : room = 10 ∨ room = 1000) {s₁ : WebSession}
    {head : List Byte} (h1 : askedForByte.handleRequest (oneByte room) = .ok (OK, s₁))
    (hhead : askedForByte.Head (oneByte room) s₁ head) : head.length = 176 := by
  obtain ⟨s₂, lines, h2, hlines, rfl⟩ := hhead
  have hrun : (askedForByte.handleRequest (oneByte room) >>= fun r =>
      r.2.releaseRead askedForByte.conn.ringBufferRead.readableBytes >>= fun s₂ =>
        s₂.headLines (oneByte room)).map (fun lines => lines.flatten.length) = .ok 176 := by
    rcases hroom with rfl | rfl <;> decide +kernel
  simp only [h1, Run.ok_bind, h2, hlines] at hrun
  exact Except.ok.inj hrun

/-- With room for the head and the byte behind it both are sent. -/
theorem delivered_iff_oneByte : ∃ s₁ s' head, askedForByte.handleRequest (oneByte 1000) = .ok (OK, s₁) ∧
    askedForByte.httpRequest (oneByte 1000) = .ok s' ∧ askedForByte.Head (oneByte 1000) s₁ head ∧
    s'.stream = head ++ [chr 'x'] := by
  have hparsed : (askedForByte.handleRequest (oneByte 1000)).map (fun r =>
      (r.1, r.2.kernel.fileContent r.2.handler.resourceFd)) = .ok (OK, some [chr 'x']) := by
    decide +kernel
  have hreturns : (askedForByte.httpRequest (oneByte 1000)).map connLive = .ok true := by
    decide +kernel
  obtain ⟨⟨status, s₁⟩, h1, hfile⟩ := Run.map_eq_ok.1 hparsed
  obtain ⟨s', hok, -⟩ := Run.map_eq_ok.1 hreturns
  obtain ⟨rfl, hfile⟩ := Prod.mk.inj hfile
  obtain ⟨head, hhead, hiff⟩ := delivered_iff (s := askedForByte) RingBuffer.new_inv
    (received_inv _) ⟨rfl, rfl, rfl, rfl⟩ h1 hfile (by decide) hok
  have hlen := askedForByte_head (Or.inr rfl) h1 hhead
  refine ⟨s₁, s', head, h1, hok, hhead, hiff.2 (Or.inr ⟨⟨1000, rfl, ?_⟩, 2 ^ 20, rfl, by decide⟩)⟩
  show head.length ≤ 1000
  omega

/-- **A socket with room for ten bytes of the head loses the file.** -/
theorem not_always_delivered : ¬ ∀ (env : Env) (s s₁ s' : WebSession) (content : List Byte),
    s.conn.ringBufferWrite.Inv → s.conn.ringBufferRead.Inv → s.Alive →
      s.handleRequest env = .ok (OK, s₁) →
        s₁.kernel.fileContent s₁.handler.resourceFd = some content → content.length < 2 ^ 31 →
          s.httpRequest env = .ok s' → s'.connLive = true →
            ∃ head, s.Head env s₁ head ∧ s'.stream = s.stream ++ (head ++ content) := by
  intro h
  have hparsed : (askedForByte.handleRequest (oneByte 10)).map (fun r =>
      (r.1, r.2.kernel.fileContent r.2.handler.resourceFd)) = .ok (OK, some [chr 'x']) := by
    decide +kernel
  have hreturns : (askedForByte.httpRequest (oneByte 10)).map (fun s' =>
      (s'.connLive, s'.stream.length)) = .ok (true, 176) := by
    decide +kernel
  obtain ⟨⟨status, s₁⟩, h1, hfile⟩ := Run.map_eq_ok.1 hparsed
  obtain ⟨s', hok, hopen⟩ := Run.map_eq_ok.1 hreturns
  obtain ⟨rfl, hfile⟩ := Prod.mk.inj hfile
  obtain ⟨hopen, hlen⟩ := Prod.mk.inj hopen
  obtain ⟨head, hhead, hstream⟩ := h (oneByte 10) askedForByte s₁ s' _ RingBuffer.new_inv
    (received_inv _) ⟨rfl, rfl, rfl, rfl⟩ h1 hfile (by decide) hok hopen
  have hhead := askedForByte_head (Or.inl rfl) h1 hhead
  have hall : s'.stream.length = head.length + 1 := by
    rw [hstream]
    show (head ++ [chr 'x']).length = _
    rw [List.length_append]
    rfl
  omega

end Session

end MWebServer
