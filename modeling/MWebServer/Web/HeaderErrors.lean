import MWebServer.Web.BodyCount
import MWebServer.Web.Response

/-!
# Errors of header handlers

The functions of `hf_list` answer `400` or `501` to a value they do not take.
`request_handle_headers` stops at such an answer and returns `OK`; the loop of
`http_request` calls it again, and it goes on with the next line.

* `handleHeaderLine_status` — what a function can answer.
* `headerError_never_decides` — the answer reaches nobody: the loop comes to the body,
  and its status is the one of the body.
-/

namespace MWebServer

variable {env : Env} {beyond : List Byte}

/-! ## What the functions answer -/

theorem call_status {mem : Mem} {hf : HeaderFunc} {ar : ParseArchive} {r : Int × ParseArchive}
    (h : hf.call beyond mem ar = .ok r) : r.1 = OK ∨ r.1 = 400 ∨ r.1 = 501 := by
  cases call_answers h with
  | recorded func => exact Or.inl rfl
  | keepAlive func b => exact Or.inl rfl
  | contentLength func digits pos => exact Or.inl rfl
  | refused status code => exact Or.inr code

/-- **A header is accepted, or refused with `400` or `501`.** -/
theorem handleHeaderLine_status {mem : Mem} {ar : ParseArchive} {r : Mem × Int × ParseArchive}
    (h : handleHeaderLine beyond mem ar = .ok r) : r.2.1 = OK ∨ r.2.1 = 400 ∨ r.2.1 = 501 := by
  unfold handleHeaderLine at h
  obtain ⟨mem', -, h⟩ := Run.bind_eq_ok.1 h
  split at h
  · rw [← Except.ok.inj h]
    exact Or.inl rfl
  · obtain ⟨x, hx, h⟩ := Run.bind_eq_ok.1 h
    rw [← Except.ok.inj h]
    exact call_status hx

/-- The function found for a header, with the bytes `rest` behind its line and `beyond` beyond the
block, answers `status`. -/
def HeaderLine.Answers (beyond : List Byte) (h : HeaderLine) (rest : List Byte) (status : Int) : Prop :=
  ∃ (pre : List Byte) (ar ar' : ParseArchive) (mem : Mem),
    ar.headerName = .slice (pre.length + h.lead.length) h.name.length ∧
      ar.headerVal = .slice (pre.length + h.valOffset) h.val.length ∧
        handleHeaderLine beyond (pre ++ (h.bytes ++ rest)) ar = .ok (mem, status, ar')

theorem HeaderLine.Answers.status {h : HeaderLine} {rest : List Byte} {status : Int}
    (hanswer : h.Answers beyond rest status) : status = OK ∨ status = 400 ∨ status = 501 := by
  obtain ⟨pre, ar, ar', mem, -, -, hok⟩ := hanswer
  exact handleHeaderLine_status hok

/-- `h`, between `hs₁` and `hs₂`, is the first header of a section that is refused, with `status`;
`rest` is what stands behind the section. -/
structure FirstRefused (beyond : List Byte) (hs₁ : List HeaderLine) (h : HeaderLine)
    (hs₂ : List HeaderLine) (rest : List Byte) (status : Int) : Prop where
  answers : h.Answers beyond (headerSection hs₂ ++ rest) status
  refused : status ≠ OK
  first : ∀ gs g gs' code, hs₁ = gs ++ g :: gs' →
    g.Answers beyond (headerSection (gs' ++ h :: hs₂) ++ rest) code → code = OK

/-! ## What becomes of the answers -/

namespace Session

variable {s s₁ : WebSession}

theorem parseHeaderBodyIdentity_code (msg len : Nat) (ar : ParseArchive) :
    (parseHeaderBodyIdentity msg len ar).1 = OK ∨ (parseHeaderBodyIdentity msg len ar).1 = AGAIN := by
  unfold parseHeaderBodyIdentity
  simp only
  split_ifs
  · exact Or.inl rfl
  · exact Or.inl rfl
  · exact Or.inr rfl

/-- The handler of the body answers `OK` and ends the loop, or asks for more. -/
theorem requestHandleBody_cases (hcoding : s.handler.par.transferEncoding = .identity) :
    s.BodyDone ∨ s.BodyAgain := by
  have hcoding' : s.touchHandler.touchConn.handler.par.transferEncoding = .identity := hcoding
  unfold BodyDone BodyAgain requestHandleBody
  simp only [hcoding']
  rcases parseHeaderBodyIdentity_code (s.touchHandler.touchConn.readMsg.1.getD 0)
    s.touchHandler.touchConn.readMsg.2 s.touchHandler.touchConn.handler.par with hcode | hcode
  · rw [hcode, if_neg (show ¬ OK = AGAIN by decide), if_pos rfl]
    exact Or.inl ⟨_, rfl, rfl⟩
  · rw [hcode, if_pos rfl]
    exact Or.inr ⟨_, rfl⟩

/-- The last call of the loop decides the status. -/
theorem handleRequest_last {k : Nat} {t t' : WebSession} {hd : ReqHandler} {status : Int}
    (hreach : LoopReaches env k s.httpRequestHandleReset.touchConn t) (hk : k < s.handlerFuel)
    (handler : t.handler.reqHandler = some hd) (hcall : t.callHandler env hd = .ok (status, t'))
    (hend : ¬ (t'.handler.reqHandler ≠ none ∧ status = OK)) :
    s.handleRequest env = .ok (status, t') := by
  obtain ⟨fuel, hfuel⟩ : ∃ fuel, s.handlerFuel = fuel + 1 + k := ⟨s.handlerFuel - (k + 1), by omega⟩
  unfold handleRequest
  rw [hfuel, hreach.handlerLoop, handlerLoop, handler]
  simp only
  rw [hcall, Run.ok_bind]
  exact if_neg hend

/-- **Behind an accepted request line the body decides the status**, whatever the headers are. -/
theorem handleRequest_status {l : RequestLine} {hs : List HeaderLine} {pre body post : List Byte}
    (hreads : s.Reads pre (l.bytes ++ (headerSection hs ++ body)) post)
    (hok : s.httpRequestHandleReset.touchConn.requestHandleRequestLine env = .ok (OK, s₁)) :
    ∃ status s', s.handleRequest env = .ok (status, s') ∧ (status = OK ∨ status = AGAIN) := by
  have hreads₀ : s.httpRequestHandleReset.touchConn.Reads pre
      (l.bytes ++ (headerSection hs ++ body)) post := ⟨hreads.mem, hreads.start, hreads.end_⟩
  obtain ⟨line, -, hat⟩ := atHeader_of_ok hreads₀ rfl hok
  obtain ⟨k, s₂, hk, hreach, hbody⟩ := headers_reach_body env hs.length le_rfl hat
  -- the request line and the headers are `k + 1` calls, and one is left for the body
  have hfirst : LoopReaches env (k + 1) s.httpRequestHandleReset.touchConn s₂ := by
    refine .call rfl hok ?_ hreach
    rw [hat.reqHandler]
    exact Option.some_ne_none _
  have hlong := length_le_headerSection hs
  have hfuel : k + 1 < s.handlerFuel := by
    unfold handlerFuel RingBuffer.readableBytes
    rw [hreads.start, hreads.end_]
    simp only [List.length_append]
    omega
  rcases requestHandleBody_cases hbody.transferEncoding with ⟨s', hdone, hnone⟩ | ⟨s', hagain⟩
  · exact ⟨OK, s', handleRequest_last hfirst hfuel hbody.reqHandler hdone fun hgo => hgo.1 hnone,
      Or.inl rfl⟩
  · exact ⟨AGAIN, s', handleRequest_last hfirst hfuel hbody.reqHandler hagain fun hgo =>
      absurd hgo.2 (show ¬ AGAIN = OK by decide), Or.inr rfl⟩

/-- `http_request` takes the error path with `status`. -/
def FailsWith (env : Env) (s : WebSession) (status : Int) : Prop :=
  status ≠ OK ∧ ∃ s', s.handleRequest env = .ok (status, s')

/-- **The answer of a header handler never decides the response.**  Take the first refused header
of a request whose line is accepted: `http_request` does not fail with the status of the refusal.
Its status is `OK`, or says that the body is not complete. -/
theorem headerError_never_decides (env : Env) (s s₁ : WebSession) (l : RequestLine)
    (hs₁ hs₂ : List HeaderLine) (h : HeaderLine) (pre body post : List Byte) (status : Int)
    (hreads : s.Reads pre (l.bytes ++ (headerSection (hs₁ ++ h :: hs₂) ++ body)) post)
    (hok : s.httpRequestHandleReset.touchConn.requestHandleRequestLine env = .ok (OK, s₁))
    (hrefused : FirstRefused env.beyond hs₁ h hs₂ (body ++ post) status) :
    ¬ s.FailsWith env status ∧
      ∃ code s', s.handleRequest env = .ok (code, s') ∧ (code = OK ∨ code = AGAIN) := by
  obtain ⟨code, s', hcode, hcases⟩ := handleRequest_status hreads hok
  refine ⟨?_, code, s', hcode, hcases⟩
  rintro ⟨-, t, hfails⟩
  obtain rfl : code = status := congrArg Prod.fst (Run.ok_unique hcode hfails)
  rcases hcases with rfl | rfl
  · exact hrefused.refused rfl
  · rcases hrefused.answers.status with h | h | h <;> exact absurd h (by decide)

end Session

/-- A `Connection` header. -/
def HeaderLine.connectionSays (val : List Byte) (hchars : ∀ c ∈ val, isNewline c = false)
    (hhead : ∃ c, val.head? = some c ∧ isBlank c = false) : HeaderLine where
  lead := []
  name := str "Connection"
  gap := str " "
  val := val
  lead_blank := blank_nil
  name_ne := by decide
  name_chars := by decide +kernel
  gap_blank := blank_space
  val_chars := hchars
  val_head := hhead

/-- `Connection: x` -/
def HeaderLine.connectionX : HeaderLine :=
  .connectionSays (str "x") (by decide +kernel) ⟨chr 'x', rfl, by decide⟩

/-- It is refused. -/
theorem HeaderLine.connectionX_refused : FirstRefused [] [] .connectionX [] [] 400 := by
  have hstatus : (handleHeaderLine [] (HeaderLine.connectionX.bytes ++ crlf) { parseArchiveInit with
      headerName := .slice 0 10, headerVal := .slice 12 1 }).map (fun r => r.2.1) = .ok 400 := by
    decide +kernel
  obtain ⟨⟨mem, status, ar⟩, hok, rfl⟩ := Run.map_eq_ok.1 hstatus
  exact ⟨⟨[], _, ar, mem, rfl, rfl, hok⟩, by decide, fun gs g gs' code hnil => by simp at hnil⟩

namespace Session

/-- A request with the one header. -/
def saysConnectionX : WebSession := received (str "GET / HTTP/1.1\r\nConnection: x\r\n\r\n")

theorem saysConnectionX_reads : saysConnectionX.Reads []
    (RequestLine.getRoot.bytes ++ (headerSection ([] ++ HeaderLine.connectionX :: []) ++ [])) [] := by
  have hbytes : str "GET / HTTP/1.1\r\nConnection: x\r\n\r\n" =
      RequestLine.getRoot.bytes ++ (headerSection ([] ++ HeaderLine.connectionX :: []) ++ []) := by
    decide +kernel
  rw [← hbytes]
  exact ⟨(List.append_nil _).symm, rfl, (zero_add _).symm⟩

theorem exists_saysConnectionX : ∃ s₁,
    saysConnectionX.httpRequestHandleReset.touchConn.requestHandleRequestLine .oneFile =
      .ok (OK, s₁) := by
  have hok : (saysConnectionX.httpRequestHandleReset.touchConn.requestHandleRequestLine
      .oneFile).map Prod.fst = .ok OK := by
    decide +kernel
  obtain ⟨⟨status, s₁⟩, hline, rfl⟩ := Run.map_eq_ok.1 hok
  exact ⟨s₁, hline⟩

/-- The request is not answered with `400`. -/
theorem headerError_never_decides_connectionX : ¬ saysConnectionX.FailsWith .oneFile 400 := by
  obtain ⟨s₁, hok⟩ := exists_saysConnectionX
  exact (headerError_never_decides .oneFile saysConnectionX s₁ .getRoot [] [] .connectionX [] [] []
    400 saysConnectionX_reads hok HeaderLine.connectionX_refused).1

/-- **A refused `Connection` header**: the request is answered all the same. -/
theorem headerError_lost : ¬ ∀ (env : Env) (s s₁ : WebSession) (l : RequestLine)
    (hs₁ hs₂ : List HeaderLine) (h : HeaderLine) (pre body post : List Byte) (status : Int),
      s.Reads pre (l.bytes ++ (headerSection (hs₁ ++ h :: hs₂) ++ body)) post →
        s.httpRequestHandleReset.touchConn.requestHandleRequestLine env = .ok (OK, s₁) →
          FirstRefused env.beyond hs₁ h hs₂ (body ++ post) status → s.FailsWith env status := by
  intro hall
  obtain ⟨s₁, hok⟩ := exists_saysConnectionX
  obtain ⟨-, s', hfails⟩ := hall .oneFile saysConnectionX s₁ .getRoot [] [] .connectionX [] [] [] 400
    saysConnectionX_reads hok HeaderLine.connectionX_refused
  have hstatus : (saysConnectionX.handleRequest .oneFile).map Prod.fst = .ok OK := by
    decide +kernel
  obtain ⟨⟨code, t⟩, ht, hcode⟩ := Run.map_eq_ok.1 hstatus
  have h400 : (400 : Int) = OK :=
    (congrArg Prod.fst (Run.ok_unique hfails ht)).trans hcode
  exact absurd h400 (by decide)

end Session

end MWebServer
