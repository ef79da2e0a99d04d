import MWebServer.Web.Unfinished

/-!
# The loops of `http_request` end

`request_handle_headers` may answer `OK` and be called once more: a header whose
function refuses it ends the call, not the stage.  Such a call has read a line, so
that what is left to be read decreases, though the handler begins again with all of
the buffer.

* `Progress` — what a call that answers `OK` has done.
* `handlerLoop_ends` — a loop whose calls decrease a rank ends when its fuel exceeds it.
* `Ahead` — how many calls are ahead of a session; a call that answers `OK` leaves fewer
  (`Ahead.call`).
* `handlers_end` — the loop on any bytes.
-/

namespace MWebServer

/-- The stage that follows, if there is one. -/
def ReqHandler.next : ReqHandler → Option ReqHandler
  | .requestLine => some .headers
  | .headers => some .body
  | .body => none

namespace Session

variable {env : Env} {s t t' : WebSession} {hd : ReqHandler}

/-- The handler `hd` has moved on to the next stage, or `next_parse_pos` forward in the bytes that
can be read. -/
def Progress (hd : ReqHandler) (t t' : WebSession) : Prop :=
  t'.handler.reqHandler = hd.next ∨
    (t'.handler.reqHandler = some hd ∧ ∃ p p' : Nat, t.handler.par.nextParsePos = some p ∧
      t'.handler.par.nextParsePos = some p' ∧ p < p' ∧ t'.conn.ringBufferRead.start ≤ p ∧
      (p' : Int) ≤ t'.conn.ringBufferRead.end_)

/-! ## Loops that end -/

/-- **The rank of the loop.**  When a call never fails, and leaves a smaller rank for a next one,
the loop ends. -/
theorem handlerLoop_ends {R : WebSession → Nat → Prop}
    (hready : ∀ t k, R t k → ∃ hd, t.handler.reqHandler = some hd)
    (hcall : ∀ t hd k, R t k → t.handler.reqHandler = some hd →
      ∃ status t', t.callHandler env hd = .ok (status, t') ∧
        (status = OK → t'.handler.reqHandler ≠ none → ∃ k', k' < k ∧ R t' k'))
    {fuel k : Nat} (h : R s k) (hfuel : k < fuel) :
    ∃ status s', s.handlerLoop env fuel = .ok (status, s') ∧
      (status = OK → s'.handler.reqHandler = none) := by
  induction fuel generalizing s k with
  | zero => omega
  | succ fuel ih =>
    obtain ⟨hd, hreq⟩ := hready s k h
    obtain ⟨status, t, ht, hnext⟩ := hcall s hd k h hreq
    rw [handlerLoop, hreq]
    simp only [ht, Run.ok_bind]
    by_cases hgo : t.handler.reqHandler ≠ none ∧ status = OK
    · obtain ⟨k', hlt, hk'⟩ := hnext hgo.2 hgo.1
      rw [if_pos hgo]
      exact ih hk' (by omega)
    · rw [if_neg hgo]
      refine ⟨status, t, rfl, fun hok => ?_⟩
      by_contra hne
      exact hgo ⟨hne, hok⟩

/-- What holds of all sessions on the way. -/
theorem rank_of_loopReaches {R : WebSession → Nat → Prop}
    (hcall : ∀ t hd k t', R t k → t.handler.reqHandler = some hd →
      t.callHandler env hd = .ok (OK, t') → t'.handler.reqHandler ≠ none → ∃ k', k' < k ∧ R t' k')
    {j k : Nat} (hreach : LoopReaches env j s t) (h : R s k) : ∃ k', k' + j ≤ k ∧ R t k' := by
  induction hreach generalizing k with
  | refl s => exact ⟨k, le_rfl, h⟩
  | call handler ok next rest ih =>
    obtain ⟨k₁, hlt, h₁⟩ := hcall _ _ k _ h handler ok next
    obtain ⟨k', hle, h'⟩ := ih h₁
    exact ⟨k', by omega, h'⟩

/-! ## The calls that are ahead -/

/-- At most `k` calls are ahead, the next one included. -/
inductive Ahead : WebSession → Nat → Prop
  /-- The request line is next, with the bytes `m` to be read. -/
  | line {s : WebSession} {pre m post : List Byte}
      (reads : s.Reads pre m post)
      (par : s.handler.par = parseArchiveInit)
      (reqHandler : s.handler.reqHandler = some .requestLine)
      (space : ∀ (l : RequestLine) (rest : List Byte), m = l.bytes ++ rest → l.delim = chr ' ') :
      Ahead s (m.length + 2)
  /-- The header lines `hs` are next. -/
  | headers {s : WebSession} {pre tail post : List Byte} {done hs : List HeaderLine}
      (lines : s.AtLines pre done hs tail post)
      (no : ∀ l : HeaderLine, ¬ l.bytes <+: tail) :
      Ahead s (hs.length + 2)
  | body {s : WebSession} (reqHandler : s.handler.reqHandler = some .body) : Ahead s 1

theorem Ahead.ready {k : Nat} (h : Ahead s k) : ∃ hd, s.handler.reqHandler = some hd := by
  cases h with
  | line _ _ reqHandler _ => exact ⟨_, reqHandler⟩
  | headers lines _ => exact ⟨_, lines.reqHandler⟩
  | body reqHandler => exact ⟨_, reqHandler⟩

/-- `request_handle_body` always answers. -/
theorem requestHandleBody_total (s : WebSession) :
    ∃ status s', s.requestHandleBody = .ok (status, s') := by
  unfold requestHandleBody
  simp only
  split
  · split_ifs <;> exact ⟨_, _, rfl⟩
  · exact ⟨_, _, rfl⟩

/-- A request line whose URL a space ends is answered, whatever is behind it. -/
theorem requestHandleRequestLine_total (env : Env) {pre m post : List Byte}
    (hreads : s.Reads pre m post) (hpar : s.handler.par = parseArchiveInit)
    (hspace : ∀ (l : RequestLine) (rest : List Byte), m = l.bytes ++ rest → l.delim = chr ' ') :
    ∃ status s', s.requestHandleRequestLine env = .ok (status, s') ∧
      (status = OK → ∃ (l : RequestLine) (rest : List Byte), m = l.bytes ++ rest) := by
  obtain ⟨r, hr, -⟩ := parseRequestLine_ok pre m post
  by_cases hcode : r.code = OK
  · obtain ⟨l, rest, rfl⟩ := parseRequestLine_sound pre post hr hcode
    obtain ⟨url, line, -, hspec⟩ := @requestHandleRequestLine_spec env _ _ _ _ _ hreads hpar
    have hpath : l.HasPath := Or.inl (hspace l rest rfl)
    rw [if_pos hpath] at hspec
    by_cases hv : l.VersionOk
    · rw [if_neg (not_not_intro hv)] at hspec
      exact ⟨_, _, hspec, fun _ => ⟨l, rest, rfl⟩⟩
    · rw [if_pos hv] at hspec
      exact ⟨_, _, hspec, fun _ => ⟨l, rest, rfl⟩⟩
  · obtain ⟨s', hline⟩ := @requestHandleRequestLine_refused env _ _ _ _ hreads hpar _ hr hcode
    refine ⟨_, s', hline, fun hok => absurd hok ?_⟩
    split_ifs <;> decide

/-- **A call answers, and leaves fewer calls behind it if it answers `OK`.** -/
theorem Ahead.call (env : Env) {k : Nat} (h : Ahead t k) (hreq : t.handler.reqHandler = some hd) :
    ∃ status t', t.callHandler env hd = .ok (status, t') ∧
      (status = OK → Progress hd t t' ∧
        (t'.handler.reqHandler ≠ none → ∃ k', k' < k ∧ Ahead t' k')) := by
  cases h with
  | @line pre m post reads par reqHandler space =>
    obtain rfl : .requestLine = hd := Option.some.inj (reqHandler.symm.trans hreq)
    obtain ⟨status, t', hcall, hline⟩ := requestHandleRequestLine_total env reads par space
    refine ⟨status, t', hcall, ?_⟩
    rintro rfl
    obtain ⟨l, rest, rfl⟩ := hline rfl
    obtain ⟨hs, tail, rfl, hno⟩ := exists_lines rest
    obtain ⟨line, -, hat⟩ := atLines_of_ok reads par hcall
    refine ⟨Or.inl hat.reqHandler, fun _ => ⟨_, ?_, .headers hat hno⟩⟩
    have hlong := length_le_headerLines hs
    have hline := l.bytes_length
    simp only [List.length_append]
    omega
  | @headers pre tail post done hs lines no =>
    obtain rfl : .headers = hd := Option.some.inj (lines.reqHandler.symm.trans hreq)
    rcases requestHandleHeaders_lines keptByLines_true lines trivial with
      htail | ⟨t', pre', l, hs₁, hs₂, hok, hsplit, hpos, hat, -⟩
    · rcases htail.cases no with ⟨-, t', hcall⟩ | ⟨t', hcall⟩ | ⟨ws, hws, hblank⟩
      · exact ⟨_, t', hcall, fun hok => absurd hok (by decide)⟩
      · exact ⟨_, t', hcall, fun hok => absurd hok (by decide)⟩
      · obtain ⟨t', hcall, hbody, -⟩ := htail.blank keptByLines_true hws hblank
        exact ⟨OK, t', hcall, fun _ => ⟨Or.inl hbody.reqHandler, fun _ =>
          ⟨1, by omega, .body hbody.reqHandler⟩⟩⟩
    · -- a header is refused, and the handler is called again
      have hlen : hs.length = hs₁.length + (hs₂.length + 1) := by simp [hsplit]
      have hbytes := l.bytes_length
      have hsum : (headerLines hs).length =
          (headerLines hs₁).length + (l.bytes.length + (headerLines hs₂).length) := by
        rw [hsplit]
        simp only [headerLines, List.flatMap_append, List.flatMap_cons, List.length_append]
      refine ⟨OK, t', hok, fun _ => ⟨Or.inr ⟨hat.reqHandler, pre.length, pre'.length,
        lines.line.nextParsePos, hat.line.nextParsePos, by omega, ?_, ?_⟩, fun _ =>
          ⟨hs₂.length + 2, by omega, .headers hat no⟩⟩⟩
      · obtain ⟨start, hstart, hle, -⟩ := lines.start
        obtain ⟨mem, -, hconn⟩ := (callHandler_handled
          (show t.callHandler env .headers = .ok (OK, t') from hok)).conn
        rw [hconn]
        simp only [hstart]
        omega
      · rw [hat.end_]
        omega
  | body reqHandler =>
    obtain rfl : .body = hd := Option.some.inj (reqHandler.symm.trans hreq)
    obtain ⟨status, t', hcall⟩ := requestHandleBody_total t
    refine ⟨status, t', hcall, ?_⟩
    rintro rfl
    obtain ⟨ar, req, -, rfl, hnext⟩ := requestHandleBody_frame hcall
    have hnone : req = none := hnext rfl
    exact ⟨Or.inl hnone, fun hne => absurd hnone hne⟩

/-- Before the first call. -/
theorem ahead_reset (hinv : s.conn.ringBufferRead.Inv)
    (hspace : ∀ (l : RequestLine) (rest : List Byte),
      s.conn.ringBufferRead.content = l.bytes ++ rest → l.delim = chr ' ') :
    Ahead s.httpRequestHandleReset.touchConn (s.conn.ringBufferRead.content.length + 2) := by
  obtain ⟨pre, post, hreads⟩ := exists_reads hinv
  exact .line (reads_reset hreads) rfl rfl hspace

/-- **Request processing terminates**, whatever bytes are in the read buffer, if a space ends the
URL of the request line they begin with, and whatever the paths lead to.  The loop of
`http_request` ends with at most three calls more than there are bytes, and each of the calls
that answer `OK` has moved the stage on or read something. -/
theorem handlers_end (env : Env) (s : WebSession) (hinv : s.conn.ringBufferRead.Inv)
    (hspace : ∀ (l : RequestLine) (rest : List Byte),
      s.conn.ringBufferRead.content = l.bytes ++ rest → l.delim = chr ' ') :
    let first := s.httpRequestHandleReset.touchConn
    let n := s.conn.ringBufferRead.content.length
    (∃ status s', first.handlerLoop env (n + 3) = .ok (status, s') ∧
      (status = OK → s'.handler.reqHandler = none)) ∧
    ∀ k t hd t', LoopReaches env k first t → t.handler.reqHandler = some hd →
      t.callHandler env hd = .ok (OK, t') → k < n + 3 ∧ Progress hd t t' := by
  intro first n
  have hfirst : Ahead first (n + 2) := ahead_reset hinv hspace
  refine ⟨handlerLoop_ends (R := Ahead) (fun t k h => h.ready) (fun t hd k h hreq => ?_) hfirst
    (by omega), fun k t hd t' hreach hreq hok => ?_⟩
  · obtain ⟨status, t', hcall, hnext⟩ := h.call env hreq
    exact ⟨status, t', hcall, fun hok => (hnext hok).2⟩
  · obtain ⟨k', hle, hahead⟩ := rank_of_loopReaches (R := Ahead) (fun t hd k t' h hreq hok hne => by
      obtain ⟨status, u, hcall, hnext⟩ := h.call env hreq
      obtain ⟨rfl, rfl⟩ := Prod.mk.inj (Run.ok_unique hok hcall)
      exact (hnext rfl).2 hne) hreach hfirst
    obtain ⟨status, u, hcall, hnext⟩ := hahead.call env hreq
    obtain ⟨rfl, rfl⟩ := Prod.mk.inj (Run.ok_unique hok hcall)
    exact ⟨by omega, (hnext rfl).1⟩

/-- A header that is refused: the handler of the headers is called twice. -/
theorem handlers_end_refused : ∃ status s',
    (received (RequestLine.getRoot.bytes ++ str "Connection: x\r\n\r\n")
      ).httpRequestHandleReset.touchConn.handlerLoop .oneFile 36 = .ok (status, s') := by
  obtain ⟨⟨status, s', hloop, -⟩, -⟩ := handlers_end .oneFile
    (received (RequestLine.getRoot.bytes ++ str "Connection: x\r\n\r\n")) (received_inv _)
    (fun l rest h => by
      rw [received_content] at h
      exact (RequestLine.unique_parts (List.prefix_append RequestLine.getRoot.bytes _)
        ⟨rest, h.symm⟩).2.1)
  have hlen : (RequestLine.getRoot.bytes ++ str "Connection: x\r\n\r\n").length = 33 := by
    decide +kernel
  rw [received_content, hlen] at hloop
  exact ⟨status, s', hloop⟩

end Session

end MWebServer
