import MWebServer.Lib.Words
import MWebServer.Web.OpenedResource

/-!
# Error responses

The error path queues its head and hands `error.html` to `sendfile` at once: on a
connection with nothing to send the page is on the socket before the head.  The
`Content-Length` of the head is the size of the resource, which need not be the page's.

* `handleRequest_code` — the statuses `http_request` can fail with.
* `errorResponse_sent` — what is on the socket when the connection has drained.
* `errorFramed_iff` — when this is a head and the body it announces.
-/

namespace MWebServer

variable {env : Env} {beyond : List Byte}

/-! ## What the handlers answer -/

theorem headerLoop_code {fuel : Nat} {mem : Mem} {msg len : Nat} {ar : ParseArchive}
    {x : HeaderExit × Mem × ParseArchive} (h : headerLoop beyond fuel mem msg len ar = .ok x) :
    x.1 = .headerDone ∨ ∃ code, x.1 = .ret code ∧ (code = OK ∨ code = AGAIN ∨ code = 400) := by
  induction fuel generalizing mem msg len ar with
  | zero => cases h
  | succ fuel ih =>
    rw [headerLoop] at h
    obtain ⟨r, -, h⟩ := Run.bind_eq_ok.1 h
    split_ifs at h
    · rw [← Except.ok.inj h]
      exact Or.inr ⟨AGAIN, rfl, Or.inr (Or.inl rfl)⟩
    · rw [← Except.ok.inj h]
      exact Or.inr ⟨400, rfl, Or.inr (Or.inr rfl)⟩
    · rw [← Except.ok.inj h]
      exact Or.inl rfl
    · obtain ⟨⟨mem', status, ar'⟩, -, h⟩ := Run.bind_eq_ok.1 h
      simp only at h
      split_ifs at h
      · rw [← Except.ok.inj h]
        exact Or.inr ⟨OK, rfl, Or.inl rfl⟩
      · exact ih h

namespace Session

variable {s s₁ s' : WebSession} {status : Int}

/-- `OK`, `AGAIN` or a status of the table. -/
def Answer (status : Int) : Prop :=
  status = OK ∨ status = AGAIN ∨ status = 400 ∨ status = 404 ∨ status = 500

theorem openResource_code (path : List Byte) (s : WebSession) :
    Answer (s.openResource env path).1 := by
  unfold openResource
  cases env.root path with
  | none => exact Or.inr (Or.inr (Or.inr (Or.inl rfl)))
  | some inode =>
    cases inode with
    | file content => exact Or.inl rfl
    | dir size index =>
      cases index with
      | none => exact Or.inr (Or.inr (Or.inr (Or.inl rfl)))
      | some html => exact Or.inl rfl

theorem requestHandleRequestLine_code (h : s.requestHandleRequestLine env = .ok (status, s')) :
    Answer status := by
  rcases requestHandleRequestLine_cases h with ⟨par, rfl | rfl | rfl, -⟩ | ⟨par, mem, path, -, hopen⟩
  · exact Or.inr (Or.inl rfl)
  · exact Or.inr (Or.inr (Or.inl rfl))
  · exact Or.inr (Or.inr (Or.inr (Or.inr rfl)))
  · have hcode := @openResource_code env path ((s.touchHandler.touchConn.setPar par).setReadMem mem)
    rw [hopen] at hcode
    exact hcode

theorem requestHandleHeaders_code (h : s.requestHandleHeaders env = .ok (status, s')) :
    Answer status := by
  unfold requestHandleHeaders at h
  simp only at h
  split at h
  · cases h
  · obtain ⟨⟨exit, mem, ar⟩, hloop, h⟩ := Run.bind_eq_ok.1 h
    rcases headerLoop_code hloop with hexit | ⟨code, hexit, hcode⟩
    · obtain rfl : exit = _ := hexit
      obtain ⟨rfl, -⟩ := Prod.mk.inj (Except.ok.inj h)
      exact Or.inl rfl
    · obtain rfl : exit = _ := hexit
      obtain ⟨rfl, -⟩ := Prod.mk.inj (Except.ok.inj h)
      rcases hcode with hcode | hcode | hcode
      · exact Or.inl hcode
      · exact Or.inr (Or.inl hcode)
      · exact Or.inr (Or.inr (Or.inl hcode))

theorem requestHandleBody_code (hcoding : s.handler.par.transferEncoding = .identity)
    (h : s.requestHandleBody = .ok (status, s')) : Answer status := by
  rcases requestHandleBody_cases hcoding with ⟨t, hdone, -⟩ | ⟨t, hagain⟩
  · obtain ⟨rfl, -⟩ := Prod.mk.inj (Run.ok_unique hdone h)
    exact Or.inl rfl
  · obtain ⟨rfl, -⟩ := Prod.mk.inj (Run.ok_unique hagain h)
    exact Or.inr (Or.inl rfl)

/-- **What the loop of `http_request` can answer.** -/
theorem handleRequest_code (hr : s.conn.ringBufferRead.Inv)
    (h : s.handleRequest env = .ok (status, s₁)) : Answer status := by
  -- behind an accepted request line the coding of the body is known, and stays
  let J : Int → WebSession → Prop := fun status t => Answer status ∧
    (status = OK → t.handler.reqHandler ≠ none → t.handler.par.transferEncoding = .identity)
  refine (handlerLoop_stages (s := s.httpRequestHandleReset.touchConn) (J := J) ?_ ?_ ?_ hr rfl rfl h).1
  · intro t t' status hinv hpar ht
    refine ⟨requestHandleRequestLine_code ht, ?_⟩
    rintro rfl -
    obtain ⟨pre, line, rest, post, l, url, inode, hres⟩ := requestHandleRequestLine_opened hinv hpar ht
    obtain ⟨url', hpar'⟩ := hres.par
    rw [hpar']
    rfl
  · rintro t t' status ⟨-, hcoding⟩ hhd ht
    refine ⟨requestHandleHeaders_code ht, fun _ _ => ?_⟩
    obtain ⟨mem, ar, req, -, hread, rfl, -⟩ := requestHandleHeaders_frame ht
    exact hread.transferEncoding.trans (hcoding rfl (by rw [hhd]; simp))
  · rintro t t' status ⟨-, hcoding⟩ hhd ht
    refine ⟨requestHandleBody_code (hcoding rfl (by rw [hhd]; simp)) ht, ?_⟩
    rintro rfl hmore
    obtain ⟨ar, req, -, rfl, hnext⟩ := requestHandleBody_frame ht
    exact absurd (hnext rfl) hmore

end Session

/-! ## Numbers in the head -/

theorem isDigit_chr {c : Char} (h : c.isDigit = true) :
    isDigit (chr c) = true ∧ digitVal (chr c) = (c.toNat - '0'.toNat : Nat) := by
  simp only [Char.isDigit, Bool.and_eq_true, decide_eq_true_eq] at h
  have h0 : 48 ≤ c.toNat := h.1
  have h9 : c.toNat ≤ 57 := h.2
  have hnat : (chr c).toNat = c.toNat := by
    rw [show chr c = UInt8.ofNat c.toNat from rfl, UInt8.toNat_ofNat']
    omega
  have hzero : '0'.toNat = 48 := rfl
  constructor
  · have hz : (chr '0').toNat = 48 := rfl
    have hn : (chr '9').toNat = 57 := rfl
    simp only [isDigit, Bool.and_eq_true, decide_eq_true_eq, UInt8.le_iff_toNat_le]
    omega
  · unfold digitVal
    omega

theorem decimalFrom_map (cs : List Char) (h : ∀ c ∈ cs, c.isDigit = true) (v : Nat) :
    decimalFrom v (cs.map chr) = Nat.ofDigitChars 10 cs v := by
  induction cs generalizing v with
  | nil => rfl
  | cons c cs ih =>
    rw [Nat.ofDigitChars_cons, ← ih (fun c hc => h c (by simp [hc]))]
    show decimalFrom (v * 10 + digitVal (chr c)) _ = _
    rw [(isDigit_chr (h c (by simp))).2]
    congr 1
    push_cast
    ring

/-- How `%d` writes a number that is not negative. -/
theorem str_toString (n : Nat) : str (toString (n : Int)) = (Nat.toDigits 10 n).map chr := by
  unfold str
  rw [show toString (n : Int) = n.repr from rfl, Nat.toList_repr]

/-- **What `%d` writes is read back.** -/
theorem decimal_str (n : Nat) : decimal (str (toString (n : Int))) = n := by
  unfold decimal
  rw [str_toString]
  have hdigits := decimalFrom_map (Nat.toDigits 10 n)
    (fun c hc => Nat.isDigit_of_mem_toDigits (by decide) (by decide) hc) 0
  rw [Nat.ofDigitChars_ten_toDigits] at hdigits
  exact hdigits

theorem isDigit_of_mem_str {n : Nat} {d : Byte} (h : d ∈ str (toString (n : Int))) :
    isDigit d = true := by
  rw [str_toString] at h
  obtain ⟨c, hc, rfl⟩ := List.mem_map.1 h
  exact (isDigit_chr (Nat.isDigit_of_mem_toDigits (by decide) (by decide) hc)).1

theorem str_toString_ne_nil (n : Nat) : str (toString (n : Int)) ≠ [] := by
  rw [str_toString]
  exact mt List.map_eq_nil_iff.1 Nat.toDigits_ne_nil

/-! ## The head of an error response -/

/-- A line of the head, or none. -/
abbrev HeadLine (line : List Byte) : Prop :=
  line = [] ∨ Words.IsLine (chr '\r') (chr '\n') line

/-- A name followed by a value. -/
theorem headLine_append {name val : List Byte} (hne : name ≠ []) (hhead : name.head? ≠ some (chr '\r'))
    (hname : chr '\n' ∉ name) (hval : chr '\n' ∉ val) : HeadLine (name ++ (val ++ crlf)) := by
  refine Or.inr ⟨name ++ val, by simp [crlf], ?_, by simp [hne], ?_⟩
  · rw [List.mem_append]
    exact fun h => h.elim hname hval
  · obtain ⟨c, name, rfl⟩ := List.exists_cons_of_ne_nil hne
    exact hhead

theorem statusTable_text {code : Int} {text : Option (List Byte)} (h : statusTable code = .ok text) :
    chr '\n' ∉ text.getD [] := by
  have hmap : (httpStatusMap.all fun e =>
      (str (toString e.1 ++ " " ++ e.2)).all fun c => c != chr '\n') = true := by decide +kernel
  unfold statusTable at h
  split_ifs at h
  rw [← Except.ok.inj h]
  cases hlookup : httpStatusMap.lookup code with
  | none => simp
  | some reason =>
    obtain ⟨l₁, l₂, hsplit, -⟩ := List.lookup_eq_some_iff.1 hlookup
    have hline := List.all_eq_true.1 hmap (code, reason) (by rw [hsplit]; simp)
    exact fun hlf => absurd (List.all_eq_true.1 hline _ hlf) (by decide)

theorem statusTable_returns {code : Int} (h0 : 0 ≤ code) (h1 : code < 512) :
    ∃ text, statusTable code = .ok text := ⟨_, if_pos ⟨h0, h1⟩⟩

/-- `status_line`, as a line. -/
theorem headLine_statusLine {r : Request} {line : List Byte} (h : statusLine r = .ok line) :
    HeadLine line ∧ line.head? = some (chr 'H') := by
  unfold statusLine at h
  obtain ⟨text, htext, h⟩ := Run.bind_eq_ok.1 h
  rw [← Except.ok.inj h]
  split_ifs
  · exact ⟨headLine_append (by decide) (by decide) (by decide) (statusTable_text htext), rfl⟩
  · exact ⟨headLine_append (by decide) (by decide) (by decide) (statusTable_text htext), rfl⟩

theorem headLine_contentLengthLine (r : Request) : HeadLine (contentLengthLine r) := by
  unfold contentLengthLine
  split_ifs with h
  · obtain ⟨n, hn⟩ := Int.eq_ofNat_of_zero_le h
    refine headLine_append (by decide) (by decide) (by decide) fun hlf => ?_
    rw [hn] at hlf
    exact absurd (isDigit_of_mem_str hlf) (by decide)
  · exact Or.inl rfl

/-- What `errLines` writes: `keep_alive` is off, and `err_req` chooses the type. -/
theorem errLines_eq {s : WebSession} {status : Int} {lines : List (List Byte)}
    (h : (s.markError status).errLines env = .ok lines) :
    ∃ line, statusLine (s.markError status).handler = .ok line ∧
      lines = [line, dateLine env, serverLine, str "Content-Type: " ++ (str "text/html" ++ crlf),
        contentLengthLine s.handler, str "Connection: close" ++ crlf, crlf] := by
  unfold Session.errLines at h
  obtain ⟨line, hline, h⟩ := Run.bind_eq_ok.1 h
  refine ⟨line, hline, ?_⟩
  have hconnection : connectionLine env { (s.markError status).handler with
      par := { (s.markError status).handler.par with keepAlive := false } } (s.markError status).conn =
      str "Connection: close" ++ crlf := by
    unfold connectionLine
    simp
  rw [← Except.ok.inj h, hconnection]
  rfl

theorem errLines_returns (env : Env) (s : WebSession) {status : Int} (h0 : 0 ≤ status)
    (h1 : status < 512) : ∃ lines, (s.markError status).errLines env = .ok lines := by
  obtain ⟨text, htext⟩ := statusTable_returns h0 h1
  have htext : statusTable (s.markError status).handler.statusCode = .ok text := htext
  unfold Session.errLines statusLine
  rw [htext]
  exact ⟨_, rfl⟩

/-- The lines of a response with the status 200 can be written. -/
theorem headLines_returns (env : Env) {s : WebSession} (h : s.handler.statusCode = 200) :
    ∃ lines, s.headLines env = .ok lines := by
  obtain ⟨text, htext⟩ := statusTable_returns (show (0 : Int) ≤ 200 by decide) (by decide)
  unfold Session.headLines statusLine
  rw [h, htext]
  exact ⟨_, rfl⟩

/-- The lines give `n` as the `Content-Length`. -/
def DeclaresLength (lines : List (List Byte)) (n : Int) : Prop :=
  ∃ digits, str "Content-Length: " ++ (digits ++ crlf) ∈ lines ∧ digits ≠ [] ∧
    (∀ d ∈ digits, isDigit d = true) ∧ decimal digits = n

/-- Texts that differ early are different. -/
theorem append_ne_append {a b : List Byte} (k : Nat) (ha : k ≤ a.length) (hb : k ≤ b.length)
    (hne : a.take k ≠ b.take k) (y x : List Byte) : a ++ x ≠ b ++ y := by
  intro h
  have htake := congrArg (List.take k) h
  rw [List.take_append_of_le_length ha, List.take_append_of_le_length hb] at htake
  exact hne htake

/-- **A head announces the size of the resource**, and no other, when no other line of it begins
like that one. -/
theorem declaresLength_of_other {r : Request} {before after : List (List Byte)} {n : Nat}
    (hother : ∀ line ∈ before ++ after, ∀ x, str "Content-Length: " ++ x ≠ line) :
    DeclaresLength (before ++ contentLengthLine r :: after) n ↔ r.resourceSize = n := by
  constructor
  · rintro ⟨digits, hmem, -, -, hvalue⟩
    rw [List.mem_append, List.mem_cons] at hmem
    rcases hmem with hl | hl | hl
    · exact absurd rfl (hother _ (List.mem_append_left _ hl) _)
    · unfold contentLengthLine at hl
      split_ifs at hl with hsize
      · obtain ⟨m, hm⟩ := Int.eq_ofNat_of_zero_le hsize
        rw [hm] at hl ⊢
        have hdigits : digits = _ := List.append_cancel_right (List.append_cancel_left hl)
        rw [← hvalue, hdigits, decimal_str]
      · exact absurd hl (List.append_ne_nil_of_left_ne_nil (by decide) _)
    · exact absurd rfl (hother _ (List.mem_append_right _ hl) _)
  · intro hsize
    refine ⟨str (toString (n : Int)), ?_, str_toString_ne_nil n, fun d hd => isDigit_of_mem_str hd,
      decimal_str n⟩
    have hline : contentLengthLine r =
        str "Content-Length: " ++ (str (toString (n : Int)) ++ crlf) := by
      unfold contentLengthLine
      rw [hsize, if_pos (Int.natCast_nonneg n)]
    simp [hline]

/-- The status line is no `Content-Length`. -/
theorem ne_statusLine {r : Request} {line : List Byte} (h : statusLine r = .ok line) (x : List Byte) :
    str "Content-Length: " ++ x ≠ line := by
  rintro rfl
  exact absurd (show some (chr 'C') = some (chr 'H') from (headLine_statusLine h).2) (by decide)

/-- **A head announces the size of the resource**, and no other, when no line behind the length
begins like it. -/
theorem declaresLength_head {r r' : Request} {line ctype : List Byte} {after : List (List Byte)}
    {n : Nat} (hline : statusLine r = .ok line)
    (hafter : ∀ l ∈ after, ∀ x, str "Content-Length: " ++ x ≠ l) :
    DeclaresLength (line :: dateLine env :: serverLine :: (str "Content-Type: " ++ ctype) ::
      contentLengthLine r' :: (after ++ [crlf])) n ↔ r'.resourceSize = n := by
  have hcrlf : ∀ x, str "Content-Length: " ++ x ≠ crlf := fun x h =>
    absurd (show some (chr 'C') = some (chr '\r') from congrArg List.head? h) (by decide)
  refine @declaresLength_of_other _ [line, dateLine env, serverLine, _] _ n ?_
  simp only [List.cons_append, List.nil_append, List.forall_mem_cons, List.forall_mem_append,
    List.not_mem_nil, IsEmpty.forall_iff, implies_true, and_true]
  exact ⟨ne_statusLine hline, append_ne_append 1 (by decide) (by decide) (by decide) _,
    append_ne_append 1 (by decide) (by decide) (by decide) _,
    append_ne_append 9 (by decide) (by decide) (by decide) _, hafter, hcrlf⟩

/-- **An error head announces the size of the resource**, and no other. -/
theorem declaresLength_iff {s : WebSession} {status : Int} {lines : List (List Byte)} {n : Nat}
    (h : (s.markError status).errLines env = .ok lines) :
    DeclaresLength lines n ↔ s.handler.resourceSize = n := by
  obtain ⟨line, hline, rfl⟩ := errLines_eq h
  have hclose : ∀ x, str "Content-Length: " ++ x ≠ str "Connection: close" ++ crlf :=
    append_ne_append 9 (by decide) (by decide) (by decide) _
  exact declaresLength_head hline (List.forall_mem_singleton.2 hclose)

/-- **An error head has one blank line, at its end**, and begins with `HTTP`. -/
theorem onlyAtEnd_errLines {s : WebSession} {status : Int} {lines : List (List Byte)}
    (hdate : chr '\n' ∉ env.date env.now) (h : (s.markError status).errLines env = .ok lines) :
    Words.OnlyAtEnd [chr '\n', chr '\r', chr '\n'] lines.flatten ∧
      lines.flatten.head? = some (chr 'H') := by
  obtain ⟨line, hline, rfl⟩ := errLines_eq h
  obtain ⟨hstatus, hhead⟩ := headLine_statusLine hline
  have hdated : HeadLine (dateLine env) := by
    have hval : chr '\n' ∉ env.date env.now ++ str " GMT" := by
      rw [List.mem_append]
      exact fun hmem => hmem.elim hdate (by decide)
    have hline : HeadLine (str "Date: " ++ ((env.date env.now ++ str " GMT") ++ crlf)) :=
      headLine_append (by decide) (by decide) (by decide) hval
    rw [List.append_assoc] at hline
    exact hline
  have hlines : ∀ l ∈ [line, dateLine env, serverLine, str "Content-Type: " ++ (str "text/html" ++ crlf),
      contentLengthLine s.handler, str "Connection: close" ++ crlf], HeadLine l := by
    simp only [List.forall_mem_cons, List.not_mem_nil, IsEmpty.forall_iff, implies_true, and_true]
    exact ⟨hstatus, hdated, headLine_append (by decide) (by decide) (by decide) (by decide),
      headLine_append (by decide) (by decide) (by decide) (by decide), headLine_contentLengthLine _,
      show HeadLine (str "Connection: close" ++ ([] ++ crlf)) from
        headLine_append (by decide) (by decide) (by decide) (by decide)⟩
  have hne : line ≠ [] := by
    rintro rfl
    exact absurd hhead (by decide)
  constructor
  · have hend := Words.onlyAtEnd_lines (show chr '\r' ≠ chr '\n' by decide) hlines
      ⟨line, List.mem_cons_self, hne⟩
    simpa [crlf] using hend
  · obtain ⟨c, text, rfl⟩ := List.exists_cons_of_ne_nil hne
    exact hhead

/-! ## The response -/

namespace Session

variable {env' : Env} {s s₁ s' : WebSession} {status : Int}

/-- An error response to a write buffer without a gap is assembled. -/
theorem responseAssembleErrBuffer_returns {lines : List (List Byte)}
    (hw : s.conn.ringBufferWrite.Inv) (hstart : s.conn.ringBufferWrite.start = 0) (ha : s.Alive)
    (hlines : (s.markError status).errLines env = .ok lines) :
    ∃ s', s.responseAssembleErrBuffer env status = .ok s' := by
  let opened := ((s.markError status).syscall
    (Kernel.openat env.rootdirFd (str "error.html") (env.root (str "error.html")))).2
  have hlines' : opened.errLines env = .ok lines := hlines
  obtain ⟨t, ht⟩ := appendAll_returns (s := opened) env lines hw hstart (ha.of_life rfl rfl)
  unfold responseAssembleErrBuffer
  simp only [ha.touchHandler]
  exact ⟨_, by rw [hlines', Run.ok_bind, ht, Run.ok_bind]; rfl⟩

/-- `sendfile` takes all of the page. -/
def TakesPage (env : Env) (s : WebSession) : Prop :=
  ∃ m, env.sendfile s.kernel.sendfiles = some m ∧ (errorPage env).length ≤ m

/-- There is nothing in the write buffer: `ring_buffer_release_bytes` leaves it at its beginning. -/
def WriteEmpty (s : WebSession) : Prop :=
  s.conn.ringBufferWrite.start = 0 ∧ s.conn.ringBufferWrite.end_ = 0

theorem WriteEmpty.pending (h : s.WriteEmpty) : s.pending = [] := by
  unfold Session.pending RingBuffer.content
  rw [h.1, h.2]
  rfl

theorem errBody_of_takesPage (h : s.TakesPage env) : s.errBody env = errorPage env := by
  obtain ⟨m, hm, hle⟩ := h
  unfold errBody
  rw [hm, Kernel.accepted_all hle]

/-- **The page is on the socket, and the head waits behind it.** -/
theorem httpRequest_fails (hw : s.conn.ringBufferWrite.Inv) (hr : s.conn.ringBufferRead.Inv)
    (ha : s.Alive) (hempty : s.WriteEmpty) (hfails : s.handleRequest env = .ok (status, s₁))
    (hstatus : status ≠ OK) :
    ∃ s' lines, s.httpRequest env = .ok s' ∧ (s₁.markError status).errLines env = .ok lines ∧
      s'.conn.ringBufferWrite.Inv ∧ s'.Alive ∧ s'.conn.state = .closing ∧
      s'.pending = lines.flatten ∧ s'.kernel.sent = s.kernel.sent ++ s.errBody env := by
  -- the bytes of the message can be given back
  have hread := handleRequest_read ha hfails
  obtain ⟨rb, h2, -⟩ := handleRequest_releases hr ha hfails
  have hrel := handleRequest_released hw ha hfails h2
  -- the status is in the table
  have hcode : 0 ≤ status ∧ status < 512 := by
    rcases handleRequest_code hr hfails with h | h | h | h | h
    · exact absurd h hstatus
    all_goals
      rw [h]
      decide
  obtain ⟨lines, hlines⟩ := errLines_returns env s₁ hcode.1 hcode.2
  have hstart : (s₁.setRead rb).conn.ringBufferWrite.start = 0 := by
    show s₁.conn.ringBufferWrite.start = 0
    rw [hread.write]
    exact hempty.1
  obtain ⟨s₃, h3⟩ := responseAssembleErrBuffer_returns hrel.write hstart hrel.alive hlines
  obtain ⟨hresp, -, hshort, lines', hlines', hpending, hsent⟩ :=
    responseAssembleErrBuffer_spec hrel.write hrel.alive h3
  obtain rfl := Run.ok_unique hlines hlines'
  -- the head waits for the socket
  have hwaits : s₃.pending ≠ [] := by
    rw [hpending]
    exact List.append_ne_nil_of_right_ne_nil _ (flatten_ne_nil_of_mem_crlf (crlf_mem_errLines hlines))
  obtain ⟨hidle, hfin⟩ := finishRequest_spec hresp.write (hresp.alive hrel.alive)
  refine ⟨s₃.finishRequest, lines, httpRequest_eq_ok.2 ⟨status, s₁, _, s₃, hfails, h2, ?_, rfl⟩,
    hlines, by rw [hidle.write]; exact hresp.write, ?_⟩
  · unfold respond
    rw [if_neg hstatus]
    exact h3
  cases hfin with
  | freed short empty touched freed => exact absurd empty hwaits
  | closing short waits life touched state ev =>
    refine ⟨(hresp.alive hrel.alive).of_life life touched, state, ?_, ?_⟩
    · rw [hidle.pending, hpending, hrel.pending, hempty.pending, List.nil_append]
    · rw [hidle.sent, hsent]
      have hsame : s₁.kernel.sent = s.kernel.sent := (Prod.mk.inj hread.wire).1
      have hbody : (s₁.setRead rb).errBody env = s.errBody env := by
        unfold errBody
        rw [hrel.sendfiles]
      rw [hbody]
      show s₁.kernel.sent ++ _ = _
      rw [hsame]
  | kept long => exact Bool.noConfusion (hshort.symm.trans long)

/-- **A well framed error response.**  What is received is the head and, behind it, the body that
the head announces. -/
structure ErrorFramed (lines : List (List Byte)) (body received : List Byte) : Prop where
  order : received = lines.flatten ++ body
  length : DeclaresLength lines body.length

/-- **An error response is well framed when the size found for the message is the length of the
page, and the page is empty or made of copies of the head.**  The size is that of the resource which
the message opens, or what an earlier request has left.  The socket takes all it is offered, in
`http_request` and in the writable event that follows; no date has a line feed. -/
theorem errorFramed_iff (env env' : Env) (s s₁ : WebSession) (status : Int) {pre m post : List Byte}
    (hreads : s.Reads pre m post) (hw : s.conn.ringBufferWrite.Inv)
    (hr : s.conn.ringBufferRead.Inv) (ha : s.Alive) (hempty : s.WriteEmpty)
    (hdate : chr '\n' ∉ env.date env.now)
    (hfails : s.handleRequest env = .ok (status, s₁)) (hstatus : status ≠ OK)
    (hpage : s.TakesPage env)
    (hall : ∀ s', s.httpRequest env = .ok s' → s'.SendsAll env') :
    ∃ s' s'' lines received, s.httpRequest env = .ok s' ∧
      s'.eventWritableCallback env' = .ok s'' ∧ (s₁.markError status).errLines env = .ok lines ∧
      s''.kernel.sent = s.kernel.sent ++ received ∧
      (ErrorFramed lines (errorPage env) received ↔
        s.SizeFound env m (errorPage env).length ∧ Words.Copies lines.flatten (errorPage env)) := by
  have hfound := handleRequest_sizeFound hreads hfails
  obtain ⟨s', lines, hok, hlines, hw', ha', hclosing, hpending, hsent⟩ :=
    httpRequest_fails hw hr ha hempty hfails hstatus
  rw [errBody_of_takesPage hpage] at hsent
  have hhead := flatten_ne_nil_of_mem_crlf (crlf_mem_errLines hlines)
  obtain ⟨s'', hout, hwritten⟩ := eventWritableCallback_spec env' hw' ha'
  refine ⟨s', s'', lines, errorPage env ++ lines.flatten, hok, hout, hlines, ?_, ?_⟩
  · -- the head goes, and the connection with it
    cases hwritten with
    | freed closing waits all touched freed gone =>
      rw [gone, Session.stream, hsent, hpending, List.append_assoc]
    | drained stays => exact absurd hclosing stays
    | kept more => exact absurd ⟨by rw [hpending]; exact hhead, hall s' hok⟩ more
  · obtain ⟨hend, hfirst⟩ := onlyAtEnd_errLines hdate hlines
    have hmark : ∀ c ∈ [chr '\n', chr '\r', chr '\n'], lines.flatten.head? ≠ some c := by
      intro c hc hsame
      obtain rfl : chr 'H' = c := Option.some.inj (hfirst.symm.trans hsame)
      exact absurd hc (by decide)
    have hsize : s.SizeFound env m (errorPage env).length ↔ DeclaresLength lines (errorPage env).length := by
      rw [declaresLength_iff hlines]
      exact ⟨fun h => hfound.unique h, fun h => by rw [← h]; exact hfound⟩
    rw [← Words.append_comm_iff_copies hend hhead hmark, hsize]
    exact ⟨fun h => ⟨h.length, h.order⟩, fun h => ⟨h.2, h.1⟩⟩

/-! ## A line that is not a request -/

/-- A connection that has just received a line that is not a request. -/
def saysNothing : WebSession := received (str "x\r\n\r\n")

/-- `error.html` is a file of one byte, and there is room for everything. -/
def shortPage : Env := { Env.oneFile with root := fun _ => some (.file [chr 'x']) }

/-- What the socket is offered fits. -/
theorem saysNothing_sendsAll {env : Env} (henv : env = .oneFile ∨ env = shortPage)
    (hok : saysNothing.httpRequest env = .ok s') : s'.SendsAll env := by
  have hlen : (saysNothing.httpRequest env).map (fun s' => s'.pending.length) = .ok 149 := by
    rcases henv with rfl | rfl <;> decide +kernel
  obtain ⟨t, ht, hlen⟩ := Run.map_eq_ok.1 hlen
  obtain rfl := Run.ok_unique hok ht
  refine ⟨2 ^ 20, ?_, by rw [hlen]; decide⟩
  rcases henv with rfl | rfl <;> rfl

/-- No page follows an empty `error.html`, and the head announces none. -/
theorem errorFramed_iff_empty : ∃ s₁ s' s'' lines received,
    saysNothing.handleRequest .oneFile = .ok (400, s₁) ∧
      saysNothing.httpRequest .oneFile = .ok s' ∧ s'.eventWritableCallback .oneFile = .ok s'' ∧
        s''.kernel.sent = received ∧ ErrorFramed lines (errorPage .oneFile) received := by
  have hfails : (saysNothing.handleRequest .oneFile).map (fun r =>
      (r.1, r.2.handler.resourceSize)) = .ok (400, 0) := by
    decide +kernel
  obtain ⟨⟨status, s₁⟩, h1, hval⟩ := Run.map_eq_ok.1 hfails
  obtain ⟨rfl, hsize⟩ := Prod.mk.inj hval
  have hreads := received_reads (str "x\r\n\r\n")
  have hfound := handleRequest_sizeFound hreads h1
  rw [show s₁.handler.resourceSize = 0 from hsize] at hfound
  obtain ⟨s', s'', lines, received, hok, hout, -, hsent, hiff⟩ := errorFramed_iff .oneFile .oneFile
    saysNothing s₁ 400 hreads RingBuffer.new_inv (received_inv _) ⟨rfl, rfl, rfl, rfl⟩ ⟨rfl, rfl⟩
    (by decide +kernel) h1 (by decide) ⟨2 ^ 20, rfl, by decide⟩
    (fun s' hok => saysNothing_sendsAll (Or.inl rfl) hok)
  exact ⟨s₁, s', s'', lines, received, h1, hok, hout, hsent, hiff.2 ⟨hfound, 0, rfl⟩⟩

/-- **A page of one byte comes before its head**, which says that there is none. -/
theorem not_errorFramed : ¬ ∀ (env env' : Env) (s s₁ : WebSession) (status : Int),
    s.conn.ringBufferWrite.Inv → s.conn.ringBufferRead.Inv → s.Alive → s.WriteEmpty →
      chr '\n' ∉ env.date env.now → s.handleRequest env = .ok (status, s₁) → status ≠ OK →
        s.TakesPage env → (∀ s', s.httpRequest env = .ok s' → s'.SendsAll env') →
          ∃ s' s'' lines received, s.httpRequest env = .ok s' ∧
            s'.eventWritableCallback env' = .ok s'' ∧
              (s₁.markError status).errLines env = .ok lines ∧
                s''.kernel.sent = s.kernel.sent ++ received ∧
                  ErrorFramed lines (errorPage env) received := by
  intro h
  have hfails : (saysNothing.handleRequest shortPage).map (fun r =>
      (r.1, r.2.handler.resourceSize)) = .ok (400, 0) := by
    decide +kernel
  obtain ⟨⟨status, s₁⟩, h1, hval⟩ := Run.map_eq_ok.1 hfails
  obtain ⟨rfl, hsize⟩ := Prod.mk.inj hval
  obtain ⟨s', s'', lines, received, -, -, hlines, -, hframed⟩ := h shortPage shortPage saysNothing s₁
    400 RingBuffer.new_inv (received_inv _) ⟨rfl, rfl, rfl, rfl⟩ ⟨rfl, rfl⟩ (by decide +kernel) h1
    (by decide) ⟨2 ^ 20, rfl, by decide⟩ (fun s' hok => saysNothing_sendsAll (Or.inr rfl) hok)
  have hlength := (declaresLength_iff hlines).1 hframed.length
  exact absurd (hsize.symm.trans hlength) (by decide)

end Session

end MWebServer
