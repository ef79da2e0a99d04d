import MWebServer.Mevent.Sending
import MWebServer.Web.RequestLineHandler

/-!
# What the handlers leave alone

The handlers of `http_request` read the message: they write into the block of the
read buffer, fill the request and open files, and nothing else.  `Handled` is that
frame; every handler keeps it whatever it answers (`callHandler_handled`), and so
does the loop (`handlerLoop_handled`).

`Served` is what the loop has achieved when it ends with `OK`: a resource is open
and no response has been begun (`handlerLoop_served`).
-/

namespace MWebServer

/-! ## Lengths -/

theorem length_of_terminatePath {mem mem' : Mem} {p : Nat} (h : terminatePath mem p = .ok mem') :
    mem'.length = mem.length := length_of_memcpy h

theorem length_of_tolower {mem mem' : Mem} {s : Ssstr} (h : s.tolower mem = .ok mem') :
    mem'.length = mem.length := by
  unfold Ssstr.tolower at h
  split at h
  · exact length_of_memcpy h
  · split_ifs at h
    rw [← Except.ok.inj h]
  · split_ifs at h
    rw [← Except.ok.inj h]

/-! ## The response flags of the archive -/

/-- The fields of the archive that belong to the response. -/
def ParseArchive.response (ar : ParseArchive) : Bool × Bool := (ar.responseDone, ar.errReq)

/-- The archive without what a header line fills in. -/
def ParseArchive.bare (ar : ParseArchive) : ParseArchive :=
  { ar with
    numHeaders := 0
    headerName := .init
    headerVal := .init
    nextParsePos := none
    state := .rlBegin
    headerLineBegin := none
    headerColonPos := none
    headerValBegin := none
    headerValEnd := none
    isCRLFLine := true }

theorem hdBody_bare (p : Nat) (ch : Byte) (ar : ParseArchive) :
    Keeps ParseArchive.bare ar (hdBody p ch ar) := by
  unfold hdBody
  cases ar.state
  all_goals
    simp only
    repeat' (first | rfl | split_ifs)

theorem headerDone_bare {ar : ParseArchive} {r : Int × ParseArchive}
    (h : headerDone ar = .ok r) : r.2.bare = ar.bare := by
  unfold headerDone at h
  obtain ⟨name, -, h⟩ := Run.bind_eq_ok.1 h
  obtain ⟨val, -, h⟩ := Run.bind_eq_ok.1 h
  rw [← Except.ok.inj h]
  rfl

/-- **`parse_header_line` fills in a header line and nothing else.** -/
theorem parseHeaderLine_bare {mem : Mem} {msg len : Nat} {ar : ParseArchive} {r : Parsed}
    (h : parseHeaderLine mem msg len ar = .ok r) : r.ar.bare = ar.bare :=
  lineParser_keeps hdBody_bare (fun _ _ _ => rfl) (fun _ _ hr => headerDone_bare hr) h

/-- What the request line has recorded for the response is kept, and none is begun. -/
structure LineKept (ar ar' : ParseArchive) : Prop where
  url : ar'.url = ar.url
  version : ar'.version = ar.version
  response : ar'.response = ar.response

theorem LineKept.trans {ar ar' ar'' : ParseArchive} (h : LineKept ar ar') (h' : LineKept ar' ar'') :
    LineKept ar ar'' :=
  ⟨h'.url.trans h.url, h'.version.trans h.version, h'.response.trans h.response⟩

/-- What the headers of a request leave of its archive. -/
structure ReadsOn (ar ar' : ParseArchive) : Prop extends LineKept ar ar' where
  bodyReceived : ar'.bodyReceived = ar.bodyReceived
  transferEncoding : ar'.transferEncoding = ar.transferEncoding
  contentLength : ar'.contentLength = ar.contentLength ∨
    (0 < ar'.contentLength ∧ ar'.contentLength ≤ intMax)

theorem ReadsOn.refl (ar : ParseArchive) : ReadsOn ar ar :=
  ⟨⟨rfl, rfl, rfl⟩, rfl, rfl, Or.inl rfl⟩

theorem ReadsOn.trans {ar ar' ar'' : ParseArchive} (h : ReadsOn ar ar') (h' : ReadsOn ar' ar'') :
    ReadsOn ar ar'' := by
  refine ⟨h.toLineKept.trans h'.toLineKept, h'.bodyReceived.trans h.bodyReceived,
    h'.transferEncoding.trans h.transferEncoding, ?_⟩
  rcases h'.contentLength with heq | hset
  · rw [heq]
    exact h.contentLength
  · exact Or.inr hset

theorem readsOn_of_bare {ar ar' : ParseArchive} (h : ar'.bare = ar.bare) : ReadsOn ar ar' := by
  have hurl : ar'.bare.url = ar.bare.url := by rw [h]
  have hversion : ar'.bare.version = ar.bare.version := by rw [h]
  have hresponse : ar'.bare.response = ar.bare.response := by rw [h]
  have hbody : ar'.bare.bodyReceived = ar.bare.bodyReceived := by rw [h]
  have hcoding : ar'.bare.transferEncoding = ar.bare.transferEncoding := by rw [h]
  have hlength : ar'.bare.contentLength = ar.bare.contentLength := by rw [h]
  exact ⟨⟨hurl, hversion, hresponse⟩, hbody, hcoding, Or.inl hlength⟩

theorem atoi_le (xs : List Byte) : atoi xs ≤ intMax := by
  unfold atoi toInt intMax
  have hlt : Int.bmod (strtol xs) (2 ^ 32) < (2 ^ 32 + 1) / 2 := Int.bmod_lt (by decide)
  omega

variable {beyond : List Byte}

/-- What a function of `hf_list` can answer, and what it makes of the archive. -/
inductive HeaderFunc.Answers (hf : HeaderFunc) (ar : ParseArchive) : Int × ParseArchive → Prop
  | recorded (func : hf.func = .base) : Answers hf ar (OK, requestHandleHdBase hf ar)
  | keepAlive (func : hf.func = .connection) (b : Bool) :
      Answers hf ar (OK, { requestHandleHdBase hf ar with keepAlive := b })
  | contentLength (func : hf.func = .contentLength) (digits : List Byte) (pos : 0 < atoi digits) :
      Answers hf ar (OK, { requestHandleHdBase hf ar with contentLength := atoi digits })
  | refused (status : Int) (code : status = 400 ∨ status = 501) :
      Answers hf ar (status, requestHandleHdBase hf ar)

theorem call_answers {mem : Mem} {hf : HeaderFunc} {ar : ParseArchive} {r : Int × ParseArchive}
    (h : hf.call beyond mem ar = .ok r) : hf.Answers ar r := by
  unfold HeaderFunc.call at h
  cases hfunc : hf.func with
  | base =>
    rw [hfunc] at h
    rw [← Except.ok.inj h]
    exact .recorded hfunc
  | connection =>
    rw [hfunc] at h
    obtain ⟨keep, -, h⟩ := Run.bind_eq_ok.1 h
    cases keep with
    | true =>
      rw [← Except.ok.inj h]
      exact .keepAlive hfunc true
    | false =>
      obtain ⟨close, -, h⟩ := Run.bind_eq_ok.1 h
      rw [← Except.ok.inj h]
      cases close with
      | true => exact .keepAlive hfunc false
      | false => exact .refused 400 (Or.inl rfl)
  | contentLength =>
    rw [hfunc] at h
    obtain ⟨digits, -, h⟩ := Run.bind_eq_ok.1 h
    rw [← Except.ok.inj h]
    split_ifs with hle
    · exact .refused 400 (Or.inl rfl)
    · exact .contentLength hfunc (digits ++ beyond) (not_le.1 hle)
  | transferEncoding =>
    rw [hfunc] at h
    obtain ⟨known, -, h⟩ := Run.bind_eq_ok.1 h
    rw [← Except.ok.inj h]
    split_ifs
    · exact .refused 501 (Or.inr rfl)
    · exact .refused 400 (Or.inl rfl)

/-- A handler function sets at most `keep_alive` and `content_length`, beside its slot. -/
theorem call_readsOn {mem : Mem} {hf : HeaderFunc} {ar : ParseArchive} {r : Int × ParseArchive}
    (h : hf.call beyond mem ar = .ok r) : ReadsOn ar r.2 := by
  cases call_answers h with
  | recorded func => exact ⟨⟨rfl, rfl, rfl⟩, rfl, rfl, Or.inl rfl⟩
  | keepAlive func b => exact ⟨⟨rfl, rfl, rfl⟩, rfl, rfl, Or.inl rfl⟩
  | contentLength func digits pos =>
    exact ⟨⟨rfl, rfl, rfl⟩, rfl, rfl, Or.inr ⟨pos, atoi_le digits⟩⟩
  | refused status code => exact ⟨⟨rfl, rfl, rfl⟩, rfl, rfl, Or.inl rfl⟩

theorem handleHeaderLine_frame {mem : Mem} {ar : ParseArchive} {r : Mem × Int × ParseArchive}
    (h : handleHeaderLine beyond mem ar = .ok r) : r.1.length = mem.length ∧ ReadsOn ar r.2.2 := by
  unfold handleHeaderLine at h
  obtain ⟨mem', hmem, h⟩ := Run.bind_eq_ok.1 h
  split at h
  · rw [← Except.ok.inj h]
    exact ⟨length_of_tolower hmem, .refl ar⟩
  · obtain ⟨x, hx, h⟩ := Run.bind_eq_ok.1 h
    rw [← Except.ok.inj h]
    exact ⟨length_of_tolower hmem, call_readsOn hx⟩

/-- The loop of `request_handle_headers` on any bytes. -/
theorem headerLoop_frame {fuel : Nat} {mem : Mem} {msg len : Nat} {ar : ParseArchive}
    {x : HeaderExit × Mem × ParseArchive} (h : headerLoop beyond fuel mem msg len ar = .ok x) :
    x.2.1.length = mem.length ∧ ReadsOn ar x.2.2 := by
  induction fuel generalizing mem msg len ar with
  | zero => cases h
  | succ fuel ih =>
    rw [headerLoop] at h
    obtain ⟨r, hr, h⟩ := Run.bind_eq_ok.1 h
    have hread := readsOn_of_bare (parseHeaderLine_bare hr)
    split_ifs at h
    · rw [← Except.ok.inj h]
      exact ⟨rfl, hread⟩
    · rw [← Except.ok.inj h]
      exact ⟨rfl, hread⟩
    · rw [← Except.ok.inj h]
      exact ⟨rfl, hread⟩
    · obtain ⟨⟨mem', status, ar'⟩, hline, h⟩ := Run.bind_eq_ok.1 h
      obtain ⟨hlen, hread'⟩ := handleHeaderLine_frame hline
      simp only at h hlen hread'
      split_ifs at h with hstatus
      · rw [← Except.ok.inj h]
        exact ⟨hlen, hread.trans hread'⟩
      · obtain ⟨hlen', hread''⟩ := ih h
        exact ⟨hlen'.trans hlen, hread.trans (hread'.trans hread'')⟩

/-! ## The frame of a handler -/

namespace Session

/-- What the kernel has seen on the socket. -/
def wire (s : WebSession) : List Byte × Nat × Nat :=
  (s.kernel.sent, s.kernel.sends, s.kernel.sendfiles)

/-- **The frame of a handler.**  `s` is the session before a call and `s'` the one after it. -/
structure Handled (s s' : WebSession) : Prop where
  conn : ∃ mem : Mem, mem.length = s.readMem.length ∧
    s'.conn = { s.conn with ringBufferRead := { s.conn.ringBufferRead with msg := mem } }
  ev : s'.ev = s.ev
  life : s'.life = s.life
  wire : s'.wire = s.wire
  resHandler : s'.handler.resHandler = s.handler.resHandler
  statusCode : s'.handler.statusCode = s.handler.statusCode
  touched : s.connLive = true → s.handlerLive = true → s'.touchedDead = s.touchedDead

theorem Handled.refl (s : WebSession) : s.Handled s :=
  ⟨⟨s.readMem, rfl, rfl⟩, rfl, rfl, rfl, rfl, rfl, fun _ _ => rfl⟩

theorem Handled.trans {s t u : WebSession} (h : s.Handled t) (h' : t.Handled u) : s.Handled u := by
  obtain ⟨mem, hlen, hconn⟩ := h.conn
  obtain ⟨mem', hlen', hconn'⟩ := h'.conn
  have hlife := h.life
  simp only [Session.life, Prod.mk.injEq] at hlife
  refine ⟨⟨mem', ?_, by rw [hconn', hconn]⟩, h'.ev.trans h.ev, h'.life.trans h.life,
    h'.wire.trans h.wire, h'.resHandler.trans h.resHandler, h'.statusCode.trans h.statusCode,
    fun h1 h2 => ?_⟩
  · rw [hlen', Session.readMem, hconn, hlen]
  · rw [h'.touched (by rw [hlife.1, h1]) (by rw [hlife.2.2.1, h2]), h.touched h1 h2]

/-- The touches at the beginning of a handler. -/
theorem handled_touch (s : WebSession) : s.Handled s.touchHandler.touchConn :=
  ⟨⟨s.readMem, rfl, rfl⟩, rfl, rfl, rfl, rfl, rfl, fun h1 h2 => by
    simp [Session.touchConn, Session.touchHandler, h1, h2]⟩

theorem handled_setPar (s : WebSession) (par : ParseArchive) : s.Handled (s.setPar par) :=
  ⟨⟨s.readMem, rfl, rfl⟩, rfl, rfl, rfl, rfl, rfl, fun _ _ => rfl⟩

theorem handled_setReadMem {s : WebSession} {mem : Mem} (h : mem.length = s.readMem.length) :
    s.Handled (s.setReadMem mem) :=
  ⟨⟨mem, h, rfl⟩, rfl, rfl, rfl, rfl, rfl, fun _ _ => rfl⟩

/-- Another request with the same response fields. -/
theorem handled_setReq {s : WebSession} {r : Request} (hres : r.resHandler = s.handler.resHandler)
    (hcode : r.statusCode = s.handler.statusCode) : s.Handled (s.setReq r) :=
  ⟨⟨s.readMem, rfl, rfl⟩, rfl, rfl, rfl, hres, hcode, fun _ _ => rfl⟩

/-- Another kernel that has seen the same on the socket. -/
theorem handled_kernel {s : WebSession} {k : Kernel} (h : (k.sent, k.sends, k.sendfiles) = s.wire) :
    s.Handled { s with kernel := k } :=
  ⟨⟨s.readMem, rfl, rfl⟩, rfl, rfl, h, rfl, rfl, fun _ _ => rfl⟩

theorem openat_wire (dirfd : Int) (path : List Byte) (target : Option Inode) (k : Kernel) :
    ((k.openat dirfd path target).2.sent, (k.openat dirfd path target).2.sends,
      (k.openat dirfd path target).2.sendfiles) = (k.sent, k.sends, k.sendfiles) := by
  cases target <;> rfl

variable {env : Env} {s s' : WebSession} {code : Int}

theorem openResource_handled (path : List Byte) (s : WebSession) :
    s.Handled (s.openResource env path).2 := by
  have hopen : ∀ (t : WebSession) dirfd path target,
      t.Handled { t with kernel := (t.kernel.openat dirfd path target).2 } :=
    fun t dirfd path target => handled_kernel (openat_wire dirfd path target t.kernel)
  have hclose : ∀ (t : WebSession) fd, t.Handled (t.closeFd fd) := fun t fd => handled_kernel rfl
  unfold openResource syscall
  cases hroot : env.root path with
  | none => exact hopen s env.rootdirFd path none
  | some inode =>
    have h1 := hopen s env.rootdirFd path (some inode)
    cases inode with
    | file content => exact h1.trans (handled_setReq rfl rfl)
    | dir size index =>
      let dir := s.kernel.openat env.rootdirFd path (some (.dir size index))
      have h2 := (h1.trans (hopen { s with kernel := dir.2 } dir.1 (str "index.html") index)).trans
        (hclose _ dir.1)
      cases index with
      | none => exact h2
      | some html => exact (h2.trans (handled_setPar _ _)).trans (handled_setReq rfl rfl)

/-- **A call of `request_handle_request_line`** refuses the line, or opens a path. -/
theorem requestHandleRequestLine_cases (h : s.requestHandleRequestLine env = .ok (code, s')) :
    (∃ par, (code = AGAIN ∨ code = 400 ∨ code = 500) ∧ s' = s.touchHandler.touchConn.setPar par) ∨
      ∃ par mem path, mem.length = s.readMem.length ∧
        ((s.touchHandler.touchConn.setPar par).setReadMem mem).openResource env path = (code, s') := by
  unfold requestHandleRequestLine at h
  simp only at h
  split at h
  · obtain ⟨rfl, rfl⟩ := Prod.mk.inj (Except.ok.inj h)
    exact Or.inl ⟨_, Or.inl rfl, rfl⟩
  · obtain ⟨r, -, h⟩ := Run.bind_eq_ok.1 h
    split_ifs at h
    · rcases requestLineAccepted_cases h with ⟨rfl, rfl⟩ | ⟨off, mem, par, path, -, hmem, hopen⟩
      · exact Or.inl ⟨_, Or.inr (Or.inr rfl), rfl⟩
      · exact Or.inr ⟨par, mem, path, length_of_terminatePath hmem, hopen⟩
    · obtain ⟨rfl, rfl⟩ := Prod.mk.inj (Except.ok.inj h)
      exact Or.inl ⟨_, Or.inl rfl, rfl⟩
    · obtain ⟨rfl, rfl⟩ := Prod.mk.inj (Except.ok.inj h)
      exact Or.inl ⟨_, Or.inr (Or.inl rfl), rfl⟩

theorem requestHandleRequestLine_handled (h : s.requestHandleRequestLine env = .ok (code, s')) :
    s.Handled s' := by
  refine (handled_touch s).trans ?_
  rcases requestHandleRequestLine_cases h with ⟨par, -, rfl⟩ | ⟨par, mem, path, hmem, hopen⟩
  · exact handled_setPar _ par
  · let t := s.touchHandler.touchConn.setPar par
    have hopened := @openResource_handled env path (t.setReadMem mem)
    rw [hopen] at hopened
    exact (handled_setPar _ par).trans ((handled_setReadMem (s := t) hmem).trans hopened)

/-- What `request_handle_headers` does on any bytes. -/
theorem requestHandleHeaders_frame (h : s.requestHandleHeaders env = .ok (code, s')) :
    ∃ mem ar req, mem.length = s.readMem.length ∧ ReadsOn s.handler.par ar ∧
      s' = (s.touchHandler.touchConn.setReadMem mem).setReq
        { s.handler with par := ar, reqHandler := req } ∧
      (s.handler.reqHandler ≠ none → req = s.handler.reqHandler ∨ req = some .body) := by
  unfold requestHandleHeaders at h
  simp only at h
  split at h
  · cases h
  · obtain ⟨⟨exit, mem, ar⟩, hloop, h⟩ := Run.bind_eq_ok.1 h
    obtain ⟨hlen, hread⟩ := headerLoop_frame hloop
    cases exit with
    | ret code =>
      obtain rfl := congrArg Prod.snd (Except.ok.inj h)
      exact ⟨mem, ar, s.handler.reqHandler, hlen, hread, rfl, fun _ => Or.inl rfl⟩
    | headerDone =>
      obtain rfl := congrArg Prod.snd (Except.ok.inj h)
      exact ⟨mem, ar, some .body, hlen, hread, rfl, fun _ => Or.inr rfl⟩

/-- What `request_handle_body` does. -/
theorem requestHandleBody_frame (h : s.requestHandleBody = .ok (code, s')) :
    ∃ ar req, LineKept s.handler.par ar ∧
      s' = s.touchHandler.touchConn.setReq { s.handler with par := ar, reqHandler := req } ∧
      (code = OK → req = none) := by
  have hpar : ∀ msg len, LineKept s.handler.par
      (parseHeaderBodyIdentity msg len s.handler.par).2 := by
    intro msg len
    unfold parseHeaderBodyIdentity
    simp only
    split_ifs <;> exact ⟨rfl, rfl, rfl⟩
  have hne : ERROR ≠ OK := by decide
  unfold requestHandleBody at h
  simp only at h
  split at h
  · split_ifs at h with hagain hok
    · obtain ⟨hcode, rfl⟩ := Prod.mk.inj (Except.ok.inj h)
      exact ⟨_, s.handler.reqHandler, hpar _ _, rfl, fun hc => absurd (hcode.trans hc) (by decide)⟩
    · obtain rfl := congrArg Prod.snd (Except.ok.inj h)
      exact ⟨_, none, hpar _ _, rfl, fun _ => rfl⟩
    · obtain ⟨hcode, rfl⟩ := Prod.mk.inj (Except.ok.inj h)
      exact ⟨_, s.handler.reqHandler, hpar _ _, rfl, fun hc => absurd (hcode.trans hc) hne⟩
  · obtain ⟨hcode, rfl⟩ := Prod.mk.inj (Except.ok.inj h)
    exact ⟨s.handler.par, s.handler.reqHandler, ⟨rfl, rfl, rfl⟩, rfl, fun hc => absurd (hcode.trans hc) hne⟩

/-- **Every handler keeps to its frame.** -/
theorem callHandler_handled {hd : ReqHandler} (h : s.callHandler env hd = .ok (code, s')) :
    s.Handled s' := by
  cases hd with
  | requestLine => exact requestHandleRequestLine_handled h
  | headers =>
    obtain ⟨mem, ar, req, hlen, -, rfl, -⟩ := requestHandleHeaders_frame h
    exact ((handled_touch s).trans (handled_setReadMem (s := s.touchHandler.touchConn) hlen)).trans
      (handled_setReq rfl rfl)
  | body =>
    obtain ⟨ar, req, -, rfl, -⟩ := requestHandleBody_frame h
    exact (handled_touch s).trans (handled_setReq rfl rfl)

/-- **So does the loop of `http_request`.** -/
theorem handlerLoop_handled {fuel : Nat} (h : s.handlerLoop env fuel = .ok (code, s')) :
    s.Handled s' := by
  induction fuel generalizing s with
  | zero => cases h
  | succ fuel ih =>
    rw [handlerLoop] at h
    split at h
    · cases h
    · obtain ⟨⟨status, t⟩, ht, h⟩ := Run.bind_eq_ok.1 h
      have hcall := callHandler_handled ht
      simp only at h
      split_ifs at h
      · exact hcall.trans (ih h)
      · obtain rfl := congrArg Prod.snd (Except.ok.inj h)
        exact hcall

/-- **The rule of the loop.**  `I` is what a call may rely on, and `J` what it leaves for its answer:
what the last call leaves holds at the end. -/
theorem handlerLoop_rule {I : WebSession → Prop} {J : Int → WebSession → Prop}
    (hIJ : ∀ t, J OK t → I t)
    (hcall : ∀ (t : WebSession) hd status t', I t → t.handler.reqHandler = some hd →
      t.callHandler env hd = .ok (status, t') → J status t')
    {fuel : Nat} (h0 : I s) (h : s.handlerLoop env fuel = .ok (code, s')) : J code s' := by
  induction fuel generalizing s with
  | zero => cases h
  | succ fuel ih =>
    rw [handlerLoop] at h
    split at h
    · cases h
    · next hd hreq =>
      obtain ⟨⟨status, t⟩, ht, h⟩ := Run.bind_eq_ok.1 h
      have hnext := hcall s hd status t h0 hreq ht
      simp only at h
      split_ifs at h with hgo
      · obtain ⟨-, rfl⟩ := hgo
        exact ih (hIJ t hnext) h
      · obtain ⟨rfl, rfl⟩ := Prod.mk.inj (Except.ok.inj h)
        exact hnext

/-- What an accepted request line leaves, whatever the message is. -/
theorem requestHandleRequestLine_opened (hinv : s.conn.ringBufferRead.Inv)
    (hpar : s.handler.par = parseArchiveInit) (h : s.requestHandleRequestLine env = .ok (OK, s')) :
    ∃ (pre line rest post : List Byte) (l : RequestLine) (url : ReqUrl) (inode : Inode),
      (s.lineRead pre line rest post l url).HasResource s' inode := by
  obtain ⟨l, rest, hread⟩ := exists_line_of_ok hinv hpar h
  obtain ⟨pre, post, hreads⟩ := exists_reads hinv
  rw [hread] at hreads
  obtain ⟨-, -, url, line, inode, -, hres⟩ := requestHandleRequestLine_ok hreads hpar h
  exact ⟨pre, line, rest, post, l, url, inode, hres⟩

/-- **The rule of the stages.**  The first call handles the request line, the others do not; each of
these relies on what the one before has left for `OK`. -/
theorem handlerLoop_stages {J : Int → WebSession → Prop}
    (hline : ∀ (t t' : WebSession) status, t.conn.ringBufferRead.Inv →
      t.handler.par = parseArchiveInit → t.requestHandleRequestLine env = .ok (status, t') → J status t')
    (hheaders : ∀ (t t' : WebSession) status, J OK t → t.handler.reqHandler = some .headers →
      t.requestHandleHeaders env = .ok (status, t') → J status t')
    (hbody : ∀ (t t' : WebSession) status, J OK t → t.handler.reqHandler = some .body →
      t.requestHandleBody = .ok (status, t') → J status t')
    (hinv : s.conn.ringBufferRead.Inv) (hpar : s.handler.par = parseArchiveInit)
    (hreq : s.handler.reqHandler = some .requestLine) {fuel : Nat}
    (h : s.handlerLoop env fuel = .ok (code, s')) : J code s' := by
  let Later : Int → WebSession → Prop := fun status t =>
    J status t ∧ (status = OK → t.handler.reqHandler ≠ some .requestLine)
  let I : WebSession → Prop := fun t => (t.handler.reqHandler = some .requestLine ∧
    t.conn.ringBufferRead.Inv ∧ t.handler.par = parseArchiveInit) ∨ Later OK t
  have hcall : ∀ (t : WebSession) hd status t', I t → t.handler.reqHandler = some hd →
      t.callHandler env hd = .ok (status, t') → Later status t' := by
    intro t hd status t' hI hhd ht
    cases hd with
    | requestLine =>
      obtain ⟨-, hinv, hpar⟩ | ⟨-, hlater⟩ := hI
      · refine ⟨hline t t' status hinv hpar ht, ?_⟩
        rintro rfl
        obtain ⟨pre, line, rest, post, l, url, inode, hres⟩ :=
          requestHandleRequestLine_opened hinv hpar ht
        rw [hres.reqHandler]
        decide
      · exact absurd hhd (hlater rfl)
    | headers =>
      obtain ⟨hfirst, -⟩ | ⟨hJ, -⟩ := hI
      · rw [hfirst] at hhd
        cases hhd
      · refine ⟨hheaders t t' status hJ hhd ht, fun _ => ?_⟩
        obtain ⟨mem, ar, req, -, -, rfl, hnext⟩ := requestHandleHeaders_frame ht
        show req ≠ _
        obtain rfl | rfl := hnext (by rw [hhd]; simp)
        · rw [hhd]
          decide
        · decide
    | body =>
      obtain ⟨hfirst, -⟩ | ⟨hJ, -⟩ := hI
      · rw [hfirst] at hhd
        cases hhd
      · refine ⟨hbody t t' status hJ hhd ht, fun hok => ?_⟩
        obtain ⟨ar, req, -, rfl, hnext⟩ := requestHandleBody_frame ht
        show req ≠ _
        rw [hnext hok]
        simp
  exact (handlerLoop_rule (fun t ht => Or.inr ht) hcall (Or.inl ⟨hreq, hinv, hpar⟩) h).1

/-! ## The resource -/

/-- A resource is open, and no response has been begun. -/
structure Served (s : WebSession) : Prop where
  fd_pos : 0 < s.handler.resourceFd
  resource : ∃ inode, s.kernel.file s.handler.resourceFd = some inode ∧
    s.handler.resourceSize = toInt inode.stSize
  response : s.handler.par.response = (false, false)

/-- **A loop that ends with `OK` has opened a resource.** -/
theorem handlerLoop_served (hinv : s.conn.ringBufferRead.Inv)
    (hpar : s.handler.par = parseArchiveInit) (hreq : s.handler.reqHandler = some .requestLine)
    {fuel : Nat} (h : s.handlerLoop env fuel = .ok (OK, s')) : s'.Served := by
  -- the first call opens it, the other two leave it alone
  refine handlerLoop_stages (J := fun status t => status = OK → t.Served) ?_ ?_ ?_ hinv hpar hreq h rfl
  · rintro t t' status hinv hpar ht rfl
    obtain ⟨pre, line, rest, post, l, url, inode, hres⟩ := requestHandleRequestLine_opened hinv hpar ht
    obtain ⟨url', hpar'⟩ := hres.par
    exact ⟨hres.fd_pos, ⟨inode, hres.file, hres.size⟩, by rw [hpar']; rfl⟩
  · rintro t t' status hJ - ht -
    obtain ⟨mem, ar, req, -, hread, rfl, -⟩ := requestHandleHeaders_frame ht
    exact ⟨(hJ rfl).fd_pos, (hJ rfl).resource, hread.response.trans (hJ rfl).response⟩
  · rintro t t' status hJ - ht -
    obtain ⟨ar, req, hresp, rfl, -⟩ := requestHandleBody_frame ht
    exact ⟨(hJ rfl).fd_pos, (hJ rfl).resource, hresp.response.trans (hJ rfl).response⟩

end Session

end MWebServer
