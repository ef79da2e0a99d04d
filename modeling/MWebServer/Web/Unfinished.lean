import MWebServer.Web.ContentLength
import MWebServer.Web.KeepAlive

/-!
# Complete and unfinished messages

What `http_request` makes of a message is decided in three places: at the request line,
behind the last header line (`exists_lines`), and at the body, whose length is that of
the last `Content-Length` header that announces one (`declaredLength`).

* `handleRequest_complete` — a message whose header section has its end.
* `handleRequest_again_iff` — the handlers ask for more exactly on a message that ends
  too early (`Unfinished`).
* `persists_iff` — and keep the connection exactly for a complete message that asks for
  it.
-/

namespace MWebServer

open LastChoice

variable {env : Env} {beyond : List Byte}

/-! ## The length that is declared -/

/-- The length a header line leaves, with the bytes `rest` behind the line, when it was `n` before:
`atoi` reads on behind the value, in the block and beyond it. -/
def HeaderLine.contentLength (l : HeaderLine) (rest : List Byte) (n : Int) : Int :=
  if l.key = str "content-length" ∧ 0 < atoi (l.val ++ (crlf ++ rest)) then
    atoi (l.val ++ (crlf ++ rest))
  else n

/-- The length some header lines leave, with the bytes `rest` behind the lines. -/
def declaredLength : List HeaderLine → List Byte → Int → Int
  | [], _, n => n
  | l :: hs, rest, n => declaredLength hs rest (l.contentLength (headerLines hs ++ rest) n)

/-- Every length is read inside the message that ends with `rest`. -/
def LengthsInside : List HeaderLine → List Byte → Prop
  | [], _ => True
  | l :: hs, rest => (l.key = str "content-length" →
      StopsInside (l.val ++ (crlf ++ (headerLines hs ++ rest)))) ∧ LengthsInside hs rest

/-- What stands behind the message does not matter then. -/
theorem declaredLength_inside {hs : List HeaderLine} {rest : List Byte} (h : LengthsInside hs rest)
    (x : List Byte) (n : Int) : declaredLength hs (rest ++ x) n = declaredLength hs rest n := by
  induction hs generalizing n with
  | nil => rfl
  | cons l hs ih =>
    obtain ⟨hstops, hinside⟩ := h
    have hlength : l.contentLength (headerLines hs ++ (rest ++ x)) n =
        l.contentLength (headerLines hs ++ rest) n := by
      unfold HeaderLine.contentLength
      by_cases hkey : l.key = str "content-length"
      · have hread : atoi (l.val ++ (crlf ++ (headerLines hs ++ (rest ++ x)))) =
            atoi (l.val ++ (crlf ++ (headerLines hs ++ rest))) := by
          have hassoc : l.val ++ (crlf ++ (headerLines hs ++ (rest ++ x))) =
              l.val ++ (crlf ++ (headerLines hs ++ rest)) ++ x := by simp
          unfold atoi
          rw [hassoc, strtol_eq, strtol_eq, leadingNumber_append (hstops hkey)]
        rw [hread]
      · rw [if_neg fun hc => hkey hc.1, if_neg fun hc => hkey hc.1]
    rw [declaredLength, declaredLength, hlength, ih hinside]

/-- Only `content-length` is handled by `request_handle_hd_content_length`. -/
theorem hfList_contentLength : ∀ hf ∈ hfList,
    hf.func = .contentLength ↔ str hf.hd = str "content-length" := by
  decide +kernel

/-- **One header line.** -/
theorem handleHeaderLine_contentLength {pre post : List Byte} {l : HeaderLine}
    {ar ar' : ParseArchive} {mem : Mem} {status : Int}
    (hname : ar.headerName = .slice (pre.length + l.lead.length) l.name.length)
    (hval : ar.headerVal = .slice (pre.length + l.valOffset) l.val.length)
    (h : handleHeaderLine beyond (pre ++ (l.bytes ++ post)) ar = .ok (mem, status, ar')) :
    ar'.contentLength = l.contentLength (post ++ beyond) ar.contentLength := by
  unfold HeaderLine.contentLength
  rcases handleHeaderLine_by
    (show str HeaderSlot.contentLength.headerName = str "content-length" from rfl)
    hfList_contentLength hname h with ⟨hkey, hf, hmem, hfunc, hcall⟩ | ⟨hkey, rfl | ⟨hf, hfunc, hcall⟩⟩
  · obtain ⟨front, hfront, hsplit⟩ := l.lowered_split pre post
    rw [hfront] at hval
    simp only [HeaderFunc.call, hfunc] at hcall
    rw [hsplit, requestHandleHdContentLength_eq hmem hfunc hval, List.drop_left] at hcall
    have htext : l.val ++ chr '\r' :: chr '\n' :: post ++ beyond =
        l.val ++ (crlf ++ (post ++ beyond)) := by simp [crlf]
    rw [htext] at hcall
    by_cases hpos : 0 < atoi (l.val ++ (crlf ++ (post ++ beyond)))
    · rw [if_pos ((atoi_pos_iff _).1 hpos)] at hcall
      rw [if_pos ⟨hkey, hpos⟩]
      exact (congrArg (fun r : Int × ParseArchive => r.2.contentLength) (Except.ok.inj hcall)).symm
    · rw [if_neg (mt (atoi_pos_iff _).2 hpos)] at hcall
      rw [if_neg fun hc => hpos hc.2]
      exact (congrArg (fun r : Int × ParseArchive => r.2.contentLength) (Except.ok.inj hcall)).symm
  · rw [if_neg fun hc => hkey hc.1]
  · rw [if_neg fun hc => hkey hc.1]
    exact (call_fields hcall).2 hfunc

/-- The lines that are left of `all`, with `rest` behind them in the block, leave the length `n`. -/
def Leaves (beyond : List Byte) (all : List HeaderLine) (rest : List Byte) (n : Int)
    (done : List HeaderLine) (behind : List Byte) (ar : ParseArchive) : Prop :=
  ∀ hs, all = done ++ hs → behind = headerLines hs ++ rest →
    declaredLength hs (rest ++ beyond) ar.contentLength = n

/-- Every line keeps it. -/
theorem keptByLines_leaves (all : List HeaderLine) (rest : List Byte) (n : Int) :
    KeptByLines beyond (Leaves beyond all rest n) where
  bare := by
    intro done behind ar ar' h hbare hs hall hbehind
    have hlength : ar'.bare.contentLength = ar.bare.contentLength := by rw [hbare]
    rw [show ar'.contentLength = ar.contentLength from hlength]
    exact h hs hall hbehind
  line := by
    intro pre post done l ar ar' mem status h hname hval hhandle hs hall hpost
    have hleft := h (l :: hs) (by rw [hall]; simp) (by rw [hpost, headerLines_cons, List.append_assoc])
    rw [declaredLength, ← List.append_assoc, ← hpost] at hleft
    rw [handleHeaderLine_contentLength hname hval hhandle]
    exact hleft

/-! ## The lines of a message -/

/-- **Bytes are header lines and something that does not begin with one.** -/
theorem exists_lines (w : List Byte) : ∃ (hs : List HeaderLine) (tail : List Byte),
    w = headerLines hs ++ tail ∧ ∀ l : HeaderLine, ¬ l.bytes <+: tail := by
  induction hn : w.length using Nat.strong_induction_on generalizing w with
  | _ n ih =>
    by_cases hline : ∃ l : HeaderLine, l.bytes <+: w
    · obtain ⟨l, rest, rfl⟩ := hline
      have hlen := l.bytes_length
      obtain ⟨hs, tail, hrest, hno⟩ := ih rest.length (by rw [← hn, List.length_append]; omega) rest rfl
      exact ⟨l :: hs, tail, by rw [headerLines_cons, hrest, List.append_assoc], hno⟩
    · exact ⟨[], w, rfl, fun l hl => hline ⟨l, hl⟩⟩

/-- The path leads to a file, or to a directory with an `index.html`. -/
def Found (env : Env) (path : List Byte) : Prop :=
  match env.root path with
  | none => False
  | some (.file _) => True
  | some (.dir _ index) => index.isSome

namespace Session

variable {s s₁ s' : WebSession} {status : Int} {pre m post : List Byte}

theorem openResource_found {path : List Byte} (h : Found env path) (s : WebSession) :
    (s.openResource env path).1 = OK := by
  unfold Found at h
  unfold openResource syscall
  cases hroot : env.root path with
  | none =>
    rw [hroot] at h
    exact h.elim
  | some inode =>
    cases inode with
    | file content => rfl
    | dir size index =>
      cases index with
      | none =>
        rw [hroot] at h
        exact Bool.noConfusion h
      | some html => rfl

theorem openResource_not_found {path : List Byte} (h : ¬ Found env path) (s : WebSession) :
    (s.openResource env path).1 = 404 := by
  unfold Found at h
  unfold openResource syscall
  cases hroot : env.root path with
  | none => rfl
  | some inode =>
    rw [hroot] at h
    cases inode with
    | file content => exact absurd trivial h
    | dir size index =>
      cases index with
      | none => rfl
      | some html => exact absurd rfl h

/-- A request line that is accepted: its version is, it has a path, and the path leads to a file. -/
def AcceptsLine (env : Env) (l : RequestLine) : Prop :=
  l.VersionOk ∧ l.HasPath ∧ Found env l.openedPath

theorem acceptsLine_ok {l : RequestLine} {rest : List Byte} (h : s.Reads pre (l.bytes ++ rest) post)
    (hpar : s.handler.par = parseArchiveInit) (hl : AcceptsLine env l) :
    ∃ s₁, s.requestHandleRequestLine env = .ok (OK, s₁) := by
  obtain ⟨hv, hpath, hfound⟩ := hl
  obtain ⟨url, line, -, hspec⟩ := requestHandleRequestLine_spec h hpar
  rw [if_neg (not_not_intro hv), if_pos hpath] at hspec
  refine ⟨((s.lineRead pre line rest post l url).openResource env l.openedPath).2, ?_⟩
  rw [hspec, ← openResource_found hfound (s.lineRead pre line rest post l url)]

/-- A line that is not accepted is answered with an error of the table, if at all. -/
theorem acceptsLine_of_ok {l : RequestLine} {rest : List Byte} (h : s.Reads pre (l.bytes ++ rest) post)
    (hpar : s.handler.par = parseArchiveInit) (hl : ¬ AcceptsLine env l)
    (hok : s.requestHandleRequestLine env = .ok (status, s')) : status = 500 ∨ status = 404 := by
  obtain ⟨url, line, -, hspec⟩ := @requestHandleRequestLine_spec env _ _ _ _ _ h hpar
  rw [hspec] at hok
  by_cases hv : l.VersionOk
  · rw [if_neg (not_not_intro hv)] at hok
    split_ifs at hok with hpath
    right
    rw [← openResource_not_found (fun hfound => hl ⟨hv, hpath, hfound⟩)
      (s.lineRead pre line rest post l url)]
    exact (congrArg Prod.fst (Except.ok.inj hok)).symm
  · rw [if_pos hv] at hok
    exact Or.inl (congrArg Prod.fst (Except.ok.inj hok)).symm

/-! ## What the handlers make of a message -/

/-- What the header lines keep: the decision about the connection, and the length that is left. -/
abbrev Told (beyond : List Byte) (l : RequestLine) (hs : List HeaderLine) (rest : List Byte) :
    List HeaderLine → List Byte → ParseArchive → Prop :=
  fun done behind ar => Decided l.keepAlive done behind ar ∧
    Leaves beyond hs rest (declaredLength hs (rest ++ beyond) (-1)) done behind ar

theorem keptByLines_told (l : RequestLine) (hs : List HeaderLine) (rest : List Byte) :
    KeptByLines beyond (Told beyond l hs rest) :=
  (keptByLines_decided _).and (keptByLines_leaves hs rest _)

section Message

variable {l : RequestLine} {hs : List HeaderLine} {tail : List Byte}

/-- The session the handlers begin with reads the same message. -/
theorem reads_reset (h : s.Reads pre m post) : s.httpRequestHandleReset.touchConn.Reads pre m post :=
  ⟨h.mem, h.start, h.end_⟩

/-- **Behind an accepted line the loop comes to what stands behind the headers.** -/
theorem lines_read (hreads : s.Reads pre (l.bytes ++ (headerLines hs ++ tail)) post)
    (hl : AcceptsLine env l) : ∃ s₁ k t,
      s.httpRequestHandleReset.touchConn.requestHandleRequestLine env = .ok (OK, s₁) ∧
        LoopReaches env k s₁ t ∧ LoopReaches env (k + 1) s.httpRequestHandleReset.touchConn t ∧
          k + 2 < s.handlerFuel ∧ ∃ pos, t.AtTail env (Told env.beyond l hs (tail ++ post)) pos hs tail post := by
  obtain ⟨s₁, hok⟩ := acceptsLine_ok (reads_reset hreads) rfl hl
  obtain ⟨line, -, hat⟩ := atLines_of_ok (reads_reset hreads) rfl hok
  obtain ⟨-, -, url, line', inode, -, hopen⟩ := requestHandleRequestLine_ok (reads_reset hreads) rfl hok
  obtain ⟨url', hpar₁⟩ := hopen.par
  have htold : Told env.beyond l hs (tail ++ post) [] (headerLines hs ++ tail ++ post) s₁.handler.par := by
    rw [hpar₁]
    refine ⟨rfl, fun hs' hall _ => ?_⟩
    rw [List.nil_append] at hall
    rw [← hall]
    rfl
  obtain ⟨k, t, hk, hreach, htail⟩ :=
    lines_reach_tail env (keptByLines_told l hs (tail ++ post)) hs.length le_rfl hat htold
  refine ⟨s₁, k, t, hok, hreach, .call rfl hok ?_ hreach, ?_, _, htail⟩
  · rw [hat.reqHandler]
    exact Option.some_ne_none _
  · have hlong := length_le_headerLines hs
    unfold handlerFuel RingBuffer.readableBytes
    rw [hreads.start, hreads.end_]
    simp only [List.length_append]
    omega

/-- `request_handle_body`, called for the first time. -/
theorem requestHandleBody_eq {msg len : Nat} (hread : s.readMsg = (some msg, len))
    (hcoding : s.handler.par.transferEncoding = .identity) (hzero : s.handler.par.bodyReceived = 0)
    (hle : s.handler.par.contentLength ≤ intMax) :
    ∃ s', s.requestHandleBody =
        .ok (if ((len % 2 ^ 64 : Nat) : Int) < s.handler.par.contentLength then AGAIN else OK, s') ∧
      s'.handler.par.keepAlive = s.handler.par.keepAlive ∧
      (¬ ((len % 2 ^ 64 : Nat) : Int) < s.handler.par.contentLength → s'.handler.reqHandler = none) := by
  have hread' : s.touchHandler.touchConn.readMsg = (some msg, len) := hread
  have hcoding' : s.touchHandler.touchConn.handler.par.transferEncoding = .identity := hcoding
  have hzero' : s.touchHandler.touchConn.handler.par.bodyReceived = 0 := hzero
  have hsame : s.touchHandler.touchConn.handler.par.contentLength = s.handler.par.contentLength := rfl
  unfold requestHandleBody parseHeaderBodyIdentity
  simp only [hread', hcoding', hzero', hsame, Nat.zero_add]
  by_cases hnone : s.handler.par.contentLength ≤ 0
  · rw [if_pos hnone, if_neg (show ¬ OK = AGAIN by decide), if_pos rfl, if_neg (by omega)]
    exact ⟨_, rfl, rfl, fun _ => rfl⟩
  · have hsize : toSizeT s.handler.par.contentLength = s.handler.par.contentLength.toNat :=
      toSizeT_of_le (by omega) hle
    rw [if_neg hnone, hsize]
    by_cases hshort : ((len % 2 ^ 64 : Nat) : Int) < s.handler.par.contentLength
    · have hmore : ¬ len % 2 ^ 64 ≥ s.handler.par.contentLength.toNat := by omega
      rw [if_neg hmore, if_pos hshort, if_pos rfl]
      exact ⟨_, rfl, rfl, fun hno => absurd hshort hno⟩
    · have hall : len % 2 ^ 64 ≥ s.handler.par.contentLength.toNat := by omega
      rw [if_pos hall, if_neg hshort, if_neg (show ¬ OK = AGAIN by decide), if_pos rfl]
      exact ⟨_, rfl, rfl, fun _ => rfl⟩

/-- The body that the headers `hs` declare is longer than all of the message, request line and header
section included, which is what `body_received` counts; `rest` stands behind the headers in memory. -/
def BodyMissing (m : List Byte) (hs : List HeaderLine) (rest : List Byte) : Prop :=
  ((m.length % 2 ^ 64 : Nat) : Int) < declaredLength hs rest (-1)

instance (m : List Byte) (hs : List HeaderLine) (rest : List Byte) : Decidable (BodyMissing m hs rest) :=
  inferInstanceAs (Decidable (_ < _))

/-- Whether a body is missing does not depend on what stands behind a message that has its lengths
inside. -/
theorem bodyMissing_inside {hs : List HeaderLine} {rest : List Byte} (h : LengthsInside hs rest)
    (m x : List Byte) : BodyMissing m hs (rest ++ x) ↔ BodyMissing m hs rest := by
  unfold BodyMissing
  rw [declaredLength_inside h]

/-- **A message whose header section has its end** is answered `OK`, or `AGAIN` if its body is
missing; its headers have decided about the connection. -/
theorem handleRequest_complete {ws : List Byte}
    (hreads : s.Reads pre (l.bytes ++ (headerLines hs ++ tail)) post) (hl : AcceptsLine env l)
    (hws : ∀ c ∈ ws, isBlank c = true) (htail : blankLine ws <+: tail) :
    ∃ s', s.handleRequest env =
        .ok (if BodyMissing (l.bytes ++ (headerLines hs ++ tail)) hs (tail ++ post ++ env.beyond) then AGAIN else OK,
          s') ∧
      s'.handler.par.keepAlive = decision (headerChoice prefixChoice) l.keepAlive hs := by
  obtain ⟨s₁, k, t, hok, hreach, hfirst, hfuel, pos, hat⟩ := lines_read hreads hl
  obtain ⟨t', hblank, hbody, hdecided, hleaves⟩ := hat.blank (keptByLines_told l hs _) hws htail
  have hnext : t'.handler.reqHandler ≠ none := by
    rw [hbody.reqHandler]
    exact Option.some_ne_none _
  obtain ⟨hmsg, hzero, hcoding, hle⟩ := (hreach.snoc hat.reqHandler hblank hnext).behind_line
    (reads_reset hreads) rfl hok
  obtain ⟨s', hcall, hkeep, hnone⟩ := requestHandleBody_eq hmsg hcoding hzero hle
  have hlength : t'.handler.par.contentLength = declaredLength hs (tail ++ post ++ env.beyond) (-1) :=
    hleaves [] (List.append_nil hs).symm rfl
  rw [hlength] at hcall hnone
  refine ⟨s', ?_, hkeep.trans hdecided⟩
  refine handleRequest_last (hfirst.snoc hat.reqHandler hblank hnext) hfuel hbody.reqHandler hcall ?_
  rintro ⟨hmore, hstatus⟩
  by_cases hshort : BodyMissing (l.bytes ++ (headerLines hs ++ tail)) hs (tail ++ post ++ env.beyond)
  · rw [if_pos hshort] at hstatus
    exact absurd hstatus (by decide)
  · exact hmore (hnone hshort)

/-- The first call decides if it does not answer `OK`. -/
theorem handleRequest_first
    (h : s.httpRequestHandleReset.touchConn.requestHandleRequestLine env = .ok (status, s'))
    (hne : status ≠ OK) : s.handleRequest env = .ok (status, s') :=
  handleRequest_last (.refl _) (by unfold handlerFuel; omega) rfl h fun hgo => hne hgo.2

/-- Where the handlers return, their first call has returned; the answer is its own if it is not
`OK`. -/
theorem exists_first (hok : s.handleRequest env = .ok (status, s')) :
    ∃ code u, s.httpRequestHandleReset.touchConn.requestHandleRequestLine env = .ok (code, u) ∧
      (code ≠ OK → status = code ∧ s' = u) := by
  have hloop := hok
  unfold handleRequest handlerFuel handlerLoop at hloop
  obtain ⟨⟨code, u⟩, hcall, -⟩ := Run.bind_eq_ok.1 hloop
  exact ⟨code, u, hcall, fun hne =>
    Prod.mk.inj (Run.ok_unique hok (handleRequest_first hcall hne))⟩

end Message

/-! ## Messages that end too early -/

/-- **The message `m` ends too early**, between the bytes `pre` and `post` of its block: inside its
request line; behind an accepted line, inside a header line; or behind its header section, with
fewer bytes in the whole message than its headers declare for the body alone. -/
inductive Unfinished (env : Env) (pre m post : List Byte) : Prop
  | line {r : Parsed}
      (parsed : parseRequestLine (pre ++ (m ++ post)) pre.length m.length (freshArchive pre.length) =
        .ok r)
      (again : r.code = AGAIN)
  | headers {l hs tail}
      (split : m = l.bytes ++ (headerLines hs ++ tail))
      (accepts : AcceptsLine env l)
      (again : HeaderUnfinished tail)
  | body {l hs ws tail}
      (split : m = l.bytes ++ (headerLines hs ++ tail))
      (accepts : AcceptsLine env l)
      (blank : ∀ c ∈ ws, isBlank c = true)
      (ends : blankLine ws <+: tail)
      (missing : BodyMissing m hs (tail ++ post ++ env.beyond))

/-- **A message that ends too early is answered with `AGAIN`.** -/
theorem Unfinished.again (h : Unfinished env pre m post) (hreads : s.Reads pre m post) :
    ∃ s', s.handleRequest env = .ok (AGAIN, s') := by
  cases h with
  | line parsed again =>
    have hne : ¬ AGAIN = OK := by decide
    obtain ⟨s', hline⟩ := @requestHandleRequestLine_refused env _ _ _ _ (reads_reset hreads) rfl _ parsed
      (by rw [again]; exact hne)
    rw [if_pos again] at hline
    exact ⟨s', handleRequest_first hline hne⟩
  | headers split accepts again =>
    subst split
    obtain ⟨s₁, k, t, -, -, hfirst, hfuel, pos, hat⟩ := lines_read hreads accepts
    obtain ⟨s', hcall⟩ := hat.unfinished again
    exact ⟨s', handleRequest_last hfirst (by omega) hat.reqHandler hcall fun hgo =>
      absurd hgo.2 (show ¬ AGAIN = OK by decide)⟩
  | body split accepts blank ends missing =>
    subst split
    obtain ⟨s', hcall, -⟩ := handleRequest_complete hreads accepts blank ends
    rw [if_pos missing] at hcall
    exact ⟨s', hcall⟩

/-- **The message `m` is complete**, with `post` behind it: an accepted line, the headers `hs`, the
end of the header section, and at least as many bytes in the whole message, from the request line
on, as the headers declare for the body alone. -/
structure Complete (env : Env) (m post : List Byte) (l : RequestLine) (hs : List HeaderLine)
    (ws tail : List Byte) : Prop where
  split : m = l.bytes ++ (headerLines hs ++ tail)
  accepts : AcceptsLine env l
  blank : ∀ c ∈ ws, isBlank c = true
  ends : blankLine ws <+: tail
  body : ¬ BodyMissing m hs (tail ++ post ++ env.beyond)

/-- **A complete message is answered `OK`**, and its headers have decided about the connection. -/
theorem Complete.ok {l : RequestLine} {hs : List HeaderLine} {ws tail : List Byte}
    (h : Complete env m post l hs ws tail) (hreads : s.Reads pre m post) :
    ∃ s', s.handleRequest env = .ok (OK, s') ∧
      s'.handler.par.keepAlive = decision (headerChoice prefixChoice) l.keepAlive hs := by
  obtain ⟨rfl, haccepts, hblank, hends, hbody⟩ := h
  obtain ⟨s', hcall, hkeep⟩ := handleRequest_complete hreads haccepts hblank hends
  rw [if_neg hbody] at hcall
  exact ⟨s', hcall, hkeep⟩

/-- **How a message with an accepted line is answered**, by what stands behind its header lines. -/
theorem handleRequest_accepted {l : RequestLine} {hs : List HeaderLine} {tail : List Byte}
    (hreads : s.Reads pre (l.bytes ++ (headerLines hs ++ tail)) post) (hl : AcceptsLine env l)
    (hno : ∀ l : HeaderLine, ¬ l.bytes <+: tail) :
    (HeaderUnfinished tail ∧ ∃ s', s.handleRequest env = .ok (AGAIN, s')) ∨
      (∃ s', s.handleRequest env = .ok (400, s')) ∨
      ∃ ws, (∀ c ∈ ws, isBlank c = true) ∧ blankLine ws <+: tail := by
  obtain ⟨s₁, k, t, -, -, hfirst, hfuel, pos, hat⟩ := lines_read hreads hl
  rcases hat.cases hno with ⟨hagain, t', hcall⟩ | ⟨t', hcall⟩ | hblank
  · exact Or.inl ⟨hagain, t', handleRequest_last hfirst (by omega) hat.reqHandler hcall fun hgo =>
      absurd hgo.2 (show ¬ AGAIN = OK by decide)⟩
  · exact Or.inr (Or.inl ⟨t', handleRequest_last hfirst (by omega) hat.reqHandler hcall fun hgo =>
      absurd hgo.2 (show ¬ (400 : Int) = OK by decide)⟩)
  · exact Or.inr (Or.inr hblank)

/-- **What is answered with `AGAIN` ends too early**, and what is answered `OK` is a complete
message. -/
theorem handleRequest_cases (hreads : s.Reads pre m post) (h : s.handleRequest env = .ok (status, s')) :
    (status = AGAIN → Unfinished env pre m post) ∧
      (status = OK → ∃ l hs ws tail, Complete env m post l hs ws tail) := by
  obtain ⟨r, hr, -⟩ := parseRequestLine_ok pre m post
  by_cases hcode : r.code = OK
  · obtain ⟨l, rest, rfl⟩ := parseRequestLine_sound pre post hr hcode
    by_cases hl : AcceptsLine env l
    · obtain ⟨hs, tail, rfl, hno⟩ := exists_lines rest
      rcases handleRequest_accepted hreads hl hno with
        ⟨hagain, t', hlast⟩ | ⟨t', hlast⟩ | ⟨ws, hws, htail⟩
      · obtain rfl : status = AGAIN := congrArg Prod.fst (Run.ok_unique h hlast)
        exact ⟨fun _ => .headers rfl hl hagain, fun hok => absurd hok (by decide)⟩
      · obtain rfl : status = 400 := congrArg Prod.fst (Run.ok_unique h hlast)
        exact ⟨fun hagain => absurd hagain (by decide), fun hok => absurd hok (by decide)⟩
      · obtain ⟨t', hlast, -⟩ := handleRequest_complete hreads hl hws htail
        obtain rfl := congrArg Prod.fst (Run.ok_unique h hlast)
        constructor
        · intro hagain
          refine .body rfl hl hws htail (by_contra fun hnot => ?_)
          rw [if_neg hnot] at hagain
          exact absurd (show OK = AGAIN from hagain) (by decide)
        · intro hok
          refine ⟨l, hs, ws, tail, rfl, hl, hws, htail, fun hmissing => ?_⟩
          rw [if_pos hmissing] at hok
          exact absurd (show AGAIN = OK from hok) (by decide)
    · -- the line is refused, with an error of the table
      obtain ⟨code, t, hcall, hdecides⟩ := exists_first h
      have herror := acceptsLine_of_ok (reads_reset hreads) rfl hl hcall
      have hne : code ≠ OK := by
        rcases herror with rfl | rfl <;> decide
      obtain rfl : status = code := (hdecides hne).1
      refine ⟨fun hagain => ?_, fun hok => absurd hok hne⟩
      rcases herror with rfl | rfl <;> exact absurd hagain (by decide)
  · obtain ⟨t, hcall⟩ := @requestHandleRequestLine_refused env _ _ _ _ (reads_reset hreads) rfl _ hr hcode
    have hne : (if r.code = AGAIN then AGAIN else (400 : Int)) ≠ OK := by
      split_ifs <;> decide
    obtain rfl := congrArg Prod.fst (Run.ok_unique h (handleRequest_first hcall hne))
    refine ⟨fun hagain => ?_, fun hok => absurd hok hne⟩
    simp only at hagain
    split_ifs at hagain with hparsed
    · exact .line hr hparsed
    · exact absurd hagain (by decide)

/-- **The handlers ask for more exactly on a message that ends too early.** -/
theorem handleRequest_again_iff (hreads : s.Reads pre m post)
    (h : s.handleRequest env = .ok (status, s')) : status = AGAIN ↔ Unfinished env pre m post := by
  refine ⟨(handleRequest_cases hreads h).1, fun hu => ?_⟩
  obtain ⟨t, ht⟩ := hu.again hreads
  exact congrArg Prod.fst (Run.ok_unique h ht)

/-- A complete message whose last `Connection` header to say something, or whose version, asks for
the connection to be kept. -/
def AsksToStay (env : Env) (m post : List Byte) : Prop :=
  ∃ l hs ws tail, Complete env m post l hs ws tail ∧
    decision (headerChoice prefixChoice) l.keepAlive hs = true

/-- **The connection is kept exactly for such a message.** -/
theorem persists_iff (hreads : s.Reads pre m post) :
    (∃ s₁, s.Persists env s₁) ↔ AsksToStay env m post := by
  constructor
  · rintro ⟨s₁, hok, hkeep⟩
    obtain ⟨l, hs, ws, tail, hcomplete⟩ := (handleRequest_cases hreads hok).2 rfl
    obtain ⟨t, ht, hdecided⟩ := hcomplete.ok hreads
    obtain rfl : s₁ = t := congrArg Prod.snd (Run.ok_unique hok ht)
    exact ⟨l, hs, ws, tail, hcomplete, hdecided.symm.trans hkeep⟩
  · rintro ⟨l, hs, ws, tail, hcomplete, hstay⟩
    obtain ⟨t, ht, hdecided⟩ := hcomplete.ok hreads
    exact ⟨t, ht, hdecided.trans hstay⟩

end Session

end MWebServer
