import MWebServer.Web.Handled
import MWebServer.Web.HeaderSection

/-!
# Counting the body (`request_handle_body`)

`request_handle_body` is handed all that is readable, and the read buffer gives
nothing back before the whole request is done: the readable bytes are the request
line, the header section and the body.  `parse_header_body_identity` counts them all
as body.

* `requestHandleBody_count` — the body is done as soon as the whole message is as long
  as the body should be.
* `bodyComplete_iff` — this is right unless the line and the headers make up for what
  is missing of the body.
-/

namespace MWebServer

variable {env : Env}

/-- From the headers on, the calls of the handlers move neither end of the read buffer, and
count no body. -/
theorem LoopReaches.readsOn {k : Nat} {s s' : WebSession} (h : LoopReaches env k s s')
    (hreq : s.handler.reqHandler = some .headers ∨ s.handler.reqHandler = some .body) :
    s.Handled s' ∧ ReadsOn s.handler.par s'.handler.par := by
  induction h with
  | refl s => exact ⟨.refl s, .refl _⟩
  | @call k s t u hd handler ok next rest ih =>
    have hhandled := Session.callHandler_handled ok
    rcases hreq with hreq | hreq
    · obtain rfl : hd = .headers := Option.some.inj (handler.symm.trans hreq)
      obtain ⟨mem, ar, req, -, hread, rfl, hnext⟩ := Session.requestHandleHeaders_frame ok
      have hgo : req = some .headers ∨ req = some .body := by
        rw [← hreq]
        exact hnext (by rw [hreq]; simp)
      obtain ⟨hhandled', hread'⟩ := ih hgo
      exact ⟨hhandled.trans hhandled', hread.trans hread'⟩
    · -- the handler of the body ends the loop
      obtain rfl : hd = .body := Option.some.inj (handler.symm.trans hreq)
      obtain ⟨ar, req, -, rfl, hnone⟩ := Session.requestHandleBody_frame ok
      exact absurd (hnone rfl) next

/-- What the handler of the body finds, behind an accepted request line. -/
theorem LoopReaches.behind_line {n : Nat} {s s₁ t : WebSession} {l : RequestLine}
    {pre rest post : List Byte} (hreach : LoopReaches env n s₁ t)
    (hreads : s.Reads pre (l.bytes ++ rest) post) (hpar : s.handler.par = parseArchiveInit)
    (hok : s.requestHandleRequestLine env = .ok (OK, s₁)) :
    t.readMsg = (some pre.length, (l.bytes ++ rest).length) ∧ t.handler.par.bodyReceived = 0 ∧
      t.handler.par.transferEncoding = .identity ∧ t.handler.par.contentLength ≤ intMax := by
  obtain ⟨-, -, url, line', inode, -, hopen⟩ := Session.requestHandleRequestLine_ok hreads hpar hok
  obtain ⟨hhandled, hon⟩ := hreach.readsOn (Or.inl hopen.reqHandler)
  obtain ⟨url', hpar₁⟩ := hopen.par
  obtain ⟨mem, -, hconn⟩ := hhandled.conn
  have hconn₁ : s₁.conn.ringBufferRead.start = pre.length ∧ s₁.conn.ringBufferRead.end_ =
      pre.length + (l.bytes ++ rest).length := by
    rw [hopen.conn]
    exact ⟨hreads.start, hreads.end_⟩
  refine ⟨?_, ?_, ?_, ?_⟩
  · have hlen : 0 < (l.bytes ++ rest).length := by
      rw [List.length_append, l.bytes_length]
      omega
    unfold Session.readMsg RingBuffer.getMsg
    rw [hconn]
    simp only [hconn₁.1, hconn₁.2]
    rw [if_neg (by omega)]
    simp only [Option.map_some, Int.toNat_natCast, Prod.mk.injEq, true_and]
    omega
  · rw [hon.bodyReceived, hpar₁]
    rfl
  · rw [hon.transferEncoding, hpar₁]
    rfl
  · rcases hon.contentLength with hsame | ⟨-, hle⟩
    · have hunset : s₁.handler.par.contentLength = -1 := by
        rw [hpar₁]
        rfl
      rw [hsame, hunset]
      decide
    · exact hle

namespace Session

/-- `request_handle_body` finishes the request. -/
def BodyDone (s : WebSession) : Prop :=
  ∃ s', s.requestHandleBody = .ok (OK, s') ∧ s'.handler.reqHandler = none

/-- `request_handle_body` asks for more bytes. -/
def BodyAgain (s : WebSession) : Prop := ∃ s', s.requestHandleBody = .ok (AGAIN, s')

theorem BodyAgain.not_done {s : WebSession} (h : s.BodyAgain) : ¬ s.BodyDone := by
  rintro ⟨s', hdone, -⟩
  obtain ⟨t, hagain⟩ := h
  have hcode : OK = AGAIN := congrArg Prod.fst (Run.ok_unique hdone hagain)
  exact absurd hcode (by decide)

/-- **The handler of the body counts all that is readable.** -/
theorem requestHandleBody_count {s : WebSession} {msg len N : Nat}
    (hread : s.readMsg = (some msg, len)) (hcoding : s.handler.par.transferEncoding = .identity)
    (hzero : s.handler.par.bodyReceived = 0) (hN : s.handler.par.contentLength = N) (hpos : 0 < N)
    (hle : (N : Int) ≤ intMax) (hlen : (len : Int) ≤ intMax) :
    (N ≤ len → s.BodyDone) ∧ (len < N → s.BodyAgain) := by
  have hread' : s.touchHandler.touchConn.readMsg = (some msg, len) := hread
  have hcoding' : s.touchHandler.touchConn.handler.par.transferEncoding = .identity := hcoding
  have hmod : (s.touchHandler.touchConn.handler.par.bodyReceived + len) % 2 ^ 64 = len := by
    unfold intMax at hlen
    show (s.handler.par.bodyReceived + len) % 2 ^ 64 = len
    rw [hzero, Nat.zero_add]
    exact Nat.mod_eq_of_lt (by omega)
  have hsize : toSizeT s.touchHandler.touchConn.handler.par.contentLength = N := by
    show toSizeT s.handler.par.contentLength = N
    rw [hN, toSizeT_of_le (Int.natCast_nonneg N) hle, Int.toNat_natCast]
  have hnot : ¬ s.touchHandler.touchConn.handler.par.contentLength ≤ 0 := by
    show ¬ s.handler.par.contentLength ≤ 0
    omega
  unfold BodyDone BodyAgain requestHandleBody parseHeaderBodyIdentity
  simp only [hread', hcoding', if_neg hnot, hmod, hsize]
  constructor
  · intro hge
    rw [if_pos hge, if_neg (show ¬ OK = AGAIN by decide), if_pos rfl]
    exact ⟨_, rfl, rfl⟩
  · intro hlt
    rw [if_neg (Nat.not_le_of_lt hlt), if_pos rfl]
    exact ⟨_, rfl⟩

/-- **The body is decided rightly unless the line and the headers make up for what is missing of
it.**  `s` has received the request line `l`, the header section of `hs` and the bytes `body`, and `s₂`
is any session the handlers reach behind the line, so also the one in which the body is next.  The
length of what is readable is an `int`. -/
theorem bodyComplete_iff (env : Env) (s s₁ s₂ : WebSession) (l : RequestLine)
    (hs : List HeaderLine) (body : List Byte) (n N : Nat) (hinv : s.conn.ringBufferRead.Inv)
    (hread : s.conn.ringBufferRead.content = l.bytes ++ (headerSection hs ++ body))
    (hint : s.conn.ringBufferRead.readableBytes ≤ intMax) (hpar : s.handler.par = parseArchiveInit)
    (hok : s.requestHandleRequestLine env = .ok (OK, s₁)) (hreach : LoopReaches env n s₁ s₂)
    (hN : s₂.handler.par.contentLength = N) (hpos : 0 < N) :
    ((s₂.BodyDone ↔ N ≤ body.length) ∧ (¬ N ≤ body.length → s₂.BodyAgain)) ↔
      N ≤ body.length ∨ (l.bytes ++ headerSection hs).length + body.length < N := by
  obtain ⟨pre, post, hreads⟩ := exists_reads hinv
  have hsize : (s.conn.ringBufferRead.content.length : Int) ≤ intMax := by
    rw [RingBuffer.length_content hinv]
    exact hint
  rw [hread] at hreads hsize
  -- what the handler of the body is handed
  obtain ⟨hreads₂, hzero, hcoding, hle⟩ := hreach.behind_line hreads hpar hok
  rw [hN] at hle
  obtain ⟨hdone, hagain⟩ := requestHandleBody_count hreads₂ hcoding hzero hN hpos hle hsize
  have htotal : (l.bytes ++ (headerSection hs ++ body)).length =
      (l.bytes ++ headerSection hs).length + body.length := by
    simp only [List.length_append]
    omega
  rw [htotal] at hdone hagain
  by_cases hall : N ≤ (l.bytes ++ headerSection hs).length + body.length
  · -- the body is taken to be complete
    constructor
    · rintro ⟨hiff, -⟩
      exact Or.inl (hiff.1 (hdone hall))
    · rintro (hfull | hshort)
      · exact ⟨⟨fun _ => hfull, fun _ => hdone hall⟩, fun hmissing => absurd hfull hmissing⟩
      · exact absurd hall (Nat.not_le_of_lt hshort)
  · have hmore := hagain (Nat.lt_of_not_le hall)
    refine iff_of_true ⟨iff_of_false hmore.not_done ?_, fun _ => hmore⟩
      (Or.inr (Nat.lt_of_not_le hall))
    omega

/-- A request with five bytes of body declared, of which `body` has been received. -/
def declaresFive (body : List Byte) : WebSession :=
  received (str "GET / HTTP/1.1\r\nContent-Length: 5\r\n\r\n" ++ body)

end Session

/-- `Content-Length: 5` -/
def HeaderLine.contentLengthFive : HeaderLine where
  lead := []
  name := str "Content-Length"
  gap := str " "
  val := str "5"
  lead_blank := blank_nil
  name_ne := by decide
  name_chars := by decide +kernel
  gap_blank := blank_space
  val_chars := by decide +kernel
  val_head := ⟨chr '5', rfl, by decide⟩

namespace Session

/-- The calls of the three handlers on a message: what the first two answer, the length that is
declared then, and how the third ends. -/
def threeCalls (s : WebSession) : Except Fault ((Int × Int × Int) × Int × Option ReqHandler) := do
  let (status, s₁) ← s.requestHandleRequestLine .oneFile
  let (status', s₂) ← s₁.requestHandleHeaders .oneFile
  let (status'', s₃) ← s₂.requestHandleBody
  pure ((status, status', s₂.handler.par.contentLength), status'', s₃.handler.reqHandler)

theorem declaresFive_content (body : List Byte) :
    (declaresFive body).conn.ringBufferRead.content =
      RequestLine.getRoot.bytes ++ (headerSection [.contentLengthFive] ++ body) := by
  have hhead : str "GET / HTTP/1.1\r\nContent-Length: 5\r\n\r\n" =
      RequestLine.getRoot.bytes ++ headerSection [.contentLengthFive] := by
    decide +kernel
  rw [declaresFive, received_content, hhead, List.append_assoc]

/-- From the answers of the three calls to the sessions they lead to. -/
theorem declaresFive_done (body : List Byte)
    (h : (declaresFive body).threeCalls = .ok ((OK, OK, 5), OK, none)) :
    ∃ s₁ s₂, (declaresFive body).requestHandleRequestLine .oneFile = .ok (OK, s₁) ∧
      LoopReaches .oneFile 1 s₁ s₂ ∧ s₂.handler.par.contentLength = (5 : Nat) ∧ s₂.BodyDone := by
  unfold threeCalls at h
  obtain ⟨⟨status, s₁⟩, h1, h⟩ := Run.bind_eq_ok.1 h
  obtain ⟨⟨status', s₂⟩, h2, h⟩ := Run.bind_eq_ok.1 h
  obtain ⟨⟨status'', s₃⟩, h3, h⟩ := Run.bind_eq_ok.1 h
  obtain ⟨hfirst, hlast⟩ := Prod.mk.inj (Except.ok.inj h)
  obtain ⟨rfl, hrest⟩ := Prod.mk.inj hfirst
  obtain ⟨rfl, hlength⟩ := Prod.mk.inj hrest
  obtain ⟨rfl, hnone⟩ := Prod.mk.inj hlast
  obtain ⟨pre, post, hreads⟩ := exists_reads (received_inv (str _ ++ body))
  obtain ⟨line, -, hat⟩ := atHeader_of_ok
    (show (declaresFive body).Reads pre _ post from declaresFive_content body ▸ hreads) rfl h1
  have hnext : s₂.handler.reqHandler ≠ none := by
    obtain ⟨mem, ar, req, -, -, rfl, hnext⟩ := requestHandleHeaders_frame h2
    show req ≠ none
    rcases hnext (by rw [hat.reqHandler]; exact Option.some_ne_none _) with hreq | hreq
    · rw [hreq, hat.reqHandler]
      exact Option.some_ne_none _
    · rw [hreq]
      exact Option.some_ne_none _
  exact ⟨s₁, s₂, h1, .call hat.reqHandler h2 hnext (.refl s₂), hlength, s₃, h3, hnone⟩

/-- All of the body is there. -/
theorem bodyComplete_five : ∃ s₂ : WebSession, s₂.handler.par.contentLength = (5 : Nat) ∧
    ((s₂.BodyDone ↔ 5 ≤ (str "hello").length) ∧ (¬ 5 ≤ (str "hello").length → s₂.BodyAgain)) := by
  obtain ⟨s₁, s₂, hok, hreach, hN, -⟩ := declaresFive_done (str "hello") (by decide +kernel)
  exact ⟨s₂, hN, (bodyComplete_iff .oneFile _ s₁ s₂ .getRoot [.contentLengthFive] (str "hello") 1 5
    (received_inv _) (declaresFive_content _) (by decide +kernel) rfl hok hreach hN (by decide)).2
    (Or.inl (by decide))⟩

/-- **Nothing of the body is there**, and the header section is taken for it. -/
theorem not_bodyComplete : ¬ ∀ (env : Env) (s s₁ s₂ : WebSession) (l : RequestLine)
    (hs : List HeaderLine) (body : List Byte) (n N : Nat), s.conn.ringBufferRead.Inv →
      s.conn.ringBufferRead.content = l.bytes ++ (headerSection hs ++ body) →
        s.conn.ringBufferRead.readableBytes ≤ intMax → s.handler.par = parseArchiveInit →
          s.requestHandleRequestLine env = .ok (OK, s₁) → LoopReaches env n s₁ s₂ →
            s₂.handler.par.contentLength = N → 0 < N →
              (s₂.BodyDone ↔ N ≤ body.length) ∧ (¬ N ≤ body.length → s₂.BodyAgain) := by
  intro h
  obtain ⟨s₁, s₂, hok, hreach, hN, hdone⟩ := declaresFive_done [] (by decide +kernel)
  obtain ⟨hiff, -⟩ := h .oneFile _ s₁ s₂ .getRoot [.contentLengthFive] [] 1 5 (received_inv _)
    (declaresFive_content []) (by decide +kernel) rfl hok hreach hN (by decide)
  exact absurd (hiff.1 hdone) (by decide)

end Session

end MWebServer
