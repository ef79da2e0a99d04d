import MWebServer.Web.ContentType
import MWebServer.Web.FileSize
import MWebServer.Web.HeadRoundTrip
import MWebServer.Web.Unfinished

/-!
# The answer to one request

What a server of files is for: a request names a file, and the answer is a head that tells
its length, and the file.

* `Ask`, `Reply` — a request, and what it should be answered, as functions of the request
  alone.
* `handleRequest_opened` — the handlers open the file that the request names.
* `httpRequest_answers` — so a request that has arrived whole, at a connection with nothing
  else to send, is answered like this, if the socket takes what it is offered.
-/

namespace MWebServer

open LastChoice

/-! ## Requests and replies -/

/-- A request, and what the kernel answers while it is handled. -/
structure Ask where
  env : Env
  line : RequestLine
  headers : List HeaderLine
  /-- The blanks of the line that ends the headers. -/
  blanks : List Byte
  /-- This line, and the body. -/
  tail : List Byte
  /-- What is ready when it arrives. -/
  mask : EpollMask

/-- A response. -/
structure Reply where
  /-- The status line, without its end. -/
  status : List Byte
  headers : List (List Byte × List Byte)
  content : List Byte
  deriving DecidableEq

/-- The head of a response: the status line, the headers and an empty line. -/
def Reply.head (r : Reply) : List Byte :=
  r.status ++ (crlf ++ (r.headers.flatMap headerBytes ++ crlf))

def Reply.bytes (r : Reply) : List Byte := r.head ++ r.content

namespace Ask

/-- What is sent. -/
def bytes (a : Ask) : List Byte := a.line.bytes ++ (headerLines a.headers ++ a.tail)

/-- The request asks for the connection to be kept. -/
def stays (a : Ask) : Bool := decision (headerChoice prefixChoice) a.line.keepAlive a.headers

/-- The file it names. -/
def content (a : Ask) : List Byte :=
  match a.env.target a.line.openedPath with
  | some (.file content) => content
  | _ => []

/-- What it is answered on a connection made at `time`. -/
def reply (time : Int) (a : Ask) : Reply where
  status := (if decimal a.line.major = 1 then str "HTTP/1.1 " else str "HTTP/1.0 ") ++ str "200 OK"
  headers :=
    [(str "Date", a.env.date a.env.now ++ str " GMT"), (str "Server", str "mwebser/0.1"),
      (str "Content-Type", str "text/html"),
      (str "Content-Length", str (toString (a.content.length : Int))),
      (str "Connection",
        if a.env.now - time > a.env.connectTimeLimit then str "close"
        else if a.stays then str "keep-alive"
        else str "close")] ++
      if a.stays then
        [(str "Keep-Alive",
          str "timeout=" ++ (str (toString a.env.timeoutKeepAlive) ++ str ", max=1"))]
      else []
  content := a.content

/-- The request is complete, whatever stands behind it in memory; it names a file whose length is an
`int`, and the socket has room for the answer. -/
structure Served (time : Int) (a : Ask) : Prop where
  complete : ∀ post, Session.Complete a.env a.bytes post a.line a.headers a.blanks a.tail
  file : a.env.target a.line.openedPath = some (.file a.content)
  size : (a.content.length : Int) ≤ intMax
  heard : a.mask.epollIn = true
  calm : a.mask.epollHup = false ∧ a.mask.epollErr = false
  send : ∀ n, ∃ room, a.env.send n = some room ∧ (a.reply time).head.length ≤ room
  sendfile : ∀ n, ∃ room, a.env.sendfile n = some room ∧ a.content.length ≤ room

theorem bytes_ne_nil (a : Ask) : a.bytes ≠ [] := by
  have := a.line.bytes_length
  intro hnil
  have hzero := congrArg List.length hnil
  simp only [bytes, List.length_append, List.length_nil] at hzero
  omega

end Ask

namespace Session

variable {s s' : WebSession} {status : Int} {post : List Byte}

/-! ## The file that is opened -/

/-- The file of the request is open, and its version is recorded. -/
structure Asked (a : Ask) (s : WebSession) : Prop where
  file : s.kernel.fileContent s.handler.resourceFd = some a.content
  version : s.handler.par.version.httpMajor = decimal a.line.major

/-- **The handlers open the file that the request names.** -/
theorem handleRequest_asked {a : Ask} (hreads : s.Reads [] a.bytes post)
    (hfile : a.env.target a.line.openedPath = some (.file a.content))
    (hl : AcceptsLine a.env a.line) (hok : s.handleRequest a.env = .ok (status, s')) : s'.Asked a := by
  obtain ⟨url, -, hsettled⟩ := handleRequest_settled [] a.line (headerLines a.headers ++ a.tail)
  obtain ⟨inode, htarget, h⟩ := hsettled hl hreads hok
  obtain rfl := Option.some.inj (htarget.symm.trans hfile)
  refine ⟨?_, congrArg HttpVersion.httpMajor h.line.version⟩
  unfold Kernel.fileContent
  rw [h.file]

/-! ## The answer -/

section Served

variable {time : Int} {a : Ask} {tail : List Byte} {s₁ : WebSession}

/-- **A request that has arrived whole is accepted**, and has decided about the connection. -/
theorem handleRequest_served_ask (hs : s.Receives time a.bytes tail) (ha : a.Served time) :
    ∃ s₁ left, s.handleRequest a.env = .ok (OK, s₁) ∧ s₁.handler.par.keepAlive = a.stays ∧
      s₁.releaseRead s.conn.ringBufferRead.readableBytes =
        .ok (s₁.setRead (held [] (zeros a.bytes.length ++ left))) := by
  obtain ⟨s₁, hok, hkeep⟩ := (ha.complete tail).ok (reads_held hs.read)
  obtain ⟨rb, hrelease, -⟩ := handleRequest_releases hs.inv hs.alive hok
  obtain ⟨left, hleft⟩ := releaseRead_handled hs.alive hs.read hok hrelease
  exact ⟨s₁, left, hok, hkeep, hleft ▸ hrelease⟩

/-- What is left of the request. -/
theorem asked_served (hs : s.Receives time a.bytes tail) (ha : a.Served time)
    (hok : s.handleRequest a.env = .ok (OK, s₁)) : s₁.Asked a :=
  handleRequest_asked (reads_held hs.read) ha.file (ha.complete tail).accepts hok

/-- The size is the length of the file. -/
theorem resourceSize_served (hs : s.Receives time a.bytes tail) (ha : a.Served time)
    (hok : s.handleRequest a.env = .ok (OK, s₁)) : s₁.handler.resourceSize = a.content.length :=
  (handleRequest_resourceSize hs.inv hs.alive hok (asked_served hs ha hok).file).trans
    ((toInt_eq_iff _).2 ha.size)

/-- **The headers are those of the reply.** -/
theorem writtenHeaders_reply (hs : s.Receives time a.bytes tail) (ha : a.Served time)
    (hok : s.handleRequest a.env = .ok (OK, s₁)) (hkeep : s₁.handler.par.keepAlive = a.stays)
    (left : List Byte) :
    writtenHeaders a.env (s₁.setRead (held [] (zeros a.bytes.length ++ left))) =
      (a.reply time).headers := by
  have hmime := within_of_ok (reads_held hs.read) hok
  have htype : contentType (zeros a.bytes.length ++ left) s₁.handler = str "text/html" := by
    rw [contentType_zeros hmime]
    exact contentType_of_known (extensionKnown_of_ok hs.inv hok) hmime
  have hconnection : connectionValue a.env s₁.handler s₁.conn =
      if a.env.now - time > a.env.connectTimeLimit then str "close"
      else if a.stays then str "keep-alive"
      else str "close" := by
    obtain ⟨mem, -, hconn⟩ := (handleRequest_read hs.alive hok).conn
    have htime : s₁.conn.timeOnConnect = time := by
      rw [hconn]
      exact hs.timeOnConnect
    unfold connectionValue
    rw [htime, hkeep]
  unfold writtenHeaders Ask.reply
  show (_ :: _ :: (str "Content-Type", contentType (zeros a.bytes.length ++ left) s₁.handler) ::
    (str "Content-Length", str (toString s₁.handler.resourceSize)) ::
    [(str "Connection", connectionValue a.env s₁.handler s₁.conn)]) ++
      (if s₁.handler.par.keepAlive then _ else _) = _
  rw [htype, resourceSize_served hs ha hok, hconnection, hkeep]

/-- **The head is the one of the reply.** -/
theorem headLines_reply (hs : s.Receives time a.bytes tail) (ha : a.Served time)
    (hok : s.handleRequest a.env = .ok (OK, s₁)) (hkeep : s₁.handler.par.keepAlive = a.stays)
    (left : List Byte) :
    ∃ lines, (s₁.setRead (held [] (zeros a.bytes.length ++ left))).headLines a.env = .ok lines ∧
      lines.flatten = (a.reply time).head := by
  have hasked := asked_served hs ha hok
  have hsize : 0 ≤ s₁.handler.resourceSize := by
    rw [resourceSize_served hs ha hok]
    exact Int.natCast_nonneg _
  obtain ⟨lines, hlines, hflat⟩ := headLines_written
    (s := s₁.setRead (held [] (zeros a.bytes.length ++ left))) a.env
    (handleRequest_read hs.alive hok).statusCode hsize
  have hstatus : okLine s₁.handler = (a.reply time).status := by
    unfold okLine Ask.reply
    simp only [hasked.version]
  refine ⟨lines, hlines, ?_⟩
  rw [hflat, writtenHeaders_reply hs ha hok hkeep left]
  show okLine s₁.handler ++ _ = _
  rw [hstatus]
  rfl

/-- `sendfile` takes all of the file. -/
theorem fileSent_all (ha : a.Served time) (hasked : s.Asked a)
    (hsize : s.handler.resourceSize = a.content.length) (n : Nat) :
    s.fileSent a.env n = a.content := by
  obtain ⟨room, hroom, hle⟩ := ha.sendfile n
  have hcount : toSizeT s.handler.resourceSize = a.content.length := by
    rw [hsize, toSizeT_of_le (Int.natCast_nonneg _) ha.size, Int.toNat_natCast]
  unfold fileSent resource
  rw [hasked.file, hcount, Option.getD_some, List.take_length, hroom, Kernel.accepted_all hle]

/-- **The answer to one request**: the reply is on the socket and nothing waits; the connection is
kept if the request asks for it, and freed if not. -/
theorem httpRequest_answers (hs : s.Receives time a.bytes tail) (ha : a.Served time) :
    ∃ s', s.httpRequest a.env = .ok s' ∧ s'.pending = [] ∧
      s'.kernel.sent = s.kernel.sent ++ (a.reply time).bytes ∧
      if a.stays then s'.life = s.life ∧ s'.conn.state = s.conn.state ∧ s'.ev = s.ev
      else s.Freed s' := by
  obtain ⟨s₁, left, hok, hkeep, hrelease⟩ := handleRequest_served_ask hs ha
  obtain ⟨lines, hlines, hflat⟩ := headLines_reply hs ha hok hkeep left
  obtain ⟨s', hserved⟩ := httpRequest_serves hs hok
  have hasked := asked_served hs ha hok
  have hsize := resourceSize_served hs ha hok
  have hhead : s.Head a.env s₁ (a.reply time).head := ⟨_, lines, hrelease, hlines, hflat.symm⟩
  have htakes : s.TakesHead a.env (a.reply time).head := by
    obtain ⟨room, hroom, hle⟩ := ha.send s.kernel.sends
    exact ⟨room, hroom, by rwa [hs.empty.pending, List.nil_append]⟩
  have hstream : s'.stream = s.stream ++ (a.reply time).bytes := by
    obtain ⟨head, hhead', hstream⟩ := httpRequest_stream hs.write hs.inv hs.alive hok hserved
    rw [hhead'.unique hhead, fileSent_all ha hasked hsize] at hstream
    exact (hstream.resolve_right fun h => h.1 htakes).2
  have hsent : s'.pending = [] → s'.kernel.sent = s.kernel.sent ++ (a.reply time).bytes := by
    intro hempty
    unfold stream at hstream
    rwa [hempty, hs.empty.pending, List.append_nil, List.append_nil] at hstream
  obtain ⟨-, -, -, hout⟩ := httpRequest_outcome hs.write hs.alive hserved
  refine ⟨s', hserved, ?_⟩
  cases hout with
  | freed closes touched empty freed =>
    obtain ⟨v, -, -, hv, hshort, -⟩ := closes
    obtain rfl : s₁ = v := congrArg Prod.snd (Run.ok_unique hok hv)
    rw [hkeep] at hshort
    rw [if_neg (by rw [hshort]; decide)]
    exact ⟨empty, hsent empty, freed⟩
  | closing not_closes short =>
    cases hstays : a.stays with
    | true => exact absurd ⟨hok, hkeep.trans hstays⟩ (short s₁)
    | false =>
      -- there is room in the write buffer
      have hrel := handleRequest_released hs.write hs.alive hok hrelease
      obtain ⟨t, happend⟩ := appendAll_returns a.env lines hrel.write (by
        show s₁.conn.ringBufferWrite.start = 0
        rw [(handleRequest_read hs.alive hok).write]
        exact hs.empty.1) hrel.alive
      rw [← hflat] at htakes
      exact absurd ⟨s₁, _, lines, hok, hkeep.trans hstays, hrelease, hlines, ⟨t, happend⟩,
        (hrel.takesHead_iff _).2 htakes⟩ not_closes
  | @kept u head tail not_closes persists head_eq stream file hlife touched state sent =>
    obtain rfl : s₁ = u := congrArg Prod.snd (Run.ok_unique hok persists.1)
    rw [hhead.unique head_eq] at htakes
    obtain ⟨-, hempty, hev⟩ := sent.resolve_right fun h => h.1 htakes
    rw [if_pos (hkeep ▸ persists.2)]
    exact ⟨hempty, hsent hempty, hlife, state, hev⟩

end Served

end Session

end MWebServer
