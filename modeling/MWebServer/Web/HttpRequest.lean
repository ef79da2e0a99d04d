import MWebServer.Web.HttpResponse

/-!
# Handling a request (`web/http_request.c`)

`http_request` runs the handler of the request's stage until there is none left or
one does not answer `OK`, gives all readable bytes back to the read buffer, and then
responds: with the head and the file, or with an error head and `error.html`.

The loops of the source are bounded by a counter here (`handlerLoop`, `headerLoop`);
a loop that runs out of it ends in `Fault.noFuel`.
-/

namespace MWebServer

/-! ## Numbers in headers -/

/-- `isspace` in the C locale. -/
def isSpace (c : Byte) : Bool :=
  c == chr ' ' || (chr '\t' ≤ c && c ≤ chr '\r')

/-- The digits at the beginning of a string, as a number. -/
def leadingNat : Nat → List Byte → Nat
  | acc, [] => acc
  | acc, c :: cs => if isDigit c then leadingNat (acc * 10 + (c.toNat - 48)) cs else acc

/-- `strtol(s, NULL, 10)`, which stops at the largest and smallest `long`; `s` is all that lies in
memory from the pointer on, as far as anything is read. -/
def strtol (s : List Byte) : Int :=
  match s.dropWhile isSpace with
  | [] => 0
  | c :: cs =>
      if c = chr '-' then max (-(leadingNat 0 cs : Int)) (-2 ^ 63)
      else if c = chr '+' then min (leadingNat 0 cs : Int) (2 ^ 63 - 1)
      else min (leadingNat 0 (c :: cs) : Int) (2 ^ 63 - 1)

/-- `atoi` -/
def atoi (s : List Byte) : Int := toInt (strtol s)

/-! ## Handlers of single headers -/

/-- The functions of `hf_list`. -/
inductive HeaderHandleMethod where
  | base | connection | contentLength | transferEncoding
  deriving DecidableEq, Repr

/-- `header_func`; its `offset` is the slot. -/
structure HeaderFunc where
  hd : String
  func : HeaderHandleMethod
  offset : HeaderSlot
  deriving DecidableEq, Repr

/-- `hf_list` -/
def hfList : List HeaderFunc :=
  [⟨"accept", .base, .accept⟩, ⟨"accept-charset", .base, .acceptCharset⟩,
    ⟨"accept-encoding", .base, .acceptEncoding⟩, ⟨"accept-language", .base, .acceptLanguage⟩,
    ⟨"cache-control", .base, .cacheControl⟩, ⟨"content-length", .contentLength, .contentLength⟩,
    ⟨"connection", .connection, .connection⟩, ⟨"cookie", .base, .cookie⟩, ⟨"date", .base, .date⟩,
    ⟨"host", .base, .host⟩, ⟨"if-modified-since", .base, .ifModifiedSince⟩,
    ⟨"if-unmodified-since", .base, .ifUnmodifiedSince⟩, ⟨"max-forwards", .base, .maxForwards⟩,
    ⟨"range", .base, .range⟩, ⟨"referer", .base, .referer⟩,
    ⟨"transfer-encoding", .transferEncoding, .transferEncoding⟩,
    ⟨"user-agent", .base, .userAgent⟩]

/-- `header_handler_dict`, as `header_handler_dict_init` fills it. -/
def headerHandlerDict : Dict HeaderFunc :=
  Dict.build [] (hfList.map fun hf => (.ofLit hf.hd, some hf))

/-- `request_handle_hd_base` -/
def requestHandleHdBase (hf : HeaderFunc) (ar : ParseArchive) : ParseArchive :=
  { ar with reqHeaders := Function.update ar.reqHeaders hf.offset ar.headerVal }

/-- `request_handle_hd_connection` -/
def requestHandleHdConnection (mem : Mem) (hf : HeaderFunc) (ar : ParseArchive) :
    Except Fault (Int × ParseArchive) := do
  let ar := requestHandleHdBase hf ar
  let connection := ar.reqHeaders .connection
  let keepAlive ← connection.caseequal mem (str "keep-alive")
  let close ← if keepAlive then pure false else connection.caseequal mem (str "close")
  pure (if keepAlive then (OK, { ar with keepAlive := true })
    else if close then (OK, { ar with keepAlive := false }) else (400, ar))

/-- `request_handle_hd_content_length`.  Nothing ends the value for `atoi`, not even the end of the
block `mem`: it reads on in what lies `beyond` the block. -/
def requestHandleHdContentLength (beyond : List Byte) (mem : Mem) (hf : HeaderFunc) (ar : ParseArchive) :
    Except Fault (Int × ParseArchive) := do
  let ar := requestHandleHdBase hf ar
  let digits ← (ar.reqHeaders .contentLength).str.tail mem
  let len := atoi (digits ++ beyond)
  pure (if len ≤ 0 then (400, ar) else (OK, { ar with contentLength := len }))

/-- `ssstr_caseequal` with one word after another, up to the first that is equal. -/
def caseequalAny (mem : Mem) (s : Ssstr) : List (List Byte) → Except Fault Bool
  | [] => pure false
  | w :: ws => do
      let eq ← s.caseequal mem w
      if eq then pure true else caseequalAny mem s ws

/-- `request_handle_hd_transfer_encoding` -/
def requestHandleHdTransferEncoding (mem : Mem) (hf : HeaderFunc) (ar : ParseArchive) :
    Except Fault (Int × ParseArchive) := do
  let ar := requestHandleHdBase hf ar
  let known ← caseequalAny mem (ar.reqHeaders .transferEncoding)
    [str "chunked", str "compress", str "deflate", str "gzip", str "identity"]
  pure (if known then (501, ar) else (400, ar))

/-- A call through `hf->func`. -/
def HeaderFunc.call (beyond : List Byte) (mem : Mem) (hf : HeaderFunc) (ar : ParseArchive) :
    Except Fault (Int × ParseArchive) :=
  match hf.func with
  | .base => pure (OK, requestHandleHdBase hf ar)
  | .connection => requestHandleHdConnection mem hf ar
  | .contentLength => requestHandleHdContentLength beyond mem hf ar
  | .transferEncoding => requestHandleHdTransferEncoding mem hf ar

/-! ## The three stages -/

/-- How the `while` loop of `request_handle_headers` is left. -/
inductive HeaderExit where
  /-- `return code` -/
  | ret (code : Int)
  /-- `goto header_done` -/
  | headerDone
  deriving DecidableEq, Repr

/-- What `request_handle_headers` does with a header line it has read: the name is put into
lower case in the buffer, and the function found for it is called. -/
def handleHeaderLine (beyond : List Byte) (mem : Mem) (ar : ParseArchive) :
    Except Fault (Mem × Int × ParseArchive) := do
  let mem ← ar.headerName.tolower mem
  match (headerHandlerDict.get mem ar.headerName).1 with
  | none => pure (mem, OK, ar)
  | some hf => do
      let (status, ar) ← hf.call beyond mem ar
      pure (mem, status, ar)

/-- The `while` loop of `request_handle_headers`; the bytes `[msg, msg + len)` are left. -/
def headerLoop (beyond : List Byte) : Nat → Mem → Nat → Nat → ParseArchive →
    Except Fault (HeaderExit × Mem × ParseArchive)
  | 0, _, _, _, _ => .error .noFuel
  | fuel + 1, mem, msg, len, ar => do
      let r ← parseHeaderLine mem msg len ar
      if r.code = AGAIN then pure (.ret AGAIN, mem, r.ar)
      else if r.code = INVALID_REQUEST then pure (.ret 400, mem, r.ar)
      else if r.code = CRLF_LINE then pure (.headerDone, mem, r.ar)
      else do
        let (mem, status, ar) ← handleHeaderLine beyond mem r.ar
        -- the source returns `OK` here, whatever the status of the handler
        if status ≠ OK then pure (.ret OK, mem, ar)
        else headerLoop beyond fuel mem (msg + r.len) (len - r.len) ar

namespace Session

/-- The block of the read buffer with other contents. -/
def setReadMem (s : WebSession) (mem : Mem) : WebSession :=
  s.setRead { s.conn.ringBufferRead with msg := mem }

/-- `ring_buffer_get_msg` on the read buffer: where the bytes begin, and how many they are. -/
def readMsg (s : WebSession) : Option Nat × Nat :=
  let (msg, len) := s.conn.ringBufferRead.getMsg
  (msg.map Int.toNat, len.toNat)

/-- `request_handle_headers` -/
def requestHandleHeaders (env : Env) (s : WebSession) : Except Fault (Int × WebSession) :=
  let s := s.touchHandler.touchConn
  match s.readMsg with
  | (none, _) => .error .nullDeref
  | (some msg, len) => do
      let (exit, mem, ar) ← headerLoop env.beyond (len + 1) s.readMem msg len s.handler.par
      let s := (s.setReadMem mem).setPar ar
      match exit with
      | .ret code => pure (code, s)
      | .headerDone => pure (OK, s.setReq { s.handler with reqHandler := some .body })

/-- `request_handle_body` -/
def requestHandleBody (s : WebSession) : Except Fault (Int × WebSession) :=
  let s := s.touchHandler.touchConn
  let (msg, len) := s.readMsg
  match s.handler.par.transferEncoding with
  | .identity =>
      let (status, ar) := parseHeaderBodyIdentity (msg.getD 0) len s.handler.par
      let s := s.setPar ar
      if status = AGAIN then pure (AGAIN, s)
      else if status = OK then pure (OK, s.setReq { s.handler with reqHandler := none })
      else pure (ERROR, s)
  | _ => pure (ERROR, s)

end Session

/-- The loop that looks for the end of the path, and the `NUL` written there. -/
def terminatePath (mem : Mem) (absPath : Nat) : Except Fault Mem :=
  let n := ((mem.drop absPath).takeWhile fun c => c ≠ 0 && c ≠ chr ' ' && c ≠ chr '?').length
  memcpy mem (absPath + n) [0]

/-- The C string at an offset, without its `NUL`. -/
def cString (mem : Mem) (off : Nat) : List Byte := (mem.drop off).takeWhile (· ≠ 0)

/-- `relative_path` -/
def relativePath (mem : Mem) (absPath : Nat) (len : Int) : List Byte :=
  if len = 1 ∧ mem[absPath]? = some (chr '/') then str "./" else cString mem (absPath + 1)

namespace Session

/-- A system call of the kernel. -/
def syscall {α : Type} (s : WebSession) (f : Kernel → α × Kernel) : α × WebSession :=
  let (a, kernel) := f s.kernel
  (a, { s with kernel := kernel })

/-- `close` -/
def closeFd (s : WebSession) (fd : Int) : WebSession := { s with kernel := s.kernel.close fd }

/-- The end of `request_handle_request_line`: `fd` is open on `inode`. -/
def setResource (s : WebSession) (fd : Int) (inode : Inode) : WebSession :=
  s.setReq { s.handler with
    resourceFd := fd
    resourceSize := toInt inode.stSize
    reqHandler := some .headers }

/-- The rest of `request_handle_request_line`, from `openat` on. -/
def openResource (env : Env) (path : List Byte) (s : WebSession) : Int × WebSession :=
  let (fd, s) := s.syscall (Kernel.openat env.rootdirFd path (env.root path))
  match env.root path with
  | none => (404, s)
  | some (.file content) => (OK, s.setResource fd (.file content))
  | some (.dir _ index) =>
      -- a directory stands for its `index.html`
      let (htmlFd, s) := s.syscall (Kernel.openat fd (str "index.html") index)
      let s := s.closeFd fd
      match index with
      | none => (404, s)
      | some html =>
          let url := s.handler.par.url
          let s := s.setPar (s.handler.par.setUrl { url with mimeExtension := .ofLit "html" })
          (OK, s.setResource htmlFd html)

/-- `request_handle_request_line` once the line is accepted. -/
def requestLineAccepted (env : Env) (s : WebSession) : Except Fault (Int × WebSession) :=
  let version := s.handler.par.version
  if version.httpMajor > 1 ∨ version.httpMinor > 1 then pure (500, s)
  else
    let keepAlive := decide (version.httpMajor = 1 ∧ version.httpMinor = 1)
    let s := s.setPar { s.handler.par with keepAlive := keepAlive }
    let path := s.handler.par.url.absPath
    match path.str with
    | .null => .error .nullDeref
    | .lit _ => .error .outOfBounds
    | .buf off => do
        let mem ← terminatePath s.readMem off
        pure ((s.setReadMem mem).openResource env (relativePath mem off path.len))

/-- `request_handle_request_line` -/
def requestHandleRequestLine (env : Env) (s : WebSession) : Except Fault (Int × WebSession) :=
  let s := s.touchHandler.touchConn
  let (msg, len) := s.readMsg
  let par := s.handler.par
  let par := if par.nextParsePos.isNone then par.setPos msg else par
  match msg with
  | none => pure (AGAIN, s.setPar par)
  | some msg => do
      let r ← parseRequestLine s.readMem msg len par
      let s := s.setPar r.ar
      if r.code = OK then s.requestLineAccepted env
      else pure (if r.code = AGAIN then AGAIN else 400, s)

/-- A call through `req_handler`. -/
def callHandler (env : Env) (h : ReqHandler) (s : WebSession) : Except Fault (Int × WebSession) :=
  match h with
  | .requestLine => s.requestHandleRequestLine env
  | .headers => s.requestHandleHeaders env
  | .body => s.requestHandleBody

/-- The `do`-`while` loop of `http_request`. -/
def handlerLoop (env : Env) : Nat → WebSession → Except Fault (Int × WebSession)
  | 0, _ => .error .noFuel
  | fuel + 1, s =>
      match s.handler.reqHandler with
      | none => .error .nullDeref
      | some h => do
          let (status, s) ← s.callHandler env h
          if s.handler.reqHandler ≠ none ∧ status = OK then handlerLoop env fuel s
          else pure (status, s)

/-! ## The response -/

/-- The lines of the head of a response with a file. -/
def headLines (env : Env) (s : WebSession) : Except Fault (List (List Byte)) := do
  let status ← statusLine s.handler
  pure [status, dateLine env, serverLine, contentTypeLine s.readMem s.handler,
    contentLengthLine s.handler, connectionLine env s.handler s.conn, timeoutLine env s.handler,
    crlf]

/-- `r->par.response_done = true` -/
def setResponseDone (s : WebSession) : WebSession :=
  s.setPar { s.handler.par with responseDone := true }

/-- What `response_handle_send_line_and_header` makes of what `connection_send_buffer`
returns. -/
def headSent (ret : Int) (s : WebSession) : Int × WebSession :=
  let s := s.touchHandler
  if ret = 0 then
    if s.handler.resourceFd ≠ -1 then (OK, s.setReq { s.handler with resHandler := .sendFile })
    else (OK, s.setResponseDone)
  else if ret = 1 then
    -- the file is left to be done in the source as well
    (OK, s.setResponseDone)
  else (500, s)

/-- `response_handle_send_line_and_header` -/
def responseHandleSendLineAndHeader (env : Env) (s : WebSession) :
    Except Fault (Int × WebSession) := do
  let lines ← s.headLines env
  let s ← s.appendAll env lines
  let (ret, s) ← s.connectionSendBuffer env
  pure (s.headSent ret)

/-- `response_handle_send_file` -/
def responseHandleSendFile (env : Env) (s : WebSession) : Int × WebSession :=
  let s := s.touchHandler.touchConn
  let r := s.handler
  let (len, s) := s.syscall (Kernel.sendfile env r.resourceFd (toSizeT r.resourceSize))
  if len = 0 ∨ r.resourceSize = len then (OK, s.setResponseDone) else (500, s)

/-- `response_handle`: the head, and the file behind it if the head calls for it.  The loop of
the source runs at most twice. -/
def responseHandle (env : Env) (s : WebSession) : Except Fault (Int × WebSession) :=
  match s.handler.resHandler with
  | .sendFile => pure (s.responseHandleSendFile env)
  | .sendLineAndHeader => do
      let (status, s) ← s.responseHandleSendLineAndHeader env
      if status = OK ∧ ¬ s.handler.par.responseDone then pure (s.responseHandleSendFile env)
      else pure (status, s)

/-- The size of `error.html`, when it is a file that can be opened. -/
def errorSize (env : Env) : Int :=
  match env.root (str "error.html") with
  | some inode => toInt inode.stSize
  | none => 0

/-- The lines of the head of an error response; `keep_alive` is cleared before the
`Connection` line and no `Keep-Alive` line is written. -/
def errLines (env : Env) (s : WebSession) : Except Fault (List (List Byte)) := do
  let status ← statusLine s.handler
  let closing := { s.handler with par := { s.handler.par with keepAlive := false } }
  pure [status, dateLine env, serverLine, contentTypeLine s.readMem s.handler,
    contentLengthLine s.handler, connectionLine env closing s.conn, crlf]

/-- The beginning of `response_assemble_err_buffer`: the request is marked as failed. -/
def markError (statusCode : Int) (s : WebSession) : WebSession :=
  s.setReq { s.handler with
    reqHandler := none
    par := { s.handler.par with errReq := true }
    statusCode := statusCode }

/-- `response_assemble_err_buffer` -/
def responseAssembleErrBuffer (env : Env) (statusCode : Int) (s : WebSession) :
    Except Fault WebSession := do
  let s := s.touchHandler.markError statusCode
  let path := str "error.html"
  let (fd, s) := s.syscall (Kernel.openat env.rootdirFd path (env.root path))
  let size := errorSize env
  let lines ← s.errLines env
  let s ← s.appendAll env lines
  let s := s.setPar { s.handler.par with keepAlive := false }
  let s := if fd > 0 ∧ size > 0 then
      let (_, s) := s.touchConn.syscall (Kernel.sendfile env fd (toSizeT size))
      s.closeFd fd
    else s
  pure s.setResponseDone

/-! ## A whole request -/

/-- `http_request_handle_reset`; `resource_size` keeps its value. -/
def httpRequestHandleReset (s : WebSession) : WebSession :=
  let s := s.touchHandler
  s.setReq { s.handler with
    par := parseArchiveInit
    resourceFd := -1
    statusCode := 200
    reqHandler := some .requestLine
    resHandler := .sendLineAndHeader }

/-- `http_request_handle_unint` -/
def httpRequestHandleUnint (s : WebSession) : WebSession :=
  let s := s.touchHandler
  if s.handler.resourceFd > 0 then s.closeFd s.handler.resourceFd else s

/-- `ring_buffer_release_bytes` on the read buffer. -/
def releaseRead (s : WebSession) (len : Int) : Except Fault WebSession := do
  let s := s.touchHandler.touchConn
  let rb ← s.conn.ringBufferRead.releaseBytes len
  pure (s.setRead rb)

/-- The two ways in which `http_request` responds to the outcome of the handlers. -/
def respond (env : Env) (status : Int) (s : WebSession) : Except Fault WebSession :=
  if status = OK then do
    let (_, s) ← s.responseHandle env
    pure s
  else s.responseAssembleErrBuffer env status

/-- The end of `http_request`: a short connection is closed. -/
def finishRequest (s : WebSession) : WebSession :=
  let s := s.touchHandler
  let s := if s.handler.par.keepAlive then s else s.connectionDisconnect
  s.httpRequestHandleUnint

/-- The bound of the `do`-`while` loop: every call that answers `OK` reads a line or ends a
stage. -/
def handlerFuel (s : WebSession) : Nat := s.conn.ringBufferRead.readableBytes.toNat + 3

/-- `http_request` -/
def httpRequest (env : Env) (s : WebSession) : Except Fault WebSession := do
  let s := s.httpRequestHandleReset.touchConn
  let len := s.conn.ringBufferRead.readableBytes
  let (status, s) ← s.handlerLoop env s.handlerFuel
  let s ← s.releaseRead len
  let s ← s.respond env status
  pure s.finishRequest

/-- `onMessage` -/
def onMessage (env : Env) (s : WebSession) : Except Fault WebSession := s.touchConn.httpRequest env

/-! ## One turn of the event loop -/

/-- What happens to a connection in one turn of the event loop. -/
structure Turn where
  env : Env
  ready : Ready

/-- One turn. -/
def turn (s : WebSession) (t : Turn) : Except Fault WebSession :=
  s.epollerDispatch t.env (onMessage t.env) t.ready

/-- A connection as `connection_create`, `onConnection` and `connection_start` leave it. -/
def start (connfd now : Int) : WebSession where
  conn := ⟨connfd, .new, .new, .open, now⟩
  ev := ⟨connfd, ⟨true, true, false, false, false⟩, ⟨false, false, false, false, false⟩, true⟩
  handler :=
    { par := parseArchiveInit
      resourceFd := -1
      resourceSize := 0
      statusCode := 200
      reqHandler := some .requestLine
      resHandler := .sendLineAndHeader }
  connLive := true
  evLive := true
  handlerLive := true
  readHeap := .new
  writeHeap := .new
  frees := 0
  disconnects := 0
  touchedDead := false
  kernel := ⟨[], 0, 0, 2, fun _ => none, [], []⟩

end Session

end MWebServer
