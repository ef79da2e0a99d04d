import MWebServer.Mevent.Connection
import MWebServer.Web.Dict
import MWebServer.Web.HttpParser

/-!
# The response head (`web/http_response.c`)

Each `response_append_...` function of the source writes one line of the head and
pushes it into the write buffer.  The line is a function of the request here
(`statusLine`, `dateLine`, ...), and `append` the push they share.
-/

namespace MWebServer

/-! ## The request (`web/http_request.h`) -/

/-- The values of `req_handler`, `NULL` apart. -/
inductive ReqHandler where
  | requestLine | headers | body
  deriving DecidableEq, Repr

/-- The values of `res_handler`. -/
inductive ResHandler where
  | sendLineAndHeader | sendFile
  deriving DecidableEq, Repr

/-- `request`, without the pointer to its connection. -/
structure Request where
  par : ParseArchive
  resourceFd : Int
  resourceSize : Int
  statusCode : Int
  reqHandler : Option ReqHandler
  resHandler : ResHandler

/-- A connection of the web server. -/
abbrev WebSession := Session Request

/-- The bytes the slices of the archive point into. -/
def Session.readMem (s : WebSession) : Mem := s.conn.ringBufferRead.msg

/-- The session with another request. -/
def Session.setReq (s : WebSession) (r : Request) : WebSession := { s with handler := r }

/-- The session with another archive. -/
def Session.setPar (s : WebSession) (par : ParseArchive) : WebSession :=
  { s with handler := { s.handler with par := par } }

/-! ## The tables -/

/-- `HTTP_STATUS_MAP` -/
def httpStatusMap : List (Int × String) :=
  [(100, "Continue"), (101, "Switching Protocols"), (102, "Processing"), (200, "OK"),
    (201, "Created"), (202, "Accepted"), (203, "Non - Authoritative Information"),
    (204, "No Content"), (205, "Reset Content"), (206, "Partial Content"),
    (207, "Multi - Status"), (208, "Already Reported"), (226, "IM Used"),
    (300, "Multiple Choices"), (301, "Moved Permanently"), (302, "Found"), (303, "See Other"),
    (304, "Not Modified"), (305, "Use Proxy"), (307, "Temporary Redirect"),
    (308, "Permanent Redirect"), (400, "Bad Request"), (401, "Unauthorized"),
    (402, "Payment Required"), (403, "Forbidden"), (404, "Not Found"),
    (405, "Method Not Allowed"), (406, "Not Acceptable"), (407, "Proxy Authentication Required"),
    (408, "Request Timeout"), (409, "Conflict"), (410, "Gone"), (411, "Length Required"),
    (412, "Precondition Failed"), (413, "Payload Too Large"), (414, "URI Too Long"),
    (415, "Unsupported Media Type"), (416, "Range Not Satisfiable"), (417, "Expectation Failed"),
    (421, "Misdirected Request"), (422, "Unprocessable Entity"), (423, "Locked"),
    (424, "Failed Dependency"), (426, "Upgrade Required"), (428, "Precondition Required"),
    (429, "Too Many Requests"), (431, "Request Header Fields Too Large"),
    (451, "Unavailable For Legal Reasons"), (500, "Internal Server Error"),
    (501, "Not Implemented"), (502, "Bad Gateway"), (503, "Service Unavailable"),
    (504, "Gateway Timeout"), (505, "HTTP Version Not Supported"),
    (506, "Variant Also Negotiates"), (507, "Insufficient Storage"), (508, "Loop Detected"),
    (510, "Not Extended"), (511, "Network Authentication Required")]

/-- `Status_Table[status_code]`: 512 entries, `NULL` where the map has none. -/
def statusTable (code : Int) : Except Fault (Option (List Byte)) :=
  if 0 ≤ code ∧ code < 512 then
    .ok ((httpStatusMap.lookup code).map fun reason => str (toString code ++ " " ++ reason))
  else .error .outOfBounds

/-- `Mime_List` -/
def mimeList : List (String × String) :=
  [("word", "application/msword"), ("pdf", "application/pdf"), ("zip", "application/zip"),
    ("js", "application/javascript"), ("gif", "image/gif"), ("jpeg", "image/jpeg"),
    ("jpg", "image/jpeg"), ("png", "image/png"), ("css", "text/css"), ("html", "text/html"),
    ("htm", "text/html"), ("txt", "text/plain"), ("xml", "text/xml"), ("svg", "image/svg+xml"),
    ("mp4", "video/mp4")]

/-- `Mime_Dict`, as `mime_dict_init` fills it.  Its keys are literals. -/
def mimeDict : Dict (List Byte) :=
  Dict.build [] (mimeList.map fun e => (.ofLit e.1, some (str e.2)))

/-! ## The lines of the head -/

/-- `CRLF` -/
def crlf : List Byte := [chr '\r', chr '\n']

/-- `response_append_status_line` -/
def statusLine (r : Request) : Except Fault (List Byte) := do
  let proto := if r.par.version.httpMajor = 1 then str "HTTP/1.1 " else str "HTTP/1.0 "
  let status ← statusTable r.statusCode
  pure (proto ++ (status.getD [] ++ crlf))

/-- `response_append_date` -/
def dateLine (env : Env) : List Byte := str "Date: " ++ (env.date env.now ++ (str " GMT" ++ crlf))

/-- `response_append_server` -/
def serverLine : List Byte := str "Server: " ++ (str "mwebser/0.1" ++ crlf)

/-- The value of `Content-Type`. -/
def contentType (mem : Mem) (r : Request) : List Byte :=
  if r.par.errReq then str "text/html"
  else (mimeDict.get mem r.par.url.mimeExtension).1.getD (str "text/html")

/-- `response_append_content_type` -/
def contentTypeLine (mem : Mem) (r : Request) : List Byte :=
  str "Content-Type: " ++ (contentType mem r ++ crlf)

/-- `response_append_content_length`; nothing for a negative length. -/
def contentLengthLine (r : Request) : List Byte :=
  if r.resourceSize ≥ 0 then str "Content-Length: " ++ (str (toString r.resourceSize) ++ crlf) else []

/-- `response_append_connection`: a connection that is old enough is told to close. -/
def connectionLine (env : Env) (r : Request) (conn : Connection) : List Byte :=
  if env.now - conn.timeOnConnect > env.connectTimeLimit then str "Connection: close" ++ crlf
  else if r.par.keepAlive then str "Connection: keep-alive" ++ crlf
  else str "Connection: close" ++ crlf

/-- `response_append_timeout` -/
def timeoutLine (env : Env) (r : Request) : List Byte :=
  if r.par.keepAlive then
    str "Keep-Alive: timeout=" ++ (str (toString env.timeoutKeepAlive) ++ (str ", max=1" ++ crlf))
  else []

namespace Session

/-- A line that is written is pushed into the write buffer; one that is not is empty. -/
def append (env : Env) (data : List Byte) (s : WebSession) : Except Fault WebSession :=
  let s := s.touchHandler.touchConn
  if data = [] then pure s
  else do
    let rb ← s.conn.ringBufferWrite.pushData env.fresh data
    pure (s.setWrite rb)

/-- Several lines, one after another. -/
def appendAll (env : Env) : List (List Byte) → WebSession → Except Fault WebSession
  | [], s => pure s
  | line :: lines, s => do
      let s ← s.append env line
      s.appendAll env lines

end Session

end MWebServer
