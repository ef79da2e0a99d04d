import MWebServer.Lib.Scan
import MWebServer.Web.Str

/-!
# The HTTP parser (`web/http_parser.c`, `web/http_parser.h`)

Two character machines share one `parse_archive`: `parse_request_line` reads the
request line, `parse_header_line` reads one header line per call.  All of their
state lives in the archive, so that a call that runs out of bytes answers `AGAIN`
and the next one takes up where it stopped.

The body of each `for` loop is a step of a scanner (`rlBody`, `hdBody`): it goes on
with an archive, or leaves the loop through a `return`, through `goto done` or
through a fault.  Positions are offsets into the read buffer, `NULL` is `none`.
-/

namespace MWebServer

open Scan

/-! ## Data -/

/-- `OK` -/
abbrev OK : Int := 0
/-- `AGAIN` -/
abbrev AGAIN : Int := 1
/-- `ERROR` -/
abbrev ERROR : Int := -1
/-- `INVALID_REQUEST` -/
abbrev INVALID_REQUEST : Int := -1
/-- `CRLF_LINE` -/
abbrev CRLF_LINE : Int := 2

/-- `http_method` -/
inductive HttpMethod where
  | delete | get | head | post | put | invalid
  deriving DecidableEq, Repr

/-- `http_version` -/
structure HttpVersion where
  httpMajor : Int
  httpMinor : Int
  deriving DecidableEq, Repr

/-- `req_url` -/
structure ReqUrl where
  absPath : Ssstr
  queryString : Ssstr
  mimeExtension : Ssstr
  deriving DecidableEq, Repr

/-- `parser_state`: the states of the request line, of a header line and of a URL. -/
inductive ParserState where
  | rlBegin | rlMethod | rlSpBeforeUrl | rlUrl | rlSpBeforeVersion
  | rlVersionH | rlVersionHT | rlVersionHTT | rlVersionHTTP | rlVersionHTTPSlash
  | rlVersionMajor | rlVersionDot | rlVersionMinor | rlCrAfterVersion | rlLfAfterVersion
  | hdBegin | hdName | hdColon | hdSpBeforeVal | hdVal | hdCrAfterVal | hdLfAfterVal
  | urlBegin | urlAbsPath | urlQuery | urlEnd
  deriving DecidableEq, Repr

/-- `transfer_encoding_t` -/
inductive TransferEncoding where
  | identity | chunked | compress | deflate | gzip
  deriving DecidableEq, Repr

/-- The fields of `request_headers_t`, which `offsetof` turns into offsets. -/
inductive HeaderSlot where
  | cacheControl | connection | date | transferEncoding | accept | acceptCharset
  | acceptEncoding | acceptLanguage | cookie | host | ifModifiedSince | ifUnmodifiedSince
  | maxForwards | range | referer | userAgent | contentLength
  deriving DecidableEq, Repr

/-- `request_headers_t`: one `ssstr` at every offset. -/
abbrev RequestHeaders := HeaderSlot → Ssstr

/-- `parse_archive` -/
structure ParseArchive where
  method : HttpMethod
  version : HttpVersion
  requestUrlString : Ssstr
  url : ReqUrl
  keepAlive : Bool
  contentLength : Int
  transferEncoding : TransferEncoding
  reqHeaders : RequestHeaders
  numHeaders : Int
  /-- `header[0]` -/
  headerName : Ssstr
  /-- `header[1]` -/
  headerVal : Ssstr
  nextParsePos : Option Nat
  state : ParserState
  methodBegin : Option Nat
  urlBegin : Option Nat
  headerLineBegin : Option Nat
  headerColonPos : Option Nat
  headerValBegin : Option Nat
  headerValEnd : Option Nat
  bodyReceived : Nat
  isCRLFLine : Bool
  responseDone : Bool
  errReq : Bool

/-- `parse_archive_init` -/
def parseArchiveInit : ParseArchive where
  method := .delete
  version := ⟨0, 0⟩
  requestUrlString := .init
  url := ⟨.init, .init, .init⟩
  keepAlive := false
  contentLength := -1
  transferEncoding := .identity
  reqHeaders := fun _ => .init
  numHeaders := 0
  headerName := .init
  headerVal := .init
  nextParsePos := none
  state := .rlBegin
  methodBegin := none
  urlBegin := none
  headerLineBegin := none
  headerColonPos := none
  headerValBegin := none
  headerValEnd := none
  bodyReceived := 0
  isCRLFLine := true
  responseDone := false
  errReq := false

/-- The archive with another `next_parse_pos`. -/
def ParseArchive.setPos (q : Option Nat) (ar : ParseArchive) : ParseArchive :=
  { ar with nextParsePos := q }

@[simp] theorem ParseArchive.setPos_nextParsePos (q : Option Nat) (ar : ParseArchive) :
    (ar.setPos q).nextParsePos = q := rfl

@[simp] theorem ParseArchive.setPos_setPos (q r : Option Nat) (ar : ParseArchive) :
    (ar.setPos r).setPos q = ar.setPos q := rfl

/-- The archive with another `url`. -/
def ParseArchive.setUrl (url : ReqUrl) (ar : ParseArchive) : ParseArchive := { ar with url := url }

/-- What a line parser returns: its code, `*len` and the archive. -/
structure Parsed where
  code : Int
  len : Nat
  ar : ParseArchive

/-- How the `for` loop of a line parser is left before the end of the bytes. -/
inductive Exit where
  /-- `return code` -/
  | ret (code : Int) (ar : ParseArchive)
  /-- `goto done` at the position `p` -/
  | done (p : Nat) (ar : ParseArchive)
  | fault (f : Fault)

/-! ## The sub-parsers of the request line -/

/-- `parse_method`: the bytes in `[b, e)` compared with the five method names. -/
def parseMethod (mem : Mem) (b e : Nat) : HttpMethod :=
  let word := (mem.drop b).take (e - b)
  match e - b with
  | 3 => if word = str "GET" then .get else if word = str "PUT" then .put else .invalid
  | 4 => if word = str "POST" then .post else if word = str "HEAD" then .head else .invalid
  | 6 => if word = str "DELETE" then .delete else .invalid
  | _ => .invalid

/-- The locals of `parse_url`, `curr_state` and `begin`, with the `url` it fills. -/
structure UrlScan where
  currState : ParserState
  start : Nat
  url : ReqUrl
  deriving DecidableEq

/-- How the loop of `parse_url` is left. -/
inductive UrlExit where
  | ret (code : Int) (url : ReqUrl)
  | parseExtension (url : ReqUrl)
  | fault (f : Fault)
  deriving DecidableEq

/-- The body of the `for` loop of `parse_url`. -/
def urlBody (p : Nat) (ch : Byte) (s : UrlScan) : Flow UrlScan UrlExit :=
  match s.currState with
  | .urlBegin =>
      if ch = chr '/' then .next { s with currState := .urlAbsPath }
      else .stop (.ret ERROR s.url)
  | .urlAbsPath =>
      if ch = chr ' ' then
        .next { s with
          url := { s.url with absPath := .slice s.start (p - s.start), queryString := .slice p 0 }
          currState := .urlEnd }
      else if ch = chr '?' then
        .next
          { url := { s.url with absPath := .slice s.start (p - s.start) }
            start := p + 1
            currState := .urlQuery }
      else .next s
  | .urlQuery =>
      if ch = chr ' ' then
        .next { s with
          url := { s.url with queryString := .slice s.start (p - s.start) }
          currState := .urlEnd }
      else .next s
  | .urlEnd => .stop (.parseExtension s.url)
  | _ => .next s

/-- The backward scan after `parse_extension:`, from `abs + n` down to `abs + 1`. -/
def extensionLoop (mem : Mem) (abs absEnd : Nat) : Nat → ReqUrl → Except Fault ReqUrl
  | 0, url => .ok url
  | n + 1, url =>
      match mem[abs + (n + 1)]? with
      | none => .error .outOfBounds
      | some c =>
          if c = chr '.' then
            .ok { url with mimeExtension := ⟨.buf (abs + (n + 1) + 1), absEnd - (abs + (n + 1)) - 1⟩ }
          else if c = chr '/' then .ok url
          else extensionLoop mem abs absEnd n url

/-- The code after `parse_extension:`. -/
def parseExtension (mem : Mem) (url : ReqUrl) : Except Fault ReqUrl :=
  match url.absPath.str with
  | .null => if url.absPath.len = 0 then .ok url else .error .nullDeref
  | .buf abs =>
      if 0 ≤ url.absPath.len then
        extensionLoop mem abs (abs + url.absPath.len.toNat) url.absPath.len.toNat url
      else .error .outOfBounds
  | .lit _ => .error .outOfBounds

/-- The loop of `parse_url` over the bytes `[b, e]`, the delimiter at `e` included, and the
extension after it. -/
def parseUrlFields (mem : Mem) (b e : Nat) (url : ReqUrl) : Except Fault (Int × ReqUrl) :=
  match scan (reading mem (.fault .outOfBounds) urlBody) b (e + 1 - b) ⟨.urlBegin, b, url⟩ with
  | .stop (.ret code url) => .ok (code, url)
  | .stop (.fault f) => .error f
  | .stop (.parseExtension url) => (parseExtension mem url).map fun url => (OK, url)
  | .next s => (parseExtension mem s.url).map fun url => (OK, url)

/-- `parse_url` -/
def parseUrl (mem : Mem) (b e : Nat) (ar : ParseArchive) : Except Fault (Int × ParseArchive) :=
  if e < b then .error .assertFailed
  else
    (parseUrlFields mem b e ar.url).map fun r =>
      (r.1, { ar with requestUrlString := .slice b (e - b), url := r.2 })

/-! ## The request line -/

/-- `case S_RL_METHOD`, which `case S_RL_BEGIN` falls through to. -/
def rlMethodCase (mem : Mem) (p : Nat) (ch : Byte) (ar : ParseArchive) : Flow ParseArchive Exit :=
  if isAlpha ch then .next ar
  else if ch = chr ' ' then
    match ar.methodBegin with
    | none => .stop (.fault .nullDeref)
    | some b =>
        let ar := { ar with method := parseMethod mem b p }
        if ar.method = .invalid then .stop (.ret INVALID_REQUEST ar)
        else .next { ar with state := .rlSpBeforeUrl }
  else .stop (.ret INVALID_REQUEST ar)

/-- The end of the URL in `case S_RL_URL`: its sub-parser decides. -/
def rlUrlEnd (mem : Mem) (p : Nat) (urlBegin : Option Nat) (ar : ParseArchive) :
    Flow ParseArchive Exit :=
  match urlBegin with
  | none => .stop (.fault .nullDeref)
  | some b =>
      match parseUrl mem b p ar with
      | .error f => .stop (.fault f)
      | .ok (urlStatus, ar) => if urlStatus ≠ 0 then .stop (.ret urlStatus ar) else .next ar

/-- `http_major * 10 + ch - '0'`, stored in a `short`. -/
def versionDigit (v : Int) (ch : Byte) : Int := toShort (v * 10 + signedChar ch - 48)

/-- A letter of `HTTP`, in either case, or the request is invalid. -/
def expectLetter (upper lower ch : Byte) (next : ParserState) (ar : ParseArchive) :
    Flow ParseArchive Exit :=
  if ch = upper || ch = lower then .next { ar with state := next }
  else .stop (.ret INVALID_REQUEST ar)

/-- The body of the `for` loop of `parse_request_line`. -/
def rlBody (mem : Mem) (p : Nat) (ch : Byte) (ar : ParseArchive) : Flow ParseArchive Exit :=
  match ar.state with
  | .rlBegin =>
      if isAlpha ch then
        rlMethodCase mem p ch { ar with methodBegin := some p, state := .rlMethod }
      else .stop (.ret INVALID_REQUEST ar)
  | .rlMethod => rlMethodCase mem p ch ar
  | .rlSpBeforeUrl =>
      if isBlank ch then .next ar
      else if isNewline ch then .stop (.ret INVALID_REQUEST ar)
      else .next { ar with state := .rlUrl, urlBegin := some p }
  | .rlUrl =>
      if isBlank ch then
        rlUrlEnd mem p ar.urlBegin { ar with state := .rlSpBeforeVersion }
      else if isNewline ch then .stop (.ret INVALID_REQUEST ar)
      else .next ar
  | .rlSpBeforeVersion =>
      if isBlank ch then .next ar
      else expectLetter (chr 'H') (chr 'h') ch .rlVersionH ar
  | .rlVersionH => expectLetter (chr 'T') (chr 't') ch .rlVersionHT ar
  | .rlVersionHT => expectLetter (chr 'T') (chr 't') ch .rlVersionHTT ar
  | .rlVersionHTT => expectLetter (chr 'P') (chr 'p') ch .rlVersionHTTP ar
  | .rlVersionHTTP =>
      if ch = chr '/' then .next { ar with state := .rlVersionHTTPSlash }
      else .stop (.ret INVALID_REQUEST ar)
  | .rlVersionHTTPSlash =>
      if isDigit ch then
        .next { ar with
          version := { ar.version with httpMajor := versionDigit ar.version.httpMajor ch }
          state := .rlVersionMajor }
      else .stop (.ret INVALID_REQUEST ar)
  | .rlVersionMajor =>
      if isDigit ch then
        let ar := { ar with
          version := { ar.version with httpMajor := versionDigit ar.version.httpMajor ch } }
        if ar.version.httpMajor > 1 then .stop (.ret INVALID_REQUEST ar) else .next ar
      else if ch = chr '.' then .next { ar with state := .rlVersionDot }
      else .stop (.ret INVALID_REQUEST ar)
  | .rlVersionDot =>
      if isDigit ch then
        .next { ar with
          version := { ar.version with httpMinor := versionDigit ar.version.httpMinor ch }
          state := .rlVersionMinor }
      else .stop (.ret INVALID_REQUEST ar)
  | .rlVersionMinor =>
      if isDigit ch then
        let ar := { ar with
          version := { ar.version with httpMinor := versionDigit ar.version.httpMinor ch } }
        if ar.version.httpMinor > 1 then .stop (.ret INVALID_REQUEST ar) else .next ar
      else if ch = chr '\r' then .next { ar with state := .rlCrAfterVersion }
      else .stop (.ret INVALID_REQUEST ar)
  | .rlCrAfterVersion =>
      if ch = chr '\n' then .stop (.done p { ar with state := .rlLfAfterVersion })
      else .stop (.ret INVALID_REQUEST ar)
  | _ => .next ar

/-- The frame that `parse_request_line` and `parse_header_line` share: the `for` loop from
`next_parse_pos` to `msg + *len`, the `AGAIN` after it, and the code at `done:`, which
differs only in what `finish` adds to it. -/
def lineParser (body : Nat → Byte → ParseArchive → Flow ParseArchive Exit)
    (finish : ParseArchive → Except Fault (Int × ParseArchive))
    (mem : Mem) (msg len : Nat) (ar : ParseArchive) : Except Fault Parsed :=
  match ar.nextParsePos with
  | none => .error .nullDeref
  | some p0 =>
      match scan (reading mem (.fault .outOfBounds) body) p0 (msg + len - p0) ar with
      | .next ar => .ok ⟨AGAIN, len, { ar with nextParsePos := some (msg + len) }⟩
      | .stop (.ret code ar) => .ok ⟨code, len, ar⟩
      | .stop (.done p ar) => do
          let (code, ar) ← finish { ar with nextParsePos := some (p + 1), state := .hdBegin }
          pure ⟨code, p + 1 - msg, ar⟩
      | .stop (.fault f) => .error f

/-- A call of a line parser is a scan of the bytes from `next_parse_pos` on. -/
theorem lineParser_eq (body : Nat → Byte → ParseArchive → Flow ParseArchive Exit)
    (finish : ParseArchive → Except Fault (Int × ParseArchive)) (pre m post : List Byte) {msg : Nat}
    (hmsg : msg ≤ pre.length) {ar : ParseArchive} (hpos : ar.nextParsePos = some pre.length) :
    lineParser body finish (pre ++ (m ++ post)) msg (pre.length - msg + m.length) ar =
      match scanList body pre.length m ar with
      | .next ar =>
          .ok ⟨AGAIN, pre.length - msg + m.length, ar.setPos (some (pre.length + m.length))⟩
      | .stop (.ret code ar) => .ok ⟨code, pre.length - msg + m.length, ar⟩
      | .stop (.done p ar) =>
          (finish { ar with nextParsePos := some (p + 1), state := .hdBegin }).map
            fun r => ⟨r.1, p + 1 - msg, r.2⟩
      | .stop (.fault f) => .error f := by
  unfold lineParser
  rw [hpos]
  simp only
  rw [show msg + (pre.length - msg + m.length) - pre.length = m.length by omega,
    show msg + (pre.length - msg + m.length) = pre.length + m.length by omega,
    scan_reading _ _ pre m post rfl]
  cases scanList body pre.length m ar with
  | next ar => rfl
  | stop x =>
    cases x with
    | done p ar =>
      simp only
      cases finish { ar with nextParsePos := some (p + 1), state := .hdBegin } <;> rfl
    | _ => rfl

/-- `parse_request_line` -/
def parseRequestLine (mem : Mem) : Nat → Nat → ParseArchive → Except Fault Parsed :=
  lineParser (rlBody mem) (fun ar => .ok (OK, ar)) mem

/-! ## Header lines -/

/-- `'A' ... 'Z'`, `'a' ... 'z'`, `'0' ... '9'` or `'-'`. -/
def isHeaderNameChar (c : Byte) : Bool := isAlpha c || isDigit c || c == chr '-'

/-- The body of the `for` loop of `parse_header_line`. -/
def hdBody (p : Nat) (ch : Byte) (ar : ParseArchive) : Flow ParseArchive Exit :=
  match ar.state with
  | .hdBegin =>
      if isHeaderNameChar ch then
        .next { ar with state := .hdName, headerLineBegin := some p, isCRLFLine := false }
      else if ch = chr '\r' then .next { ar with state := .hdCrAfterVal, isCRLFLine := true }
      else if isBlank ch then .next ar
      else .stop (.ret INVALID_REQUEST ar)
  | .hdName =>
      if isHeaderNameChar ch then .next ar
      else if ch = chr ':' then .next { ar with state := .hdColon, headerColonPos := some p }
      else .stop (.ret INVALID_REQUEST ar)
  | .hdColon =>
      if isBlank ch then .next { ar with state := .hdSpBeforeVal }
      else if isNewline ch then .stop (.ret INVALID_REQUEST ar)
      else .next { ar with state := .hdVal, headerValBegin := some p }
  | .hdSpBeforeVal =>
      if isBlank ch then .next ar
      else if isNewline ch then .stop (.ret INVALID_REQUEST ar)
      else .next { ar with state := .hdVal, headerValBegin := some p }
  | .hdVal =>
      if ch = chr '\r' then .next { ar with headerValEnd := some p, state := .hdCrAfterVal }
      else if ch = chr '\n' then .next { ar with state := .hdLfAfterVal }
      else .next ar
  | .hdCrAfterVal =>
      if ch = chr '\n' then .stop (.done p { ar with state := .hdLfAfterVal })
      else .stop (.ret INVALID_REQUEST ar)
  | _ => .next ar

/-- `HEADER_SET(header, str_beg, str_end)`.  The pointers are compared as addresses, and
`NULL` is below every position; a slice from `NULL` to a position is no string. -/
def headerSet : Option Nat → Option Nat → Except Fault Ssstr
  | some b, some e => if b ≤ e then .ok (.slice b (e - b)) else .error .assertFailed
  | some _, none => .error .assertFailed
  | none, none => .ok .init
  | none, some _ => .error .nullDeref

/-- What `parse_header_line` adds at `done:`. -/
def headerDone (ar : ParseArchive) : Except Fault (Int × ParseArchive) := do
  let ar := { ar with numHeaders := ar.numHeaders + 1 }
  let name ← headerSet ar.headerLineBegin ar.headerColonPos
  let val ← headerSet ar.headerValBegin ar.headerValEnd
  pure (if ar.isCRLFLine then CRLF_LINE else OK, { ar with headerName := name, headerVal := val })

/-- `parse_header_line` -/
def parseHeaderLine (mem : Mem) : Nat → Nat → ParseArchive → Except Fault Parsed :=
  lineParser hdBody headerDone mem

/-! ## The body -/

/-- `parse_header_body_identity`: the code and the archive. -/
def parseHeaderBodyIdentity (msg len : Nat) (ar : ParseArchive) : Int × ParseArchive :=
  if ar.contentLength ≤ 0 then (OK, ar)
  else
    let ar := { ar with
      bodyReceived := (ar.bodyReceived + len) % 2 ^ 64
      nextParsePos := some (msg + len) }
    if ar.bodyReceived ≥ toSizeT ar.contentLength then (OK, ar) else (AGAIN, ar)

end MWebServer
