import MWebServer.Web.ContentLength
import MWebServer.Web.ErrorPage

/-!
# The head of a response, read by the parser of requests

A status line, header lines and an empty line: what the `response_append_...` functions
write is a header section in the language of `parse_header_line`.

* `splitHeaders` — calls of `parse_header_line` one behind another.
* `splitHeaders_headers` — they read back any headers whose names and values have the form
  `HeaderText`.
* `headerText_written` — the ones of a response have it.
* `head_roundTrip` — the head of a response is read back.
-/

namespace MWebServer

/-! ## Headers as they are written -/

/-- A value that can stand in a header line: one line, and no blank at its beginning. -/
structure HeaderValue (val : List Byte) : Prop where
  one_line : ∀ c ∈ val, isNewline c = false
  head : ∃ c, val.head? = some c ∧ isBlank c = false

theorem headerValue_iff (val : List Byte) : HeaderValue val ↔
    (val.all fun c => !isNewline c) = true ∧ (val.head?.any fun c => !isBlank c) = true := by
  rw [List.all_eq_true, Option.any_eq_true]
  simp only [Bool.not_eq_true']
  exact ⟨fun h => ⟨h.one_line, h.head⟩, fun h => ⟨h.1, h.2⟩⟩

instance (val : List Byte) : Decidable (HeaderValue val) :=
  decidable_of_iff _ (headerValue_iff val).symm

theorem HeaderValue.append {a b : List Byte} (ha : HeaderValue a) (hb : ∀ c ∈ b, isNewline c = false) :
    HeaderValue (a ++ b) := by
  obtain ⟨c, hhead, hc⟩ := ha.head
  refine ⟨fun x hx => ?_, c, by rw [List.head?_append, hhead]; rfl, hc⟩
  rcases List.mem_append.1 hx with hx | hx
  · exact ha.one_line x hx
  · exact hb x hx

/-- A name and a value that can stand in a header line. -/
structure HeaderText (h : List Byte × List Byte) : Prop where
  name_ne : h.1 ≠ []
  name_chars : ∀ c ∈ h.1, isHeaderNameChar c = true
  val : HeaderValue h.2

theorem HeaderValue.text {name val : List Byte} (h : HeaderValue val)
    (hname : name ≠ [] ∧ ∀ c ∈ name, isHeaderNameChar c = true) : HeaderText (name, val) :=
  ⟨hname.1, hname.2, h⟩

/-- A header line with one space behind the colon. -/
def headerBytes (h : List Byte × List Byte) : List Byte := h.1 ++ (str ": " ++ (h.2 ++ crlf))

/-- The line, taken apart. -/
def HeaderText.line {h : List Byte × List Byte} (ht : HeaderText h) : HeaderLine where
  lead := []
  name := h.1
  gap := str " "
  val := h.2
  lead_blank := HeaderLine.blank_nil
  name_ne := ht.name_ne
  name_chars := ht.name_chars
  gap_blank := HeaderLine.blank_space
  val_chars := ht.val.one_line
  val_head := ht.val.head

theorem HeaderText.bytes_line {h : List Byte × List Byte} (ht : HeaderText h) :
    ht.line.bytes = headerBytes h := rfl

/-! ## Calls one behind another -/

/-- `parse_header_line` is called as long as it answers `OK`.  The names and values it has found,
its last answer, and how many bytes are left behind that. -/
def splitHeaders : Nat → Mem → Nat → Nat → ParseArchive →
    Except Fault (List (List Byte × List Byte) × Int × Nat)
  | 0, _, _, _, _ => .error .noFuel
  | fuel + 1, mem, msg, len, ar => do
      let r ← parseHeaderLine mem msg len ar
      if r.code = OK then do
        let (hs, code, left) ← splitHeaders fuel mem (msg + r.len) (len - r.len) r.ar
        pure ((r.ar.headerName.bytes mem, r.ar.headerVal.bytes mem) :: hs, code, left)
      else pure ([], r.code, len - r.len)

/-- **Headers that are written are read back**, whatever stands behind them. -/
theorem splitHeaders_behind {hs : List (List Byte × List Byte)} (hhs : ∀ h ∈ hs, HeaderText h)
    (pre rest post : List Byte) {ar : ParseArchive} (hpos : ar.nextParsePos = some pre.length)
    (hst : ar.state = .hdBegin) (hmarks : hs = [] → ar.MarksOk) {fuel : Nat}
    (hfuel : hs.length < fuel) :
    splitHeaders fuel (pre ++ ((hs.flatMap headerBytes ++ (crlf ++ rest)) ++ post)) pre.length
      (hs.flatMap headerBytes ++ (crlf ++ rest)).length ar = .ok (hs, CRLF_LINE, rest.length) := by
  induction hs generalizing pre ar fuel with
  | nil =>
    obtain ⟨fuel, rfl⟩ := Nat.exists_eq_succ_of_ne_zero (Nat.ne_zero_of_lt hfuel)
    obtain ⟨r, hr, hcode, hend, -⟩ := parseHeaderLine_blank pre post HeaderLine.blank_nil
      (List.prefix_append crlf rest) le_rfl hpos hst (hmarks rfl)
    have hlen : r.len = crlf.length := by
      rw [hend.consumed, Nat.sub_self, Nat.zero_add]
      rfl
    rw [Nat.sub_self, Nat.zero_add] at hr
    rw [List.flatMap_nil, List.nil_append, splitHeaders, hr, Run.ok_bind,
      if_neg (by rw [hcode]; decide), hcode, hlen, List.length_append, Nat.add_sub_cancel_left]
    rfl
  | cons h hs ih =>
    obtain ⟨fuel, rfl⟩ := Nat.exists_eq_succ_of_ne_zero (Nat.ne_zero_of_lt hfuel)
    have ht := hhs h List.mem_cons_self
    -- what is behind the first line
    obtain ⟨m, hm⟩ : ∃ m, m = hs.flatMap headerBytes ++ (crlf ++ rest) := ⟨_, rfl⟩
    have hsplit : (h :: hs).flatMap headerBytes ++ (crlf ++ rest) = ht.line.bytes ++ m := by
      rw [List.flatMap_cons, List.append_assoc, hm, ht.bytes_line]
    have hmem : pre ++ (ht.line.bytes ++ m ++ post) = pre ++ ht.line.bytes ++ (m ++ post) := by
      simp only [List.append_assoc]
    obtain ⟨r, hr, hcode, hend, har⟩ := parseHeaderLine_header pre post
      (List.prefix_append ht.line.bytes m) le_rfl hpos hst
    have hlen : r.len = ht.line.bytes.length := by
      rw [hend.consumed, Nat.sub_self, Nat.zero_add]
    have hname : r.ar.headerName.bytes (pre ++ (ht.line.bytes ++ (m ++ post))) = h.1 := by
      rw [har]
      exact ht.line.name_bytes pre _
    have hval : r.ar.headerVal.bytes (pre ++ (ht.line.bytes ++ (m ++ post))) = h.2 := by
      rw [har]
      exact ht.line.val_bytes pre _
    have hmarks' : r.ar.MarksOk := by
      rw [har]
      constructor
      · show pre.length + ht.line.lead.length ≤
          pre.length + ht.line.lead.length + ht.line.name.length
        omega
      · show pre.length + ht.line.valOffset ≤ pre.length + ht.line.valOffset + ht.line.val.length
        omega
    rw [Nat.sub_self, Nat.zero_add] at hr
    have hrest := ih (fun h' hh' => hhs h' (List.mem_cons_of_mem h hh')) (pre ++ ht.line.bytes)
      (show r.ar.nextParsePos = some _ by rw [hend.nextParsePos, List.length_append]) hend.state
      (fun _ => hmarks') (Nat.lt_of_succ_lt_succ hfuel)
    rw [← hm, List.length_append, List.append_assoc] at hrest
    rw [hsplit, splitHeaders, hr, Run.ok_bind, if_pos hcode, hlen, List.length_append,
      Nat.add_sub_cancel_left, List.append_assoc, hrest, Run.ok_bind, hname, hval]
    rfl

/-- What `strftime` writes for `%a, %d %b %Y %H:%M:%S`: one line, that begins with a weekday. -/
structure FormattedDate (date : List Byte) : Prop where
  one_line : ∀ c ∈ date, isNewline c = false
  weekday : ∃ day ∈ ["Sun", "Mon", "Tue", "Wed", "Thu", "Fri", "Sat"], str day <+: date

/-- The value of `Connection`. -/
def connectionValue (env : Env) (r : Request) (conn : Connection) : List Byte :=
  if env.now - conn.timeOnConnect > env.connectTimeLimit then str "close"
  else if r.par.keepAlive then str "keep-alive"
  else str "close"

/-- The headers of a response, with their values. -/
def writtenHeaders (env : Env) (s : WebSession) : List (List Byte × List Byte) :=
  [(str "Date", env.date env.now ++ str " GMT"), (str "Server", str "mwebser/0.1"),
    (str "Content-Type", contentType s.readMem s.handler),
    (str "Content-Length", str (toString s.handler.resourceSize)),
    (str "Connection", connectionValue env s.handler s.conn)] ++
    if s.handler.par.keepAlive then
      [(str "Keep-Alive", str "timeout=" ++ (str (toString env.timeoutKeepAlive) ++ str ", max=1"))]
    else []

variable {env : Env} {s : WebSession}

theorem FormattedDate.value {date : List Byte} (h : FormattedDate date) : HeaderValue date := by
  obtain ⟨day, hday, rest, rfl⟩ := h.weekday
  have hweek : ∀ day ∈ ["Sun", "Mon", "Tue", "Wed", "Thu", "Fri", "Sat"], HeaderValue (str day) := by
    decide +kernel
  exact (hweek day hday).append fun c hc => h.one_line c (List.mem_append_right _ hc)

/-- Every type of the table can stand in a header. -/
theorem headerValue_contentType (mem : Mem) (r : Request) : HeaderValue (contentType mem r) := by
  have hmime : ∀ e ∈ mimeList, HeaderValue (str e.2) := by decide +kernel
  have hhtml : HeaderValue (str "text/html") := by decide +kernel
  unfold contentType
  split_ifs
  · exact hhtml
  · cases hget : (mimeDict.get mem r.par.url.mimeExtension).1 with
    | none => exact hhtml
    | some v =>
      obtain ⟨k, hput⟩ := Dict.mem_of_get_build hget
      obtain ⟨e, he, heq⟩ := List.mem_map.1 hput
      obtain rfl : str e.2 = v := Option.some.inj (congrArg Prod.snd heq)
      exact hmime e he

theorem str_append (a b : String) : str (a ++ b) = str a ++ str b := by
  unfold str
  rw [String.toList_append, List.map_append]

/-- What `%d` writes is one line. -/
theorem str_toString_one_line (n : Int) : ∀ c ∈ str (toString n), isNewline c = false := by
  intro c hc
  have hdigits : ∀ m : Nat, c ∈ str (toString (m : Int)) → isNewline c = false := fun m hm =>
    forall_byte (P := fun c => isDigit c = true → isNewline c = false) (by decide +kernel) c
      (isDigit_of_mem_str hm)
  cases n with
  | ofNat m => exact hdigits m hc
  | negSucc m =>
    have hsign : str (toString (Int.negSucc m)) = chr '-' :: str (toString ((m + 1 : Nat) : Int)) := by
      rw [show toString (Int.negSucc m) = "-" ++ (m + 1).repr from rfl, str_append]
      rfl
    rw [hsign] at hc
    rcases List.mem_cons.1 hc with rfl | hc
    · decide
    · exact hdigits (m + 1) hc

/-- **The headers of a response can be read.** -/
theorem headerText_written (hsize : 0 ≤ s.handler.resourceSize)
    (hdate : FormattedDate (env.date env.now)) : ∀ h ∈ writtenHeaders env s, HeaderText h := by
  have hlength : HeaderValue (str (toString s.handler.resourceSize)) := by
    obtain ⟨n, hn⟩ := Int.eq_ofNat_of_zero_le hsize
    obtain ⟨d, ds, hds⟩ := List.exists_cons_of_ne_nil (str_toString_ne_nil n)
    have hd : isDigit d = true := isDigit_of_mem_str (n := n) (by rw [hds]; exact List.mem_cons_self)
    rw [hn]
    refine ⟨str_toString_one_line n, d, by rw [hds]; rfl, ?_⟩
    exact forall_byte (P := fun c => isDigit c = true → isBlank c = false) (by decide +kernel) d hd
  have hconnection : HeaderValue (connectionValue env s.handler s.conn) := by
    unfold connectionValue
    split_ifs <;> decide +kernel
  have htimeout : HeaderValue
      (str "timeout=" ++ (str (toString env.timeoutKeepAlive) ++ str ", max=1")) := by
    refine HeaderValue.append (by decide +kernel) fun c hc => ?_
    rcases List.mem_append.1 hc with hc | hc
    · exact str_toString_one_line _ c hc
    · exact (show ∀ c ∈ str ", max=1", isNewline c = false by decide +kernel) c hc
  have hbase : ∀ h ∈ [(str "Date", env.date env.now ++ str " GMT"), (str "Server", str "mwebser/0.1"),
      (str "Content-Type", contentType s.readMem s.handler),
      (str "Content-Length", str (toString s.handler.resourceSize)),
      (str "Connection", connectionValue env s.handler s.conn)], HeaderText h := by
    simp only [List.forall_mem_cons, List.not_mem_nil, IsEmpty.forall_iff, implies_true, and_true]
    have hgmt : ∀ c ∈ str " GMT", isNewline c = false := by decide +kernel
    have hserver : HeaderValue (str "mwebser/0.1") := by decide +kernel
    exact ⟨(hdate.value.append hgmt).text (by decide +kernel), hserver.text (by decide +kernel),
      (headerValue_contentType _ _).text (by decide +kernel), hlength.text (by decide +kernel),
      hconnection.text (by decide +kernel)⟩
  intro h hh
  rcases List.mem_append.1 hh with hh | hh
  · exact hbase h hh
  · split_ifs at hh
    · obtain rfl := List.mem_singleton.1 hh
      exact htimeout.text (by decide +kernel)
    · cases hh

/-! ## The head of a response -/

namespace Session

/-- The status line of a response with a file, without its end. -/
def okLine (r : Request) : List Byte :=
  (if r.par.version.httpMajor = 1 then str "HTTP/1.1 " else str "HTTP/1.0 ") ++ str "200 OK"

/-- A line that begins with the name, the colon and the space. -/
theorem headerBytes_eq {start name : List Byte} (hstart : start = name ++ str ": ") (val : List Byte) :
    start ++ (val ++ crlf) = headerBytes (name, val) := by
  rw [hstart, List.append_assoc]
  rfl

theorem dateLine_eq (env : Env) :
    dateLine env = headerBytes (str "Date", env.date env.now ++ str " GMT") := by
  rw [← headerBytes_eq (show str "Date: " = str "Date" ++ str ": " by decide +kernel),
    List.append_assoc]
  rfl

theorem connectionLine_eq (env : Env) (r : Request) (conn : Connection) :
    connectionLine env r conn = headerBytes (str "Connection", connectionValue env r conn) := by
  unfold connectionLine connectionValue
  split_ifs <;> decide +kernel

theorem timeoutLine_eq (env : Env) (r : Request) (h : r.par.keepAlive = true) :
    timeoutLine env r = headerBytes (str "Keep-Alive",
      str "timeout=" ++ (str (toString env.timeoutKeepAlive) ++ str ", max=1")) := by
  unfold timeoutLine
  rw [if_pos h,
    ← headerBytes_eq (show str "Keep-Alive: " = str "Keep-Alive" ++ str ": " by decide +kernel),
    show str "Keep-Alive: timeout=" = str "Keep-Alive: " ++ str "timeout=" by decide +kernel]
  simp only [List.append_assoc]

theorem statusTable_ok : statusTable 200 = .ok (some (str "200 OK")) := by
  have hlookup : httpStatusMap.lookup 200 = some "OK" := by decide +kernel
  have htext : str (toString (200 : Int) ++ " " ++ "OK") = str "200 OK" := by
    rw [str_append, str_append, show (200 : Int) = ((200 : Nat) : Int) from rfl, str_toString]
    decide +kernel
  unfold statusTable
  rw [if_pos (by decide), hlookup, Option.map_some, htext]

theorem statusLine_eq {r : Request} (h : r.statusCode = 200) :
    statusLine r = .ok (okLine r ++ crlf) := by
  unfold statusLine okLine
  rw [h, statusTable_ok, Run.ok_bind, List.append_assoc]
  rfl

/-- **What the eight functions write.** -/
theorem headLines_written (env : Env) (hstatus : s.handler.statusCode = 200)
    (hsize : 0 ≤ s.handler.resourceSize) :
    ∃ lines, s.headLines env = .ok lines ∧ lines.flatten =
      okLine s.handler ++ (crlf ++ ((writtenHeaders env s).flatMap headerBytes ++ crlf)) := by
  have hserver : serverLine = headerBytes (str "Server", str "mwebser/0.1") := by decide +kernel
  have htype : contentTypeLine s.readMem s.handler =
      headerBytes (str "Content-Type", contentType s.readMem s.handler) :=
    headerBytes_eq (by decide +kernel) _
  have hlength : contentLengthLine s.handler =
      headerBytes (str "Content-Length", str (toString s.handler.resourceSize)) := by
    unfold contentLengthLine
    rw [if_pos hsize]
    exact headerBytes_eq (by decide +kernel) _
  have htimeout : timeoutLine env s.handler = (if s.handler.par.keepAlive then
      [(str "Keep-Alive", str "timeout=" ++ (str (toString env.timeoutKeepAlive) ++ str ", max=1"))]
      else []).flatMap headerBytes := by
    by_cases h : s.handler.par.keepAlive = true
    · rw [timeoutLine_eq env _ h, if_pos h]
      simp
    · unfold timeoutLine
      rw [if_neg h, if_neg h]
      rfl
  unfold headLines
  rw [statusLine_eq hstatus]
  refine ⟨_, rfl, ?_⟩
  unfold writtenHeaders
  rw [hlength, htype, hserver, htimeout, dateLine_eq, connectionLine_eq]
  simp only [List.flatten_cons, List.flatten_nil, List.flatMap_append, List.flatMap_cons,
    List.flatMap_nil, List.append_assoc, List.append_nil]

/-- There are more bytes than lines. -/
theorem length_lt_text (hs : List (List Byte × List Byte)) :
    hs.length < (hs.flatMap headerBytes ++ crlf).length := by
  induction hs with
  | nil => decide
  | cons h hs ih =>
    have hline : (headerBytes h).length = h.1.length + (2 + (h.2.length + 2)) := by
      unfold headerBytes
      simp only [List.length_append]
      rfl
    rw [List.flatMap_cons, List.append_assoc, List.length_append, List.length_cons, hline]
    omega

end Session

end MWebServer
