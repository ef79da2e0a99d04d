import MWebServer.Web.Handled

/-!
# The header section (`request_handle_headers`)

`headerSection hs` is a list of header lines with the empty line behind it.  One
line is read by `parse_header_line`, its name is put into lower case where it
stands, and the function found for it stores the slice of the value
(`handleHeaderLine_spec`).  `Recorded` is what the slots hold after some lines; it
depends on the bytes in front of `next_parse_pos` only, which no later line changes.

The loop of `request_handle_headers` stops after a line whose function does not
answer `OK`, and the loop of `http_request` calls it again; the line it then begins
with is the next one (`requestHandleHeaders_lines`, `lines_reach_tail`).  A property that
every single line keeps holds behind the last one (`KeptByLines`), and an empty line there
leads to the body (`headers_reach_body_rule`).
-/

namespace MWebServer

/-! ## The header section -/

/-- The end of the section is an empty line. -/
def headerSection (hs : List HeaderLine) : List Byte := hs.flatMap HeaderLine.bytes ++ crlf

/-- The lines alone. -/
def headerLines (hs : List HeaderLine) : List Byte := hs.flatMap HeaderLine.bytes

theorem headerLines_cons (l : HeaderLine) (hs : List HeaderLine) :
    headerLines (l :: hs) = l.bytes ++ headerLines hs := List.flatMap_cons

theorem headerSection_eq (hs : List HeaderLine) : headerSection hs = headerLines hs ++ crlf := rfl

namespace HeaderLine

/-- The name in lower case. -/
def key (l : HeaderLine) : List Byte := l.name.map toLower

/-- The line with its name in lower case. -/
def lowered (l : HeaderLine) : List Byte :=
  l.lead ++ (l.key ++ chr ':' :: (l.gap ++ (l.val ++ [chr '\r', chr '\n'])))

theorem lowered_length (l : HeaderLine) : l.lowered.length = l.bytes.length := by
  simp [lowered, bytes, key]

/-- The line up to its value, and behind it. -/
theorem lowered_split (l : HeaderLine) (pre post : List Byte) : ∃ front : List Byte,
    pre.length + l.valOffset = front.length ∧
      pre ++ (l.lowered ++ post) = front ++ (l.val ++ chr '\r' :: chr '\n' :: post) := by
  refine ⟨pre ++ (l.lead ++ (l.key ++ chr ':' :: l.gap)), ?_, by simp [lowered]⟩
  simp only [valOffset, key, List.length_append, List.length_cons, List.length_map]
  omega

end HeaderLine

/-- The header a slot is for. -/
def HeaderSlot.headerName : HeaderSlot → String
  | .cacheControl => "cache-control"
  | .connection => "connection"
  | .date => "date"
  | .transferEncoding => "transfer-encoding"
  | .accept => "accept"
  | .acceptCharset => "accept-charset"
  | .acceptEncoding => "accept-encoding"
  | .acceptLanguage => "accept-language"
  | .cookie => "cookie"
  | .host => "host"
  | .ifModifiedSince => "if-modified-since"
  | .ifUnmodifiedSince => "if-unmodified-since"
  | .maxForwards => "max-forwards"
  | .range => "range"
  | .referer => "referer"
  | .userAgent => "user-agent"
  | .contentLength => "content-length"

/-- The value of the last header a slot is for. -/
def lastValue (slot : HeaderSlot) (hs : List HeaderLine) : Option (List Byte) :=
  (hs.reverse.find? fun l => l.key = str slot.headerName).map HeaderLine.val

theorem lastValue_append (slot : HeaderSlot) (hs : List HeaderLine) (l : HeaderLine) :
    lastValue slot (hs ++ [l]) =
      if l.key = str slot.headerName then some l.val else lastValue slot hs := by
  unfold lastValue
  rw [List.reverse_append, List.reverse_singleton, List.singleton_append, List.find?_cons]
  by_cases h : l.key = str slot.headerName <;> simp [h]

/-! ## The table of functions -/

/-- Every entry of `hf_list` stores under the slot of its name, and the functions that read a
slot back read the one they store in. -/
theorem hfList_offset : ∀ hf ∈ hfList, str hf.hd = str hf.offset.headerName ∧
    (hf.func = .connection → hf.offset = .connection) ∧
    (hf.func = .contentLength → hf.offset = .contentLength) ∧
    (hf.func = .transferEncoding → hf.offset = .transferEncoding) := by
  simp [hfList, HeaderSlot.headerName]

/-- Every slot has an entry. -/
theorem exists_hfList (slot : HeaderSlot) : ∃ hf ∈ hfList, hf.offset = slot := by
  cases slot <;> decide +kernel

theorem headerName_injective {a b : HeaderSlot} (h : str a.headerName = str b.headerName) :
    a = b := by
  have hnames : (hfList.map fun hf => str hf.hd).Nodup := by decide +kernel
  obtain ⟨hf, hmem, rfl⟩ := exists_hfList a
  obtain ⟨hf', hmem', rfl⟩ := exists_hfList b
  rw [← (hfList_offset hf hmem).1, ← (hfList_offset hf' hmem').1] at h
  rw [List.inj_on_of_nodup_map hnames hmem hmem' h]

/-- **What `dict_get` finds in `header_handler_dict`.** -/
theorem headerHandlerDict_get {mem : Mem} {key : Ssstr} (hkey : Dict.KeyOk mem key) :
    match (headerHandlerDict.get mem key).1 with
    | some hf => hf ∈ hfList ∧ str hf.hd = key.bytes mem
    | none => ∀ hf ∈ hfList, str hf.hd ≠ key.bytes mem := by
  have hbuild : headerHandlerDict =
      Dict.build mem (hfList.map fun hf => (Ssstr.ofLit hf.hd, some hf)) := by
    refine Dict.build_congr fun p hp => ?_
    obtain ⟨hf, -, rfl⟩ := List.mem_map.1 hp
    simp [lotosHash, Ssstr.hashSdbm]
  have hputs : ∀ p ∈ hfList.map (fun hf => (Ssstr.ofLit hf.hd, some hf)), Dict.KeyOk mem p.1 := by
    intro p hp
    obtain ⟨hf, -, rfl⟩ := List.mem_map.1 hp
    exact ⟨rfl, fun h => by cases h⟩
  rw [hbuild, Dict.get_build hputs hkey]
  cases hfind : (hfList.map fun hf => (Ssstr.ofLit hf.hd, some hf)).reverse.find?
      (fun p => p.1.bytes mem = key.bytes mem) with
  | none =>
    intro hf hmem heq
    have := List.find?_eq_none.1 hfind (Ssstr.ofLit hf.hd, some hf)
      (List.mem_reverse.2 (List.mem_map.2 ⟨hf, hmem, rfl⟩))
    simp [heq] at this
  | some p =>
    obtain ⟨hf, hmem, rfl⟩ := List.mem_map.1 (List.mem_reverse.1 (List.mem_of_find?_eq_some hfind))
    exact ⟨hmem, by simpa using List.find?_some hfind⟩

/-! ## One header -/

variable {beyond : List Byte}

/-- What a handler function leaves behind: the slice is stored, and beyond the slots only
`keep_alive` and `content_length` may differ. -/
def Stored (hf : HeaderFunc) (ar ar' : ParseArchive) : Prop :=
  ∃ keepAlive contentLength, ar' =
    { requestHandleHdBase hf ar with keepAlive := keepAlive, contentLength := contentLength }

theorem caseequalAny_ok {mem : Mem} {off : Nat} (len : Nat) (hcr : chr '\r' ∈ mem.drop off) :
    ∀ (ws : List (List Byte)), (∀ w ∈ ws, ∀ d ∈ w, toLower (chr '\r') ≠ toLower d) →
      ∃ b, caseequalAny mem (.slice off len) ws = .ok b
  | [], _ => ⟨false, rfl⟩
  | w :: ws, hws => by
    obtain ⟨b, hb⟩ := Ssstr.caseequal_ok len hcr (hws w (by simp))
    obtain ⟨b', hb'⟩ := caseequalAny_ok len hcr ws fun w hw => hws w (by simp [hw])
    cases b with
    | true => exact ⟨true, by simp [caseequalAny, hb]⟩
    | false => exact ⟨b', by simp [caseequalAny, hb, hb']⟩

/-- **A handler function returns** on a value that a carriage return ends, and stores it. -/
theorem call_spec {mem : Mem} {hf : HeaderFunc} (hmem : hf ∈ hfList) {ar : ParseArchive}
    {off len : Nat} (hval : ar.headerVal = .slice off len) (hcr : chr '\r' ∈ mem.drop off) :
    ∃ status ar', hf.call beyond mem ar = .ok (status, ar') ∧ Stored hf ar ar' := by
  obtain ⟨-, hconn, hlen, hte⟩ := hfList_offset hf hmem
  have hslot : (requestHandleHdBase hf ar).reqHeaders hf.offset = .slice off len := by
    simp [requestHandleHdBase, hval]
  have hbase : Stored hf ar (requestHandleHdBase hf ar) := ⟨_, _, rfl⟩
  unfold HeaderFunc.call
  cases hfunc : hf.func with
  | base => exact ⟨OK, _, rfl, hbase⟩
  | connection =>
    obtain ⟨keep, hkeep⟩ := Ssstr.caseequal_ok len hcr
      (show ∀ d ∈ str "keep-alive", _ by decide +kernel)
    obtain ⟨close, hclose⟩ := Ssstr.caseequal_ok len hcr
      (show ∀ d ∈ str "close", _ by decide +kernel)
    rw [hconn hfunc] at hslot
    simp only [requestHandleHdConnection, hslot, hkeep, Run.ok_bind]
    cases keep with
    | true => exact ⟨_, _, rfl, ⟨_, _, rfl⟩⟩
    | false =>
      simp only [Bool.false_eq_true, if_false, hclose, Run.ok_bind]
      cases close with
      | true => exact ⟨_, _, rfl, ⟨_, _, rfl⟩⟩
      | false => exact ⟨_, _, rfl, hbase⟩
  | contentLength =>
    rw [hlen hfunc] at hslot
    simp only [requestHandleHdContentLength, hslot, Ssstr.slice, CharPtr.tail, Run.ok_bind]
    split_ifs
    · exact ⟨_, _, rfl, hbase⟩
    · exact ⟨_, _, rfl, ⟨_, _, rfl⟩⟩
  | transferEncoding =>
    obtain ⟨known, hknown⟩ := caseequalAny_ok len hcr [str "chunked",
      str "compress", str "deflate", str "gzip", str "identity"] (by decide +kernel)
    rw [hte hfunc] at hslot
    simp only [requestHandleHdTransferEncoding, hslot, hknown, Run.ok_bind]
    cases known <;> exact ⟨_, _, rfl, hbase⟩

/-- `keep_alive` and `content_length` are set by one function each. -/
theorem call_fields {mem : Mem} {hf : HeaderFunc} {ar : ParseArchive} {r : Int × ParseArchive}
    (h : hf.call beyond mem ar = .ok r) :
    (hf.func ≠ .connection → r.2.keepAlive = ar.keepAlive) ∧
      (hf.func ≠ .contentLength → r.2.contentLength = ar.contentLength) := by
  cases call_answers h with
  | recorded func => exact ⟨fun _ => rfl, fun _ => rfl⟩
  | keepAlive func b => exact ⟨fun hne => absurd func hne, fun _ => rfl⟩
  | contentLength func digits pos => exact ⟨fun _ => rfl, fun hne => absurd func hne⟩
  | refused status code => exact ⟨fun _ => rfl, fun _ => rfl⟩

/-- The slots after a header: the slot of its name holds the slice of its value. -/
def recordHeader (l : HeaderLine) (val : Ssstr) (headers : RequestHeaders) : RequestHeaders :=
  fun slot => if l.key = str slot.headerName then val else headers slot

theorem Stored.recordHeader {hf : HeaderFunc} (hmem : hf ∈ hfList) {l : HeaderLine}
    (hkey : str hf.hd = l.key) {ar ar' : ParseArchive} (h : Stored hf ar ar') :
    ar'.reqHeaders = recordHeader l ar.headerVal ar.reqHeaders := by
  obtain ⟨keepAlive, contentLength, rfl⟩ := h
  funext slot
  have hslot : l.key = str slot.headerName ↔ slot = hf.offset := by
    rw [← hkey, (hfList_offset hf hmem).1]
    exact ⟨fun h => (headerName_injective h).symm, fun h => by rw [h]⟩
  unfold MWebServer.recordHeader
  by_cases hs : slot = hf.offset
  · rw [if_pos (hslot.2 hs), hs]
    exact Function.update_self _ _ _
  · rw [if_neg (mt hslot.1 hs)]
    exact Function.update_of_ne hs _ _

/-- What a header line leaves of the archive, beside the slots. -/
structure SameLine (ar ar' : ParseArchive) : Prop where
  nextParsePos : ar'.nextParsePos = ar.nextParsePos
  state : ar'.state = ar.state
  marks : ar'.marks = ar.marks
  transferEncoding : ar'.transferEncoding = ar.transferEncoding

theorem Stored.sameLine {hf : HeaderFunc} {ar ar' : ParseArchive} (h : Stored hf ar ar') :
    SameLine ar ar' := by
  obtain ⟨keepAlive, contentLength, rfl⟩ := h
  exact ⟨rfl, rfl, rfl, rfl⟩

section Line

variable {pre post : List Byte} {l : HeaderLine} {ar : ParseArchive}

/-- The name of a line, put into lower case. -/
theorem tolower_line (hname : ar.headerName = .slice (pre.length + l.lead.length) l.name.length) :
    ar.headerName.tolower (pre ++ (l.bytes ++ post)) = .ok (pre ++ (l.lowered ++ post)) := by
  let tail := chr ':' :: (l.gap ++ (l.val ++ [chr '\r', chr '\n'])) ++ post
  have hsplit : pre ++ (l.bytes ++ post) = (pre ++ l.lead) ++ (l.name ++ tail) := by
    simp [HeaderLine.bytes, tail]
  have hbytes : ar.headerName.bytes (pre ++ (l.bytes ++ post)) = l.name := by
    rw [hname]
    exact l.name_bytes pre post
  have hoff : pre.length + l.lead.length = (pre ++ l.lead).length := by simp
  unfold Ssstr.tolower
  rw [hbytes, hname]
  refine memcpy_eq_ok.2 ⟨by positivity, ?_, ?_⟩
  · rw [hsplit]
    simp only [List.length_append, List.length_map]
    omega
  · rw [hsplit, hoff, Int.toNat_natCast, List.take_left, List.length_map, ← List.append_assoc _
      l.name, List.drop_left' (by simp; omega)]
    simp [HeaderLine.lowered, HeaderLine.key, tail]

theorem cr_mem_val (pre : List Byte) (l : HeaderLine) (post : List Byte) :
    chr '\r' ∈ (pre ++ (l.lowered ++ post)).drop (pre.length + l.valOffset) := by
  obtain ⟨front, hfront, hmem⟩ := l.lowered_split pre post
  rw [hmem, hfront, List.drop_left]
  simp

/-- A line with its name in lower case, and the function found for it. -/
theorem handleHeaderLine_eq (ar : ParseArchive)
    (hname : ar.headerName = .slice (pre.length + l.lead.length) l.name.length) :
    ((∀ hf ∈ hfList, str hf.hd ≠ l.key) ∧ handleHeaderLine beyond (pre ++ (l.bytes ++ post)) ar =
        .ok (pre ++ (l.lowered ++ post), OK, ar)) ∨
      ∃ hf ∈ hfList, str hf.hd = l.key ∧ handleHeaderLine beyond (pre ++ (l.bytes ++ post)) ar =
        hf.call beyond (pre ++ (l.lowered ++ post)) ar >>=
          fun r => .ok (pre ++ (l.lowered ++ post), r.1, r.2) := by
  have hsplit : pre ++ (l.lowered ++ post) = (pre ++ l.lead) ++
      (l.key ++ (chr ':' :: (l.gap ++ (l.val ++ [chr '\r', chr '\n'])) ++ post)) := by
    simp [HeaderLine.lowered]
  have hkeylen : l.key.length = l.name.length := by simp [HeaderLine.key]
  have hbytes : ar.headerName.bytes (pre ++ (l.lowered ++ post)) = l.key := by
    rw [hname, Ssstr.bytes_slice, hsplit, ← List.length_append, List.drop_left, ← hkeylen,
      List.take_left]
  have hkey : Dict.KeyOk (pre ++ (l.lowered ++ post)) ar.headerName := by
    rw [hname]
    refine ⟨⟨Int.natCast_nonneg _, ?_⟩, fun h => by cases h⟩
    rw [hsplit]
    simp only [List.length_append, hkeylen, Ssstr.slice]
    omega
  have hget := headerHandlerDict_get hkey
  rw [hbytes] at hget
  unfold handleHeaderLine
  rw [tolower_line hname, Run.ok_bind]
  cases hfind : (headerHandlerDict.get (pre ++ (l.lowered ++ post)) ar.headerName).1 with
  | none =>
    rw [hfind] at hget
    exact Or.inl ⟨hget, rfl⟩
  | some hf =>
    rw [hfind] at hget
    exact Or.inr ⟨hf, hget.1, hget.2, rfl⟩

/-- A line is handled by the function `fn` of a slot if it has the name of the slot, and by another
function or none if it has not. -/
theorem handleHeaderLine_by {fn : HeaderHandleMethod} {slot : HeaderSlot} {key : List Byte}
    (hslot : str slot.headerName = key) (hfn : ∀ hf ∈ hfList, hf.func = fn ↔ str hf.hd = key)
    {ar' : ParseArchive} {mem : Mem} {status : Int}
    (hname : ar.headerName = .slice (pre.length + l.lead.length) l.name.length)
    (h : handleHeaderLine beyond (pre ++ (l.bytes ++ post)) ar = .ok (mem, status, ar')) :
    (l.key = key ∧ ∃ hf ∈ hfList, hf.func = fn ∧
        hf.call beyond (pre ++ (l.lowered ++ post)) ar = .ok (status, ar')) ∨
      (l.key ≠ key ∧ (ar' = ar ∨ ∃ hf : HeaderFunc, hf.func ≠ fn ∧
        hf.call beyond (pre ++ (l.lowered ++ post)) ar = .ok (status, ar'))) := by
  rcases @handleHeaderLine_eq beyond pre post l ar hname with
    ⟨hnone, heq⟩ | ⟨hf, hmem, hfound, heq⟩
  · obtain ⟨hf, hmem, hoffset⟩ := exists_hfList slot
    have hkey : l.key ≠ key := by
      have hne := hnone hf hmem
      rw [(hfList_offset hf hmem).1, hoffset, hslot] at hne
      exact fun h => hne h.symm
    rw [heq] at h
    exact Or.inr ⟨hkey, Or.inl (congrArg (fun r : Mem × Int × ParseArchive => r.2.2)
      (Except.ok.inj h)).symm⟩
  · rw [heq] at h
    obtain ⟨⟨code, ar₁⟩, hcall, hok⟩ := Run.bind_eq_ok.1 h
    obtain ⟨-, hrest⟩ := Prod.mk.inj (Except.ok.inj hok)
    obtain ⟨rfl, rfl⟩ := Prod.mk.inj hrest
    by_cases hkey : l.key = key
    · exact Or.inl ⟨hkey, hf, hmem, (hfn hf hmem).2 (hfound.trans hkey), hcall⟩
    · exact Or.inr ⟨hkey, Or.inr ⟨hf, fun hc => hkey (hfound.symm.trans ((hfn hf hmem).1 hc)), hcall⟩⟩

/-- **One header line is handled**: its name is now in lower case, and the slot of its name, if
there is one, holds the slice of its value. -/
theorem handleHeaderLine_spec (ar : ParseArchive)
    (hname : ar.headerName = .slice (pre.length + l.lead.length) l.name.length)
    (hval : ar.headerVal = .slice (pre.length + l.valOffset) l.val.length) :
    ∃ status ar', handleHeaderLine beyond (pre ++ (l.bytes ++ post)) ar =
        .ok (pre ++ (l.lowered ++ post), status, ar') ∧ SameLine ar ar' ∧
      ar'.reqHeaders = recordHeader l ar.headerVal ar.reqHeaders ∧
      ((∀ hf ∈ hfList, str hf.hd ≠ l.key) → status = OK ∧ ar' = ar) := by
  rcases @handleHeaderLine_eq beyond pre post l ar hname with
    ⟨hnone, heq⟩ | ⟨hf, hmem, hkey, heq⟩
  · refine ⟨OK, ar, heq, ⟨rfl, rfl, rfl, rfl⟩, ?_, fun _ => ⟨rfl, rfl⟩⟩
    funext slot
    obtain ⟨hf, hmem, rfl⟩ := exists_hfList slot
    unfold recordHeader
    rw [if_neg fun h => hnone hf hmem (by rw [(hfList_offset hf hmem).1, h])]
  · obtain ⟨status, ar', hcall, hstored⟩ := call_spec hmem hval (cr_mem_val pre l post)
    exact ⟨status, ar', by rw [heq, hcall, Run.ok_bind], hstored.sameLine,
      hstored.recordHeader hmem hkey, fun hnone => absurd hkey (hnone hf hmem)⟩

end Line

/-! ## The slots after some lines -/

/-- What the slots hold after the lines `hs`, whose bytes end with `pre`: each the value of the
last header it is for. -/
def Recorded (pre : List Byte) (hs : List HeaderLine) (headers : RequestHeaders) : Prop :=
  ∀ slot, match lastValue slot hs with
    | none => headers slot = .init
    | some v => ∃ off len, headers slot = .slice off len ∧ off + len ≤ pre.length ∧
        (pre.drop off).take len = v

/-- Bytes behind `pre` do not matter. -/
theorem take_drop_append {α : Type} {pre x : List α} {off len : Nat} (h : off + len ≤ pre.length) :
    ((pre ++ x).drop off).take len = (pre.drop off).take len := by
  rw [List.drop_append_of_le_length (by omega), List.take_append_of_le_length (by simp; omega)]

/-- **One more line.** -/
theorem Recorded.step {pre : List Byte} {hs : List HeaderLine} {headers : RequestHeaders}
    (h : Recorded pre hs headers) (l : HeaderLine) :
    Recorded (pre ++ l.lowered) (hs ++ [l])
      (recordHeader l (.slice (pre.length + l.valOffset) l.val.length) headers) := by
  intro slot
  rw [lastValue_append]
  unfold recordHeader
  by_cases hkey : l.key = str slot.headerName
  · simp only [if_pos hkey]
    have hlen := l.bytes_length
    refine ⟨_, _, rfl, by rw [List.length_append, l.lowered_length]; omega, ?_⟩
    obtain ⟨front, hfront, hmem⟩ := l.lowered_split pre []
    rw [List.append_nil] at hmem
    rw [hmem, hfront, List.drop_left, List.take_left]
  · simp only [if_neg hkey]
    have hslot := h slot
    cases hlast : lastValue slot hs with
    | none => simpa [hlast] using hslot
    | some v =>
      simp only [hlast] at hslot
      obtain ⟨off, len, hslice, hle, hbytes⟩ := hslot
      exact ⟨off, len, hslice, by rw [List.length_append]; omega, by rw [take_drop_append hle, hbytes]⟩

/-- The slots, read from a buffer that begins with `pre`. -/
theorem Recorded.bytes {pre x : List Byte} {hs : List HeaderLine} {headers : RequestHeaders}
    (h : Recorded pre hs headers) (slot : HeaderSlot) :
    match lastValue slot hs with
    | none => headers slot = .init
    | some v => (headers slot).bytes (pre ++ x) = v := by
  have hslot := h slot
  cases hlast : lastValue slot hs with
  | none => simpa [hlast] using hslot
  | some v =>
    simp only [hlast] at hslot ⊢
    obtain ⟨off, len, hslice, hle, hbytes⟩ := hslot
    rw [hslice, Ssstr.bytes_slice, take_drop_append hle, hbytes]

/-! ## The loop of `request_handle_headers` -/

/-- The parser stands behind `pre`, in front of `tail`, and has recorded the lines `hs`. -/
structure AtLine (pre tail : List Byte) (hs : List HeaderLine) (mem : Mem) (ar : ParseArchive) :
    Prop where
  mem : mem = pre ++ tail
  nextParsePos : ar.nextParsePos = some pre.length
  state : ar.state = .hdBegin
  marks : ar.MarksOk
  transferEncoding : ar.transferEncoding = .identity
  recorded : Recorded pre hs ar.reqHeaders

theorem HeaderLine.archive_marksOk (l : HeaderLine) (p : Nat) (ar : ParseArchive) :
    (l.archive p ar).MarksOk := by
  constructor
  · show p + l.lead.length ≤ p + l.lead.length + l.name.length
    omega
  · show p + l.valOffset ≤ p + l.valOffset + l.val.length
    omega

/-- **One turn of the loop.**  A line is read and handled, and the parser stands behind it. -/
theorem AtLine.step {pre m post : List Byte} {done : List HeaderLine} {l : HeaderLine} {mem : Mem}
    {ar : ParseArchive} (h : AtLine pre (l.bytes ++ m ++ post) done mem ar) {msg : Nat}
    (hmsg : msg ≤ pre.length) :
    ∃ r status mem' ar',
      parseHeaderLine mem msg (pre.length - msg + (l.bytes ++ m).length) ar = .ok r ∧
      r.code = OK ∧ r.len = pre.length - msg + l.bytes.length ∧
      handleHeaderLine beyond mem r.ar = .ok (mem', status, ar') ∧
      AtLine (pre ++ l.lowered) (m ++ post) (done ++ [l]) mem' ar' := by
  obtain ⟨r, hr, hcode, hend, har⟩ := parseHeaderLine_header pre post
    (List.prefix_append l.bytes m) hmsg h.nextParsePos h.state
  obtain ⟨status, ar', hhandle, hsame, hheaders, -⟩ := handleHeaderLine_spec (l := l) r.ar
    (by rw [har]) (by rw [har])
  rw [h.mem]
  rw [← List.append_assoc l.bytes] at hhandle
  refine ⟨r, status, _, ar', hr, hcode, hend.consumed, hhandle, ⟨?_, ?_, ?_, ?_, ?_, ?_⟩⟩
  · rw [List.append_assoc]
  · rw [hsame.nextParsePos, hend.nextParsePos, List.length_append, l.lowered_length]
  · rw [hsame.state, hend.state]
  · refine marksOk_of_marks hsame.marks ?_
    rw [har]
    exact l.archive_marksOk pre.length ar
  · rw [hsame.transferEncoding, har]
    exact h.transferEncoding
  · rw [hheaders, har]
    exact h.recorded.step l

/-- It stands between two lines. -/
theorem AtLine.atStart {pre tail : List Byte} {hs : List HeaderLine} {mem : Mem} {ar : ParseArchive}
    (h : AtLine pre tail hs mem ar) : AtStart pre.length ar := ⟨h.nextParsePos, h.state, h.marks⟩

/-- A property of the lines read so far, the bytes behind them and the archive that a line keeps,
when it is read and handled.  What `parse_header_line` fills in for itself is none of its
business. -/
structure KeptByLines (beyond : List Byte)
    (P : List HeaderLine → List Byte → ParseArchive → Prop) : Prop where
  bare : ∀ {done : List HeaderLine} {behind : List Byte} {ar ar' : ParseArchive}, P done behind ar →
    ar'.bare = ar.bare → P done behind ar'
  line : ∀ {pre post : List Byte} {done : List HeaderLine} {l : HeaderLine}
    {ar ar' : ParseArchive} {mem : Mem} {status : Int}, P done (l.bytes ++ post) ar →
      ar.headerName = .slice (pre.length + l.lead.length) l.name.length →
      ar.headerVal = .slice (pre.length + l.valOffset) l.val.length →
      handleHeaderLine beyond (pre ++ (l.bytes ++ post)) ar = .ok (mem, status, ar') →
      P (done ++ [l]) post ar'

theorem keptByLines_true : KeptByLines beyond fun _ _ _ => True :=
  ⟨fun _ _ => trivial, fun _ _ _ _ => trivial⟩

theorem KeptByLines.and {P Q : List HeaderLine → List Byte → ParseArchive → Prop}
    (hP : KeptByLines beyond P) (hQ : KeptByLines beyond Q) :
    KeptByLines beyond fun done behind ar => P done behind ar ∧ Q done behind ar where
  bare h hbare := ⟨hP.bare h.1 hbare, hQ.bare h.2 hbare⟩
  line h hname hval hhandle := ⟨hP.line h.1 hname hval hhandle, hQ.line h.2 hname hval hhandle⟩

variable {P : List HeaderLine → List Byte → ParseArchive → Prop}

/-- One turn of the loop keeps the property. -/
theorem KeptByLines.step (hP : KeptByLines beyond P) {pre m post : List Byte} {done : List HeaderLine}
    {l : HeaderLine} {mem mem' : Mem} {ar ar' : ParseArchive}
    (h : AtLine pre (l.bytes ++ m ++ post) done mem ar) (hp : P done (l.bytes ++ m ++ post) ar)
    {msg : Nat} (hmsg : msg ≤ pre.length) {r : Parsed}
    (hr : parseHeaderLine mem msg (pre.length - msg + (l.bytes ++ m).length) ar = .ok r) {status : Int}
    (hhandle : handleHeaderLine beyond mem r.ar = .ok (mem', status, ar')) :
    P (done ++ [l]) (m ++ post) ar' := by
  have hbare := hP.bare hp (parseHeaderLine_bare hr)
  obtain ⟨r', hr', -, -, har⟩ := parseHeaderLine_header pre post (List.prefix_append l.bytes m)
    hmsg h.nextParsePos h.state
  rw [h.mem] at hr hhandle
  obtain rfl : r' = r := Run.ok_unique hr' hr
  rw [List.append_assoc l.bytes] at hhandle hbare
  exact hP.line hbare (by rw [har]) (by rw [har]) hhandle

/-- How the loop goes over the lines `hs` behind `done`, with `tail` behind them: it comes to `tail`
with turns left, or is left after the first line whose function does not answer `OK`.  The lines
end at `pos`. -/
inductive LinesRead (beyond : List Byte) (P : List HeaderLine → List Byte → ParseArchive → Prop)
    (tail post : List Byte) (done hs : List HeaderLine) (pos : Nat) : Except Fault (HeaderExit × Mem × ParseArchive) → Prop
  | all {fuel pre mem ar msg}
      (length : pre.length = pos)
      (line : AtLine pre (tail ++ post) (done ++ hs) mem ar)
      (kept : P (done ++ hs) (tail ++ post) ar)
      (msg_le : msg ≤ pre.length) :
      LinesRead beyond P tail post done hs pos
        (headerLoop beyond (fuel + 1) mem msg (pre.length - msg + tail.length) ar)
  | refused {pre l} (hs₁) {hs₂ mem ar}
      (split : hs = hs₁ ++ l :: hs₂)
      (length : pre.length + (headerLines hs₂).length = pos)
      (line : AtLine pre (headerLines hs₂ ++ tail ++ post) (done ++ hs₁ ++ [l]) mem ar)
      (kept : P (done ++ hs₁ ++ [l]) (headerLines hs₂ ++ tail ++ post) ar) :
      LinesRead beyond P tail post done hs pos (.ok (.ret OK, mem, ar))

/-- **The loop reads the lines** up to the last one, or to one that is refused. -/
theorem headerLoop_lines (hP : KeptByLines beyond P) {tail post : List Byte} (hs : List HeaderLine) :
    ∀ {fuel : Nat} {pre : List Byte} {done : List HeaderLine} {mem : Mem} {ar : ParseArchive}
      {msg : Nat}, AtLine pre (headerLines hs ++ tail ++ post) done mem ar →
      P done (headerLines hs ++ tail ++ post) ar → msg ≤ pre.length → hs.length < fuel →
      LinesRead beyond P tail post done hs (pre.length + (headerLines hs).length)
        (headerLoop beyond fuel mem msg (pre.length - msg + (headerLines hs ++ tail).length) ar) := by
  induction hs with
  | nil =>
    intro fuel pre done mem ar msg h hp hmsg hfuel
    obtain ⟨fuel, rfl⟩ : ∃ n, fuel = n + 1 := ⟨fuel - 1, by simp at hfuel; omega⟩
    exact .all rfl (by simpa [headerLines] using h) (by simpa [headerLines] using hp) hmsg
  | cons l hs ih =>
    intro fuel pre done mem ar msg h hp hmsg hfuel
    obtain ⟨fuel, rfl⟩ : ∃ n, fuel = n + 1 := ⟨fuel - 1, by simp at hfuel; omega⟩
    rw [headerLines_cons, List.append_assoc l.bytes] at h hp ⊢
    obtain ⟨r, status, mem', ar', hr, hcode, hlen, hhandle, hline⟩ := h.step hmsg
    have hkept := hP.step h hp hmsg hr hhandle
    have hpos : (pre ++ l.lowered).length + (headerLines hs).length =
        pre.length + (l.bytes ++ headerLines hs).length := by
      simp only [List.length_append, l.lowered_length]
      omega
    rw [headerLoop, hr, Run.ok_bind, hcode]
    have hagain : ¬ OK = AGAIN := by decide
    have hinv : ¬ OK = INVALID_REQUEST := by decide
    have hcrlf : ¬ OK = CRLF_LINE := by decide
    rw [if_neg hagain, if_neg hinv, if_neg hcrlf, hhandle, Run.ok_bind]
    simp only
    by_cases hstatus : status = OK
    · -- the loop goes on behind the line
      rw [if_neg (not_not_intro hstatus)]
      have hpre : (pre ++ l.lowered).length = msg + r.len := by
        rw [List.length_append, l.lowered_length, hlen]
        omega
      have hleft : pre.length - msg + (l.bytes ++ (headerLines hs ++ tail)).length - r.len =
          (pre ++ l.lowered).length - (msg + r.len) + (headerLines hs ++ tail).length := by
        rw [hpre, hlen, List.length_append]
        omega
      have hend := ih hline hkept hpre.ge (by simpa using hfuel : hs.length < fuel)
      rw [hleft]
      rw [hpos] at hend
      generalize headerLoop beyond fuel mem' (msg + r.len) _ ar' = x at hend ⊢
      cases hend with
      | all hlength hat hkept' hmsg' =>
        exact .all hlength (by simpa using hat) (by simpa using hkept') hmsg'
      | refused hs₁ hsplit hlength hat hkept' =>
        exact .refused (l :: _) (by rw [hsplit]; rfl) hlength (by simpa using hat)
          (by simpa using hkept')
    · rw [if_pos hstatus]
      exact .refused [] rfl hpos (by simpa using hline) (by simpa using hkept)

theorem length_le_headerLines (hs : List HeaderLine) : hs.length ≤ (headerLines hs).length := by
  induction hs with
  | nil => simp
  | cons l hs ih =>
    have := l.bytes_length
    rw [headerLines_cons, List.length_append, List.length_cons]
    omega

theorem length_le_headerSection (hs : List HeaderLine) : hs.length ≤ (headerSection hs).length := by
  have := length_le_headerLines hs
  rw [headerSection_eq, List.length_append]
  omega

/-! ## `request_handle_headers` -/

namespace Session

variable {env : Env}

/-- The handler is about to read the lines `hs`, after the lines `done`. -/
structure AtHeader (s : WebSession) (pre : List Byte) (done hs : List HeaderLine)
    (body post : List Byte) : Prop where
  reqHandler : s.handler.reqHandler = some .headers
  start : ∃ start : Nat, s.conn.ringBufferRead.start = start ∧ start ≤ pre.length
  end_ : s.conn.ringBufferRead.end_ = pre.length + (headerSection hs ++ body).length
  line : AtLine pre (headerSection hs ++ body ++ post) done s.readMem s.handler.par

/-- The section `hs` is done, and the parser stands at `pos`. -/
structure AtBody (s : WebSession) (pos : Nat) (hs : List HeaderLine) : Prop where
  reqHandler : s.handler.reqHandler = some .body
  nextParsePos : s.handler.par.nextParsePos = some pos
  transferEncoding : s.handler.par.transferEncoding = .identity
  slots : ∀ slot, match lastValue slot hs with
    | none => s.handler.par.reqHeaders slot = .init
    | some v => (s.handler.par.reqHeaders slot).bytes s.readMem = v

/-- The handler is about to read the lines `hs`, after the lines `done`, and `tail` is what can be
read behind them. -/
structure AtLines (s : WebSession) (pre : List Byte) (done hs : List HeaderLine)
    (tail post : List Byte) : Prop where
  reqHandler : s.handler.reqHandler = some .headers
  start : ∃ start : Nat, s.conn.ringBufferRead.start = start ∧ start ≤ pre.length ∧
    start < pre.length + (headerLines hs ++ tail).length
  end_ : s.conn.ringBufferRead.end_ = pre.length + (headerLines hs ++ tail).length
  line : AtLine pre (headerLines hs ++ tail ++ post) done s.readMem s.handler.par

theorem AtHeader.atLines {s : WebSession} {pre body post : List Byte} {done hs : List HeaderLine}
    (h : s.AtHeader pre done hs body post) : s.AtLines pre done hs (crlf ++ body) post := by
  obtain ⟨hreq, ⟨start, hstart, hle⟩, hend, hline⟩ := h
  rw [headerSection_eq, List.append_assoc (headerLines hs)] at hend hline
  refine ⟨hreq, ⟨start, hstart, hle, ?_⟩, hend, hline⟩
  simp only [List.length_append, crlf, List.length_cons]
  omega

/-- What `request_handle_headers` makes of the end of its loop. -/
def headersLeft (s : WebSession) (x : HeaderExit × Mem × ParseArchive) : Int × WebSession :=
  let t := (s.touchHandler.touchConn.setReadMem x.2.1).setPar x.2.2
  match x.1 with
  | .ret code => (code, t)
  | .headerDone => (OK, t.setReq { t.handler with reqHandler := some .body })

theorem requestHandleHeaders_loop (env : Env) {s : WebSession} {msg len : Nat}
    (h : s.readMsg = (some msg, len)) :
    s.requestHandleHeaders env = headerLoop env.beyond (len + 1) s.readMem msg len s.handler.par >>=
      fun x => .ok (s.headersLeft x) := by
  have hread : s.touchHandler.touchConn.readMsg = (some msg, len) := h
  unfold requestHandleHeaders
  simp only [hread]
  show headerLoop env.beyond (len + 1) s.readMem msg len s.handler.par >>= _ = _
  cases headerLoop env.beyond (len + 1) s.readMem msg len s.handler.par with
  | error f => rfl
  | ok x =>
    obtain ⟨exit, mem, ar⟩ := x
    cases exit <;> rfl

/-- The next call of the handler comes to `tail`, behind the lines `hs`, which end at `pos`. -/
structure AtTail (env : Env) (P : List HeaderLine → List Byte → ParseArchive → Prop)
    (s : WebSession) (pos : Nat) (hs : List HeaderLine) (tail post : List Byte) : Prop where
  reqHandler : s.handler.reqHandler = some .headers
  loop : ∃ fuel pre mem ar msg, pre.length = pos ∧ AtLine pre (tail ++ post) hs mem ar ∧
    P hs (tail ++ post) ar ∧ msg ≤ pre.length ∧ s.requestHandleHeaders env =
      headerLoop env.beyond (fuel + 1) mem msg (pre.length - msg + tail.length) ar >>=
        fun x => .ok (s.headersLeft x)

/-- **One call of the handler** comes to the end of the lines, or to a later one of them. -/
theorem requestHandleHeaders_lines (hP : KeptByLines env.beyond P) {s : WebSession} {pre tail post : List Byte}
    {done hs : List HeaderLine} (h : s.AtLines pre done hs tail post)
    (hp : P done (headerLines hs ++ tail ++ post) s.handler.par) :
    s.AtTail env P (pre.length + (headerLines hs).length) (done ++ hs) tail post ∨
      ∃ s' pre' l hs₁ hs₂, s.requestHandleHeaders env = .ok (OK, s') ∧ hs = hs₁ ++ l :: hs₂ ∧
        pre'.length + (headerLines hs₂).length = pre.length + (headerLines hs).length ∧
        s'.AtLines pre' (done ++ hs₁ ++ [l]) hs₂ tail post ∧
        P (done ++ hs₁ ++ [l]) (headerLines hs₂ ++ tail ++ post) s'.handler.par := by
  obtain ⟨start, hstart, hle, hlt⟩ := h.start
  have hread : s.readMsg = (some start, pre.length - start + (headerLines hs ++ tail).length) := by
    have hne : ¬ ((pre.length : Int) + (headerLines hs ++ tail).length = start) := by omega
    simp only [readMsg, RingBuffer.getMsg, hstart, h.end_, if_neg hne, Option.map_some,
      Int.toNat_natCast, Prod.mk.injEq, true_and]
    omega
  have hfuel : hs.length < pre.length - start + (headerLines hs ++ tail).length + 1 := by
    have := length_le_headerLines hs
    rw [List.length_append]
    omega
  have hread' := requestHandleHeaders_loop env hread
  have hend := headerLoop_lines hP hs h.line hp hle hfuel
  generalize headerLoop _ _ s.readMem start _ s.handler.par = x at hread' hend
  cases hend with
  | all hlength hat hkept hmsg =>
    exact Or.inl ⟨h.reqHandler, _, _, _, _, _, hlength, hat, hkept, hmsg, hread'⟩
  | @refused pre' l hs₁ hs₂ mem ar hsplit hlength hat hkept =>
    have hsum : (headerLines hs).length =
        (headerLines hs₁).length + l.bytes.length + (headerLines hs₂).length := by
      rw [hsplit]
      simp only [headerLines, List.flatMap_append, List.flatMap_cons, List.length_append]
      omega
    refine Or.inr ⟨_, pre', l, hs₁, hs₂, hread', hsplit, hlength,
      ⟨h.reqHandler, ⟨start, hstart, ?_, ?_⟩, ?_, hat⟩, hkept⟩
    · omega
    · rw [List.length_append] at hlt ⊢
      omega
    · show s.conn.ringBufferRead.end_ = _
      rw [h.end_]
      simp only [List.length_append]
      omega

/-- **An empty line ends the section.** -/
theorem AtTail.blank (hP : KeptByLines env.beyond P) {s : WebSession} {pos : Nat} {hs : List HeaderLine}
    {tail post ws : List Byte} (h : s.AtTail env P pos hs tail post) (hws : ∀ c ∈ ws, isBlank c = true)
    (htail : blankLine ws <+: tail) : ∃ s', s.requestHandleHeaders env = .ok (OK, s') ∧
      s'.AtBody (pos + (blankLine ws).length) hs ∧ P hs (tail ++ post) s'.handler.par := by
  obtain ⟨fuel, pre, mem, ar, msg, rfl, hat, hkept, hmsg, hcall⟩ := h.loop
  obtain ⟨r, hr, hcode, hend, hte, hheaders⟩ := parseHeaderLine_blank pre post hws htail hmsg
    hat.nextParsePos hat.state hat.marks
  rw [← hat.mem] at hr
  have hagain : ¬ CRLF_LINE = AGAIN := by decide
  have hinv : ¬ CRLF_LINE = INVALID_REQUEST := by decide
  rw [headerLoop, hr, Run.ok_bind, hcode, if_neg hagain, if_neg hinv, if_pos rfl] at hcall
  refine ⟨_, hcall, ⟨rfl, hend.nextParsePos, hte.trans hat.transferEncoding, fun slot => ?_⟩,
    hP.bare hkept (parseHeaderLine_bare hr)⟩
  show match lastValue slot hs with
    | none => r.ar.reqHeaders slot = .init
    | some v => (r.ar.reqHeaders slot).bytes mem = v
  rw [hheaders, hat.mem]
  exact hat.recorded.bytes slot

/-- What is no header line asks for more, is refused, or begins with an empty line. -/
theorem AtTail.cases {s : WebSession} {pos : Nat} {hs : List HeaderLine}
    {tail post : List Byte} (h : s.AtTail env P pos hs tail post)
    (hno : ∀ l : HeaderLine, ¬ l.bytes <+: tail) :
    (HeaderUnfinished tail ∧ ∃ s', s.requestHandleHeaders env = .ok (AGAIN, s')) ∨
      (∃ s', s.requestHandleHeaders env = .ok (400, s')) ∨
      ∃ ws, (∀ c ∈ ws, isBlank c = true) ∧ blankLine ws <+: tail := by
  obtain ⟨fuel, pre, mem, ar, msg, rfl, hat, -, hmsg, hcall⟩ := h.loop
  obtain ⟨r, hr, hok, hblank⟩ := parseHeaderLine_sound pre tail post hmsg hat.nextParsePos hat.state
    hat.marks
  have hagain := parseHeaderLine_again_iff pre tail post hmsg hat.atStart hr
  have hcode := parseHeaderLine_code pre tail post hmsg hat.nextParsePos hr
  rw [← hat.mem] at hr
  rw [headerLoop, hr, Run.ok_bind] at hcall
  rcases hcode with hcode | hcode | hcode | hcode
  · rw [if_pos hcode] at hcall
    exact Or.inl ⟨hagain.1 hcode, _, hcall⟩
  · have hne : ¬ r.code = AGAIN := by rw [hcode]; decide
    rw [if_neg hne, if_pos hcode] at hcall
    exact Or.inr (Or.inl ⟨_, hcall⟩)
  · exact Or.inr (Or.inr (hblank hcode))
  · obtain ⟨l, hl⟩ := hok hcode
    exact absurd hl (hno l)

/-- **Bytes that end too early** are answered with `AGAIN`. -/
theorem AtTail.unfinished {s : WebSession} {pos : Nat} {hs : List HeaderLine}
    {tail post : List Byte} (h : s.AtTail env P pos hs tail post) (htail : HeaderUnfinished tail) :
    ∃ s', s.requestHandleHeaders env = .ok (AGAIN, s') := by
  obtain ⟨fuel, pre, mem, ar, msg, rfl, hat, -, hmsg, hcall⟩ := h.loop
  obtain ⟨r, hr, -⟩ := parseHeaderLine_sound pre tail post hmsg hat.nextParsePos hat.state hat.marks
  have hcode := (parseHeaderLine_again_iff pre tail post hmsg hat.atStart hr).2 htail
  rw [← hat.mem] at hr
  rw [headerLoop, hr, Run.ok_bind, if_pos hcode] at hcall
  exact ⟨_, hcall⟩

end Session

/-! ## The loop of `http_request` -/

/-- `k` calls of the handlers lead from `s` to `s'`: each answers `OK` and leaves a handler to
be called next. -/
inductive LoopReaches (env : Env) : Nat → WebSession → WebSession → Prop
  | refl (s : WebSession) : LoopReaches env 0 s s
  | call {k : Nat} {s s' s'' : WebSession} {h : ReqHandler}
      (handler : s.handler.reqHandler = some h)
      (ok : s.callHandler env h = .ok (OK, s'))
      (next : s'.handler.reqHandler ≠ none)
      (rest : LoopReaches env k s' s'') : LoopReaches env (k + 1) s s''

/-- The calls are those of the loop. -/
theorem LoopReaches.handlerLoop {env : Env} {k : Nat} {s s' : WebSession}
    (h : LoopReaches env k s s') (fuel : Nat) :
    s.handlerLoop env (fuel + k) = s'.handlerLoop env fuel := by
  induction h with
  | refl s => rfl
  | @call k s t u hd handler ok next rest ih =>
    rw [← ih, show fuel + (k + 1) = fuel + k + 1 by omega, Session.handlerLoop, handler]
    simp only
    rw [ok, Run.ok_bind]
    exact if_pos ⟨next, rfl⟩

/-- The calls of a longer run. -/
theorem LoopReaches.snoc {env : Env} {k : Nat} {s t t' : WebSession} {h : ReqHandler}
    (hreach : LoopReaches env k s t) (handler : t.handler.reqHandler = some h)
    (ok : t.callHandler env h = .ok (OK, t')) (next : t'.handler.reqHandler ≠ none) :
    LoopReaches env (k + 1) s t' := by
  induction hreach with
  | refl s => exact .call handler ok next (.refl t')
  | call handler' ok' next' rest ih => exact .call handler' ok' next' (ih handler ok)

/-- **The loop comes to what stands behind the lines**, with at most one call for every line, and
with what the lines keep. -/
theorem lines_reach_tail (env : Env) (hP : KeptByLines env.beyond P) {tail post : List Byte} (n : Nat) :
    ∀ {s : WebSession} {pre : List Byte} {done hs : List HeaderLine}, hs.length ≤ n →
      s.AtLines pre done hs tail post → P done (headerLines hs ++ tail ++ post) s.handler.par →
      ∃ k s', k ≤ hs.length ∧ LoopReaches env k s s' ∧
        s'.AtTail env P (pre.length + (headerLines hs).length) (done ++ hs) tail post := by
  induction n with
  | zero =>
    intro s pre done hs hn h hp
    obtain rfl : hs = [] := List.length_eq_zero_iff.1 (by omega)
    obtain htail | ⟨s', pre', l, hs₁, hs₂, -, hsplit, -⟩ := Session.requestHandleHeaders_lines hP h hp
    · exact ⟨0, s, le_rfl, .refl s, htail⟩
    · simp at hsplit
  | succ n ih =>
    intro s pre done hs hn h hp
    obtain htail | ⟨s', pre', l, hs₁, hs₂, hok, hsplit, hpos, hat, hkept⟩ :=
      Session.requestHandleHeaders_lines hP h hp
    · exact ⟨0, s, Nat.zero_le _, .refl s, htail⟩
    · have hlen : hs.length = hs₁.length + (hs₂.length + 1) := by simp [hsplit]
      obtain ⟨k, s'', hk, hreach, htail⟩ := ih (by omega) hat hkept
      refine ⟨k + 1, s'', by omega,
        .call h.reqHandler hok (by rw [hat.reqHandler]; simp) hreach, ?_⟩
      rw [hpos] at htail
      rw [hsplit]
      simpa [hsplit] using htail

/-- **The loop comes to the body** behind an empty line. -/
theorem headers_reach_body_rule (env : Env) (hP : KeptByLines env.beyond P) {body post : List Byte} (n : Nat)
    {s : WebSession} {pre : List Byte} {done hs : List HeaderLine} (hn : hs.length ≤ n)
    (h : s.AtHeader pre done hs body post)
    (hp : P done (headerSection hs ++ body ++ post) s.handler.par) :
    ∃ k s', k ≤ hs.length + 1 ∧ LoopReaches env k s s' ∧
      s'.AtBody (pre.length + (headerSection hs).length) (done ++ hs) ∧
      P (done ++ hs) (crlf ++ body ++ post) s'.handler.par := by
  rw [headerSection_eq, List.append_assoc (headerLines hs)] at hp
  obtain ⟨k, t, hk, hreach, htail⟩ := lines_reach_tail env hP n hn h.atLines hp
  obtain ⟨s', hok, hbody, hkept⟩ := htail.blank hP HeaderLine.blank_nil (List.prefix_append _ _)
  rw [Nat.add_assoc] at hbody
  refine ⟨k + 1, s', by omega, hreach.snoc htail.reqHandler hok (by rw [hbody.reqHandler]; simp), ?_,
    hkept⟩
  rw [headerSection_eq, List.length_append]
  exact hbody

theorem headers_reach_body (env : Env) {body post : List Byte} (n : Nat) {s : WebSession}
    {pre : List Byte} {done hs : List HeaderLine} (hn : hs.length ≤ n)
    (h : s.AtHeader pre done hs body post) : ∃ k s', k ≤ hs.length + 1 ∧ LoopReaches env k s s' ∧
      s'.AtBody (pre.length + (headerSection hs).length) (done ++ hs) := by
  obtain ⟨k, s', hk, hreach, hbody, -⟩ := headers_reach_body_rule env keptByLines_true n hn h trivial
  exact ⟨k, s', hk, hreach, hbody⟩

/-- Behind an accepted request line the handler of the headers is next. -/
theorem Session.atLines_of_ok {env : Env} {s s₁ : WebSession} {l : RequestLine}
    {hs : List HeaderLine} {pre tail post : List Byte}
    (h : s.Reads pre (l.bytes ++ (headerLines hs ++ tail)) post)
    (hpar : s.handler.par = parseArchiveInit)
    (hok : s.requestHandleRequestLine env = .ok (OK, s₁)) :
    ∃ line, line.length = l.bytes.length ∧ s₁.AtLines (pre ++ line) [] hs tail post := by
  obtain ⟨-, -, url, line, inode, hlen, hopen⟩ := requestHandleRequestLine_ok h hpar hok
  obtain ⟨url', hpar₁⟩ := hopen.par
  have hread : s₁.conn.ringBufferRead = { s.conn.ringBufferRead with
      msg := pre ++ ((line ++ (headerLines hs ++ tail)) ++ post) } := by
    rw [hopen.conn]
    rfl
  have hpos := l.bytes_length
  refine ⟨line, hlen, hopen.reqHandler, ⟨pre.length, ?_, by simp, ?_⟩, ?_, ?_, ?_, ?_, ?_, ?_, ?_⟩
  · rw [hread]
    exact h.start
  · rw [List.length_append]
    omega
  · rw [hread]
    simp only [h.end_, List.length_append, hlen]
    omega
  · simp [Session.readMem, hread]
  · rw [hpar₁, List.length_append, hlen]
    rfl
  all_goals rw [hpar₁]
  · rfl
  · exact l.parsed_marksOk pre.length url
  · rfl
  · exact fun _ => rfl

theorem Session.atHeader_of_ok {env : Env} {s s₁ : WebSession} {l : RequestLine}
    {hs : List HeaderLine} {pre body post : List Byte}
    (h : s.Reads pre (l.bytes ++ (headerSection hs ++ body)) post)
    (hpar : s.handler.par = parseArchiveInit)
    (hok : s.requestHandleRequestLine env = .ok (OK, s₁)) :
    ∃ line, line.length = l.bytes.length ∧ s₁.AtHeader (pre ++ line) [] hs body post := by
  rw [headerSection_eq, List.append_assoc] at h
  obtain ⟨line, hlen, hreq, ⟨start, hstart, hle, -⟩, hend, hline⟩ := atLines_of_ok h hpar hok
  rw [← List.append_assoc (headerLines hs), ← headerSection_eq] at hend hline
  exact ⟨line, hlen, hreq, ⟨start, hstart, hle⟩, hend, hline⟩

/-- **Header section processing.**  Behind an accepted request line the loop of `http_request`
goes through the whole section, though handlers on the way refuse their headers, and comes to
the body.  A slot then holds the value of the last header it is for, whatever its letter
case; a header that no slot is for changes nothing in the archive. -/
theorem headerSection_processed (env : Env) (s s₁ : WebSession) (l : RequestLine)
    (hs : List HeaderLine) (body : List Byte) (hinv : s.conn.ringBufferRead.Inv)
    (hread : s.conn.ringBufferRead.content = l.bytes ++ (headerSection hs ++ body))
    (hpar : s.handler.par = parseArchiveInit)
    (hok : s.requestHandleRequestLine env = .ok (OK, s₁)) :
    s₁.handler.reqHandler = some .headers ∧
    (∃ (k : Nat) (s₂ : WebSession) (pos : Nat), k ≤ hs.length + 1 ∧ LoopReaches env k s₁ s₂ ∧
      s₂.handler.reqHandler = some .body ∧ s₂.handler.par.nextParsePos = some pos ∧
      (pos : Int) = s.conn.ringBufferRead.start + (l.bytes ++ headerSection hs).length ∧
      ∀ slot, match lastValue slot hs with
        | none => s₂.handler.par.reqHeaders slot = .init
        | some v => (s₂.handler.par.reqHeaders slot).bytes s₂.readMem = v) ∧
    ∀ (h : HeaderLine) (pre post : List Byte) (ar : ParseArchive),
      ar.headerName = .slice (pre.length + h.lead.length) h.name.length →
      ar.headerVal = .slice (pre.length + h.valOffset) h.val.length →
      (∀ hf ∈ hfList, str hf.hd ≠ h.name.map toLower) →
      ∃ mem, handleHeaderLine env.beyond (pre ++ (h.bytes ++ post)) ar = .ok (mem, OK, ar) := by
  obtain ⟨pre, post, hreads⟩ := Session.exists_reads hinv
  rw [hread] at hreads
  obtain ⟨line, hlen, hat⟩ := Session.atHeader_of_ok hreads hpar hok
  obtain ⟨k, s₂, hk, hreach, hbody⟩ := headers_reach_body env hs.length le_rfl hat
  refine ⟨hat.reqHandler, ⟨k, s₂, _, hk, hreach, hbody.reqHandler, hbody.nextParsePos, ?_,
    hbody.slots⟩, ?_⟩
  · rw [hreads.start]
    simp only [List.length_append, hlen]
    omega
  · intro h pre post ar hname hval hnone
    obtain ⟨status, ar', hhandle, -, -, hunknown⟩ := handleHeaderLine_spec ar hname hval
    obtain ⟨rfl, rfl⟩ := hunknown hnone
    exact ⟨_, hhandle⟩

/-- A one-letter value of the `Host` header, under a name in any letter case. -/
def HeaderLine.host (name : List Byte) (hname : name.map toLower = str "host")
    (hchars : ∀ c ∈ name, isHeaderNameChar c = true) (c : Byte) (hblank : isBlank c = false)
    (hnewline : isNewline c = false) : HeaderLine where
  lead := []
  name := name
  gap := str " "
  val := [c]
  lead_blank := blank_nil
  name_ne := by
    rintro rfl
    exact absurd hname (by decide)
  name_chars := hchars
  gap_blank := blank_space
  val_chars := by simpa using hnewline
  val_head := ⟨c, rfl, hblank⟩

/-- Of two `Host` headers the second counts. -/
theorem headerSection_processed_host :
    let hosts := [HeaderLine.host (str "Host") (by decide +kernel) (by decide +kernel) (chr 'a')
        (by decide) (by decide),
      HeaderLine.host (str "HOST") (by decide +kernel) (by decide +kernel) (chr 'b') (by decide)
        (by decide)]
    ∃ s₁ k s₂, (Session.received (RequestLine.getRoot.bytes ++ (headerSection hosts ++ []))
        ).requestHandleRequestLine .oneFile = .ok (OK, s₁) ∧
      LoopReaches .oneFile k s₁ s₂ ∧ (s₂.handler.par.reqHeaders .host).bytes s₂.readMem = str "b" := by
  intro hosts
  let data := RequestLine.getRoot.bytes ++ (headerSection hosts ++ [])
  have hinv := Session.received_inv data
  have hread := Session.received_content data
  obtain ⟨pre, post, hreads⟩ := Session.exists_reads hinv
  rw [hread] at hreads
  obtain ⟨url, line, -, hspec⟩ := Session.requestHandleRequestLine_spec hreads rfl
  rw [if_neg (not_not_intro (by decide +kernel)), if_pos (by decide +kernel)] at hspec
  have hok : (Session.received data).requestHandleRequestLine .oneFile = .ok (OK, _) := hspec
  obtain ⟨-, ⟨k, s₂, pos, -, hreach, -, -, -, hslots⟩, -⟩ := headerSection_processed .oneFile
    (Session.received data) _ RequestLine.getRoot hosts [] hinv hread rfl hok
  refine ⟨_, k, s₂, hok, hreach, ?_⟩
  have hlast : lastValue .host hosts = some (str "b") := by decide +kernel
  have := hslots .host
  rw [hlast] at this
  exact this

end MWebServer
