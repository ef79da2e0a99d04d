import MWebServer.Web.HttpRequest
import MWebServer.Web.RequestLine
import MWebServer.Web.HeaderLine

/-!
# The handler of the request line (`request_handle_request_line`)

On a message that begins with a request line the handler records the line, ends the
path with a `NUL` written into the buffer, and opens what `RequestLine.openedPath`
says.  Nothing behind the line is touched (`requestHandleRequestLine_spec`).

A URL that a tab ends and that has no question mark records no path; the handler
then goes through a null pointer (`requestLineAccepted_fault`).  Path and query are
recorded, and the handler meets no such pointer, exactly behind a space
(`urlRecorded_iff`).
-/

namespace MWebServer

/-! ## The read buffer of a session -/

/-- The read buffer holds `m`, between `pre` and `post` in its block. -/
structure Session.Reads (s : WebSession) (pre m post : List Byte) : Prop where
  mem : s.readMem = pre ++ (m ++ post)
  start : s.conn.ringBufferRead.start = pre.length
  end_ : s.conn.ringBufferRead.end_ = pre.length + m.length

theorem Session.exists_reads {s : WebSession} (h : s.conn.ringBufferRead.Inv) :
    ∃ pre post, s.Reads pre s.conn.ringBufferRead.content post := by
  obtain ⟨pre, post, hmem, hstart, hend⟩ := h.split
  exact ⟨pre, post, hmem, hstart, hend⟩

theorem Session.Reads.readMsg {s : WebSession} {pre m post : List Byte} (h : s.Reads pre m post)
    (hm : m ≠ []) : s.readMsg = (some pre.length, m.length) := by
  have hlen : 0 < m.length := List.length_pos_iff.2 hm
  have hne : ¬ ((pre.length : Int) + m.length = pre.length) := by omega
  simp only [Session.readMsg, RingBuffer.getMsg, h.start, h.end_, if_neg hne, Option.map_some,
    Int.toNat_natCast, Prod.mk.injEq, true_and]
  omega

/-- Another block with the same bounds. -/
theorem Session.Reads.setReadMem {s : WebSession} {pre m post pre' m' post' : List Byte}
    (h : s.Reads pre m post) (hpre : pre'.length = pre.length) (hm : m'.length = m.length) :
    (s.setReadMem (pre' ++ (m' ++ post'))).Reads pre' m' post' :=
  ⟨rfl, by rw [hpre]; exact h.start, by rw [hpre, hm]; exact h.end_⟩

/-- A server with one empty file at every path, whose socket takes everything. -/
def Env.oneFile : Env where
  rootdirFd := 3
  connectTimeLimit := 60
  timeoutKeepAlive := 60
  root := fun _ => some (.file [])
  now := 0
  date := fun _ => str "Thu, 01 Jan 1970 00:00:00"
  send := fun _ => some (2 ^ 20)
  sendfile := fun _ => some (2 ^ 20)
  fresh := stale
  beyond := []

/-- A connection that has just received `data`. -/
def Session.received (data : List Byte) : WebSession :=
  (start 5 0).setRead ⟨0, data.length, data.length, data⟩

theorem Session.received_inv (data : List Byte) : (received data).conn.ringBufferRead.Inv :=
  ⟨le_rfl, Int.natCast_nonneg _, le_rfl, rfl⟩

theorem Session.received_content (data : List Byte) :
    (received data).conn.ringBufferRead.content = data := by
  simp [received, setRead, RingBuffer.content]

theorem Session.received_reads (data : List Byte) : (received data).Reads [] data [] where
  mem := by simp [received, setRead, readMem]
  start := rfl
  end_ := by simp [received, setRead]

/-! ## The path of a URL -/

namespace RequestLine

/-- The path of the URL, up to its first question mark. -/
def path (l : RequestLine) : List Byte := l.url.takeWhile (· ≠ chr '?')

/-- The path as a C string: a `NUL` ends it as well. -/
def pathString (l : RequestLine) : List Byte := l.url.takeWhile fun c => c ≠ 0 && c ≠ chr '?'

/-- The parser records a path. -/
def HasPath (l : RequestLine) : Prop := l.delim = chr ' ' ∨ chr '?' ∈ l.url

instance (l : RequestLine) : Decidable l.HasPath := inferInstanceAs (Decidable (_ ∨ _))

/-- What is handed to `openat`. -/
def openedPath (l : RequestLine) : List Byte :=
  if l.path.length = 1 then str "./" else l.pathString.drop 1

/-- The C string is the path up to its first `NUL`. -/
theorem pathString_eq (l : RequestLine) : l.pathString = l.path.takeWhile (· ≠ 0) := by
  unfold pathString path
  rw [List.takeWhile_takeWhile]
  simp

theorem path_length_lt_iff (l : RequestLine) : l.path.length < l.url.length ↔ chr '?' ∈ l.url := by
  have hsub : l.path.length ≤ l.url.length := (List.takeWhile_sublist _).length_le
  constructor
  · intro hlt
    by_contra hmem
    have : l.path = l.url := by
      refine List.takeWhile_eq_self_iff.2 fun c hc => ?_
      have hne : c ≠ chr '?' := fun h => hmem (h ▸ hc)
      simpa using hne
    rw [this] at hlt
    omega
  · intro hmem
    by_contra hge
    have hself : l.path = l.url :=
      (List.takeWhile_prefix _).eq_of_length (by change l.path.length = _; omega)
    have := List.takeWhile_eq_self_iff.1 hself _ hmem
    simp at this

/-- The URL begins with a slash. -/
theorem exists_url (l : RequestLine) : ∃ t, l.url = chr '/' :: t := by
  have hhead := l.url_head
  cases hurl : l.url with
  | nil =>
    rw [hurl] at hhead
    cases hhead
  | cons c t =>
    rw [hurl] at hhead
    exact ⟨t, by rw [Option.some.inj hhead]⟩

/-- So does the path. -/
theorem exists_pathString (l : RequestLine) : ∃ t, l.pathString = chr '/' :: t := by
  obtain ⟨u, hu⟩ := l.exists_url
  have hne : chr '/' ≠ 0 ∧ chr '/' ≠ chr '?' := by decide
  refine ⟨u.takeWhile fun c => c ≠ 0 && c ≠ chr '?', ?_⟩
  rw [pathString, hu, List.takeWhile_cons_of_pos (by simp [hne])]

/-- The slice recorded for the path. -/
theorem splitUrl_absPath (l : RequestLine) (b : Nat) (url : ReqUrl) (hurl : url.absPath = .init) :
    (splitUrl b l.url l.delim url).absPath =
      if l.HasPath then .slice b l.path.length else .init := by
  have hlt := l.path_length_lt_iff
  unfold RequestLine.path at hlt ⊢
  unfold splitUrl HasPath
  by_cases hq : chr '?' ∈ l.url
  · simp only [hlt.2 hq, hq, or_true, if_true]
  · have hnlt : ¬ (l.url.takeWhile (· ≠ chr '?')).length < l.url.length := fun h => hq (hlt.1 h)
    simp only [hnlt, hq, or_false, if_false]
    split_ifs
    · rfl
    · exact hurl

/-- The slice recorded for the query of a line at `p` whose URL a space ends: what stands behind
the first question mark, or nothing at the end of the URL. -/
def query (l : RequestLine) (p : Nat) : Ssstr :=
  if chr '?' ∈ l.url then
    .slice (p + l.urlOffset + l.path.length + 1) (l.url.length - l.path.length - 1)
  else .slice (p + l.urlOffset + l.path.length) 0

theorem query_str_ne_null (l : RequestLine) (p : Nat) : (l.query p).str ≠ .null := by
  unfold query
  split_ifs <;> exact CharPtr.noConfusion

/-- The slice recorded for the query: a tab leaves it unset. -/
theorem splitUrl_queryString (l : RequestLine) (p : Nat) {url : ReqUrl}
    (hurl : url.queryString = .init) :
    (splitUrl (p + l.urlOffset) l.url l.delim url).queryString =
      if l.delim = chr ' ' then l.query p else .init := by
  have hlt := l.path_length_lt_iff
  unfold query
  unfold RequestLine.path at hlt ⊢
  unfold splitUrl
  by_cases hq : chr '?' ∈ l.url
  · simp only [hlt.2 hq, hq, if_true]
    split_ifs
    · rfl
    · exact hurl
  · have hnlt : ¬ (l.url.takeWhile (· ≠ chr '?')).length < l.url.length := fun h => hq (hlt.1 h)
    simp only [hnlt, hq, if_false]
    split_ifs
    · rfl
    · exact hurl

/-- The bytes at the beginning of a URL that pass a test end at the first one that does not pass, or
at the delimiter behind the URL. -/
theorem exists_urlStop (l : RequestLine) (P : Byte → Bool) : ∃ c b,
    l.url ++ l.delim :: l.versionBytes = l.url.takeWhile P ++ c :: b ∧
      (((∀ d ∈ l.url, P d = true) ∧ c = l.delim) ∨ P c = false) := by
  have hsplit : l.url.takeWhile P ++ l.url.dropWhile P = l.url := List.takeWhile_append_dropWhile
  have hstop := List.head?_dropWhile_not P l.url
  cases hdrop : l.url.dropWhile P with
  | nil =>
    have hself : l.url.takeWhile P = l.url := by
      rw [hdrop, List.append_nil] at hsplit
      exact hsplit
    exact ⟨l.delim, l.versionBytes, by rw [hself], Or.inl ⟨List.takeWhile_eq_self_iff.1 hself, rfl⟩⟩
  | cons c u =>
    rw [hdrop] at hsplit hstop
    refine ⟨c, u ++ l.delim :: l.versionBytes, ?_, Or.inr (by simpa using hstop)⟩
    rw [← List.cons_append, ← List.append_assoc, hsplit]

/-- What stands behind the path in a line with one: a byte at which a C string search for the
end of the path stops. -/
theorem exists_pathEnd {l : RequestLine} (h : l.HasPath) : ∃ c b,
    l.url ++ l.delim :: l.versionBytes = l.pathString ++ c :: b ∧
      (c = 0 ∨ c = chr ' ' ∨ c = chr '?') := by
  obtain ⟨c, b, hurl, ⟨hall, hdelim⟩ | hc⟩ := l.exists_urlStop fun c => c ≠ 0 && c ≠ chr '?'
  · -- the whole URL is path, and a space ends it
    have hquestion : chr '?' ∉ l.url := fun hmem => absurd (hall _ hmem) (by simp)
    refine ⟨c, b, hurl, Or.inr (Or.inl ?_)⟩
    rw [hdelim]
    exact h.resolve_right hquestion
  · refine ⟨c, b, hurl, ?_⟩
    by_cases h0 : c = 0
    · exact Or.inl h0
    · exact Or.inr (Or.inr (by simpa [h0] using hc))

/-- What stands in front of the URL. -/
theorem split_url (l : RequestLine) (pre post : List Byte) : ∃ front : List Byte,
    pre.length + l.urlOffset = front.length ∧
      pre ++ (l.bytes ++ post) = front ++ (l.url ++ l.delim :: l.versionBytes ++ post) := by
  refine ⟨pre ++ (methodName l.method ++ chr ' ' :: l.gap), ?_, by simp [bytes]⟩
  simp only [urlOffset, List.length_append, List.length_cons]
  omega

end RequestLine

/-! ## The `NUL` behind the path -/

/-- The bytes a search for the end of the path passes over. -/
theorem pathString_chars (l : RequestLine) :
    ∀ c ∈ l.pathString, c ≠ 0 ∧ c ≠ chr ' ' ∧ c ≠ chr '?' := by
  intro c hc
  have hmem : c ∈ l.url := (List.takeWhile_sublist _).subset hc
  have hp := List.mem_takeWhile_imp hc
  simp only [ne_eq, decide_not, Bool.and_eq_true, Bool.not_eq_true', decide_eq_false_iff_not] at hp
  exact ⟨hp.1, ne_space_of_isUrlChar (l.url_chars c hmem), hp.2⟩

theorem terminatePath_eq {a p b : List Byte} {c : Byte}
    (hp : ∀ x ∈ p, x ≠ 0 ∧ x ≠ chr ' ' ∧ x ≠ chr '?') (hc : c = 0 ∨ c = chr ' ' ∨ c = chr '?') :
    terminatePath (a ++ (p ++ c :: b)) a.length = .ok (a ++ (p ++ 0 :: b)) := by
  have hstop : (c ≠ 0 && c ≠ chr ' ' && c ≠ chr '?') = false := by
    rcases hc with rfl | rfl | rfl <;> decide
  have hwhile : (p ++ c :: b).takeWhile (fun c => c ≠ 0 && c ≠ chr ' ' && c ≠ chr '?') = p := by
    rw [List.takeWhile_append_of_pos (fun x hx => by simpa [and_assoc] using hp x hx),
      List.takeWhile_cons_of_neg (by rw [hstop]; decide), List.append_nil]
  unfold terminatePath
  rw [List.drop_left, hwhile]
  refine memcpy_eq_ok.2 ⟨by positivity, ?_, ?_⟩
  · simp only [List.length_append, List.length_cons, List.length_nil]
    omega
  · have hsplit : a ++ (p ++ c :: b) = (a ++ p) ++ ([c] ++ b) := by simp
    have hnat : ((a.length : Int) + p.length).toNat = (a ++ p).length := by simp; omega
    rw [hnat, hsplit, List.take_left, ← List.append_assoc (a ++ p) [c] b,
      List.drop_left' (by simp; omega)]
    simp

theorem cString_eq {a p b : List Byte} (hp : ∀ x ∈ p, x ≠ 0) :
    cString (a ++ (p ++ 0 :: b)) a.length = p := by
  unfold cString
  rw [List.drop_left, List.takeWhile_append_of_pos (fun x hx => by simpa using hp x hx),
    List.takeWhile_cons_of_neg (by decide), List.append_nil]

/-- **The path of a line is cut off and handed on**; the block changes inside the line only. -/
theorem terminatePath_line (pre : List Byte) {l : RequestLine} (h : l.HasPath) :
    ∃ line, line.length = l.bytes.length ∧ ∀ post,
      terminatePath (pre ++ (l.bytes ++ post)) (pre.length + l.urlOffset) =
        .ok (pre ++ (line ++ post)) ∧
      relativePath (pre ++ (line ++ post)) (pre.length + l.urlOffset) l.path.length =
        l.openedPath := by
  obtain ⟨c, b, hsplit, hc⟩ := RequestLine.exists_pathEnd h
  obtain ⟨t, ht⟩ := l.exists_pathString
  let front := methodName l.method ++ chr ' ' :: l.gap
  have hfront : pre.length + l.urlOffset = (pre ++ front).length := by
    simp only [front, RequestLine.urlOffset, List.length_append, List.length_cons]
    omega
  have hbytes : l.bytes = front ++ (l.pathString ++ c :: b) := by
    rw [← hsplit]
    simp [front, RequestLine.bytes]
  have hchars := pathString_chars l
  refine ⟨front ++ (l.pathString ++ 0 :: b), by simp [hbytes], fun post => ⟨?_, ?_⟩⟩
  · have hmem : pre ++ (l.bytes ++ post) = (pre ++ front) ++ (l.pathString ++ c :: (b ++ post)) := by
      simp [hbytes]
    rw [hmem, hfront, terminatePath_eq hchars hc]
    simp
  · have hmem : pre ++ (front ++ (l.pathString ++ 0 :: b) ++ post) =
        (pre ++ front) ++ (chr '/' :: t ++ 0 :: (b ++ post)) := by
      simp [ht]
    have hslash : ((pre ++ front) ++ (chr '/' :: t ++ 0 :: (b ++ post)))[(pre ++ front).length]? =
        some (chr '/') := by simp
    have hstr : cString ((pre ++ front) ++ (chr '/' :: t ++ 0 :: (b ++ post)))
        ((pre ++ front).length + 1) = t := by
      have hmem' : (pre ++ front) ++ (chr '/' :: t ++ 0 :: (b ++ post)) =
          (pre ++ front ++ [chr '/']) ++ (t ++ 0 :: (b ++ post)) := by simp
      have hlen : (pre ++ front).length + 1 = (pre ++ front ++ [chr '/']).length := by simp; omega
      rw [hmem', hlen]
      exact cString_eq fun x hx => (hchars x (by rw [ht]; simp [hx])).1
    unfold relativePath RequestLine.openedPath
    rw [hfront, hmem, hslash, hstr, ht]
    have hcast : ((l.path.length : Int) = 1) ↔ l.path.length = 1 := by omega
    simp only [hcast, and_true, List.drop_succ_cons, List.drop_zero]

/-! ## The archive of a line -/

namespace RequestLine

/-- The archive of an accepted line that begins at `p`. -/
def parsed (l : RequestLine) (p : Nat) (url : ReqUrl) : ParseArchive :=
  { l.archive p url (freshArchive p) with
    nextParsePos := some (p + l.bytes.length)
    state := .hdBegin }

/-- The version check of the handler lets the line pass. -/
def VersionOk (l : RequestLine) : Prop := decimal l.major ≤ 1 ∧ decimal l.minor ≤ 1

instance (l : RequestLine) : Decidable l.VersionOk := inferInstanceAs (Decidable (_ ∧ _))

/-- `keep_alive`, as the version sets it. -/
def keepAlive (l : RequestLine) : Bool := decide (decimal l.major = 1 ∧ decimal l.minor = 1)

theorem parsed_marksOk (l : RequestLine) (p : Nat) (url : ReqUrl) : (l.parsed p url).MarksOk :=
  ⟨trivial, trivial⟩

end RequestLine

/-- `parse_request_line` on a message that begins with a line, whatever stands behind it. -/
theorem parseRequestLine_line (pre : List Byte) {m : List Byte} {l : RequestLine}
    (hl : l.bytes <+: m) : ∃ url : ReqUrl,
      url.absPath = (if l.HasPath then .slice (pre.length + l.urlOffset) l.path.length else .init) ∧
      url.queryString = (if l.delim = chr ' ' then l.query pre.length else .init) ∧
      url.mimeExtension.Within (pre ++ m).length ∧
      ∀ post, parseRequestLine (pre ++ (m ++ post)) pre.length m.length (freshArchive pre.length) =
        .ok ⟨OK, l.bytes.length, l.parsed pre.length url⟩ := by
  obtain ⟨rest, rfl⟩ := hl
  have hlen := l.bytes_length
  have hlt : pre.length + l.urlOffset + l.url.length < (pre ++ (l.bytes ++ rest)).length := by
    simp only [List.length_append]
    omega
  have hurl : (freshArchive pre.length).url.absPath = .init := rfl
  have hwithin := splitUrl_pathWithin (b := pre.length + l.urlOffset) (u := l.url) (d := l.delim) hurl
  have hmime := splitUrl_mimeExtension (pre.length + l.urlOffset) l.url l.delim
    (freshArchive pre.length).url
  obtain ⟨url, hext, habs, hquery⟩ := parseExtension_spec hlt hwithin
  refine ⟨url, habs.trans (l.splitUrl_absPath _ _ rfl),
    hquery.trans (l.splitUrl_queryString pre.length rfl), parseExtension_mime hlt hwithin hmime hext,
    fun post => ?_⟩
  have hext' : parseExtension (pre ++ (l.bytes ++ rest ++ post)) (splitUrl (pre.length + l.urlOffset)
      l.url l.delim (freshArchive pre.length).url) = .ok url := by
    rw [← hext]
    refine parseExtension_congr (fun i hi => ?_) hwithin
    rw [← List.append_assoc pre, List.getElem?_append_left (by omega)]
  have hscan := (rlScan_iff (q := pre.length + l.bytes.length - 1) rfl rfl rfl).2
    ⟨l, rest, url, rfl, hext', by omega, rfl⟩
  rw [parseRequestLine_fresh, hscan]
  simp only [RequestLine.parsed]
  rw [show pre.length + l.bytes.length - 1 + 1 = pre.length + l.bytes.length by omega,
    show pre.length + l.bytes.length - pre.length = l.bytes.length by omega]

/-! ## The handler -/

namespace Session

variable {env : Env} {s : WebSession} {pre m post : List Byte}

/-- The handler, called on a message with a fresh archive. -/
theorem requestHandleRequestLine_eq (h : s.Reads pre m post) (hm : m ≠ [])
    (hpar : s.handler.par = parseArchiveInit) :
    s.requestHandleRequestLine env =
      parseRequestLine (pre ++ (m ++ post)) pre.length m.length (freshArchive pre.length) >>=
        fun r =>
          if r.code = OK then (s.touchHandler.touchConn.setPar r.ar).requestLineAccepted env
          else pure (if r.code = AGAIN then AGAIN else 400, s.touchHandler.touchConn.setPar r.ar) := by
  have hread : s.touchHandler.touchConn.readMsg = (some pre.length, m.length) := h.readMsg hm
  have hmem : s.touchHandler.touchConn.readMem = pre ++ (m ++ post) := h.mem
  have hpar' : s.touchHandler.touchConn.handler.par = parseArchiveInit := hpar
  unfold requestHandleRequestLine
  simp only [hread, hmem, hpar']
  rfl

/-- An accepted line is refused for its version, or a `NUL` ends its path, which is then opened. -/
theorem requestLineAccepted_cases {code : Int} {s' : WebSession}
    (h : s.requestLineAccepted env = .ok (code, s')) :
    (code = 500 ∧ s' = s) ∨ ∃ off mem par path, s.handler.par.url.absPath.str = .buf off ∧
      terminatePath s.readMem off = .ok mem ∧
        ((s.setPar par).setReadMem mem).openResource env path = (code, s') := by
  unfold requestLineAccepted at h
  simp only at h
  split_ifs at h
  · obtain ⟨rfl, rfl⟩ := Prod.mk.inj (Except.ok.inj h)
    exact Or.inl ⟨rfl, rfl⟩
  · split at h
    · cases h
    · cases h
    · next off habs =>
      obtain ⟨mem, hmem, h⟩ := Run.bind_eq_ok.1 h
      exact Or.inr ⟨off, mem, _, _, habs, hmem, Except.ok.inj h⟩

/-- The tail of the handler on a line with a path, which `line` takes the place of. -/
theorem requestLineAccepted_line {rest line : List Byte} {l : RequestLine} {url : ReqUrl}
    (hterm : terminatePath (pre ++ (l.bytes ++ rest)) (pre.length + l.urlOffset) =
      .ok (pre ++ (line ++ rest)))
    (hrel : relativePath (pre ++ (line ++ rest)) (pre.length + l.urlOffset) l.path.length =
      l.openedPath)
    (hv : l.VersionOk) (hmem : s.readMem = pre ++ (l.bytes ++ rest))
    (hpar : s.handler.par = l.parsed pre.length url)
    (habs : url.absPath = .slice (pre.length + l.urlOffset) l.path.length) :
    s.requestLineAccepted env =
      .ok (((s.setPar { l.parsed pre.length url with keepAlive := l.keepAlive }).setReadMem
        (pre ++ (line ++ rest))).openResource env l.openedPath) := by
  have hver : ¬ (decimal l.major > 1 ∨ decimal l.minor > 1) := by
    have := hv.1
    have := hv.2
    omega
  unfold requestLineAccepted
  simp only [hpar, RequestLine.parsed, RequestLine.archive, if_neg hver]
  simp only [Session.setPar, habs, Ssstr.slice]
  change (terminatePath s.readMem (pre.length + l.urlOffset) >>= _) = _
  rw [hmem, hterm, Run.ok_bind, hrel]
  rfl

/-- A version above 1.1 is answered with 500. -/
theorem requestLineAccepted_version {l : RequestLine} {url : ReqUrl} (hv : ¬ l.VersionOk)
    (hpar : s.handler.par = l.parsed pre.length url) :
    s.requestLineAccepted env = .ok (500, s) := by
  have hver : decimal l.major > 1 ∨ decimal l.minor > 1 := by
    unfold RequestLine.VersionOk at hv
    omega
  unfold requestLineAccepted
  simp only [hpar, RequestLine.parsed, RequestLine.archive, if_pos hver]
  rfl

/-- A line without a path leads through a null pointer. -/
theorem requestLineAccepted_fault {l : RequestLine} {url : ReqUrl} (hv : l.VersionOk)
    (hpar : s.handler.par = l.parsed pre.length url) (habs : url.absPath = .init) :
    s.requestLineAccepted env = .error .nullDeref := by
  have hver : ¬ (decimal l.major > 1 ∨ decimal l.minor > 1) := by
    have := hv.1
    have := hv.2
    omega
  unfold requestLineAccepted
  simp only [hpar, RequestLine.parsed, RequestLine.archive, if_neg hver]
  simp only [Session.setPar, habs, Ssstr.init]

/-- The session in which the handler opens the path of the line `l`: `line` is what the block
then holds in its place. -/
def lineRead (s : WebSession) (pre line rest post : List Byte) (l : RequestLine) (url : ReqUrl) :
    WebSession :=
  (s.touchHandler.touchConn.setPar
    { l.parsed pre.length url with keepAlive := l.keepAlive }).setReadMem
      (pre ++ ((line ++ rest) ++ post))

/-- **The handler on a message that begins with a line.**  What it records, and what it writes
in the place of the line, does not depend on the session. -/
theorem requestHandleRequestLine_line (pre rest : List Byte) (l : RequestLine) :
    ∃ (url : ReqUrl) (line : List Byte), line.length = l.bytes.length ∧
      url.mimeExtension.Within (pre ++ (l.bytes ++ rest)).length ∧
      ∀ {env : Env} {s : WebSession} {post : List Byte}, s.Reads pre (l.bytes ++ rest) post →
        s.handler.par = parseArchiveInit → s.requestHandleRequestLine env =
          if ¬ l.VersionOk then
            .ok (500, s.touchHandler.touchConn.setPar (l.parsed pre.length url))
          else if l.HasPath then
            .ok ((s.lineRead pre line rest post l url).openResource env l.openedPath)
          else .error .nullDeref := by
  have hm : l.bytes ++ rest ≠ [] := by
    intro hnil
    have := congrArg List.length hnil
    rw [List.length_append, l.bytes_length, List.length_nil] at this
    omega
  obtain ⟨url, habs, -, hmime, hparse⟩ := parseRequestLine_line pre (List.prefix_append l.bytes rest)
  have hstep : ∀ {env : Env} {s : WebSession} {post : List Byte}, s.Reads pre (l.bytes ++ rest) post →
      s.handler.par = parseArchiveInit → s.requestHandleRequestLine env =
        (s.touchHandler.touchConn.setPar (l.parsed pre.length url)).requestLineAccepted env := by
    intro env s post h hpar
    rw [requestHandleRequestLine_eq h hm hpar, hparse, Run.ok_bind, if_pos rfl]
  refine ⟨url, ?_⟩
  by_cases hv : l.VersionOk
  · by_cases hpath : l.HasPath
    · rw [if_pos hpath] at habs
      obtain ⟨line, hlen, hterm⟩ := terminatePath_line pre hpath
      refine ⟨line, hlen, hmime, fun {env s post} h hpar => ?_⟩
      obtain ⟨hterm, hrel⟩ := hterm (rest ++ post)
      have hacc := @requestLineAccepted_line env
        (s.touchHandler.touchConn.setPar (l.parsed pre.length url)) _ _ _ _ _
        hterm hrel hv (by rw [← List.append_assoc l.bytes]; exact h.mem) rfl habs
      rw [if_neg (not_not_intro hv), if_pos hpath, hstep h hpar, hacc, ← List.append_assoc line]
      rfl
    · rw [if_neg hpath] at habs
      refine ⟨l.bytes, rfl, hmime, fun {env s post} h hpar => ?_⟩
      rw [if_neg (not_not_intro hv), if_neg hpath, hstep h hpar]
      exact requestLineAccepted_fault hv rfl habs
  · refine ⟨l.bytes, rfl, hmime, fun {env s post} h hpar => ?_⟩
    rw [if_pos hv, hstep h hpar]
    exact requestLineAccepted_version hv rfl

theorem requestHandleRequestLine_spec {l : RequestLine} {rest : List Byte}
    (h : s.Reads pre (l.bytes ++ rest) post) (hpar : s.handler.par = parseArchiveInit) :
    ∃ (url : ReqUrl) (line : List Byte), line.length = l.bytes.length ∧
      s.requestHandleRequestLine env =
        if ¬ l.VersionOk then
          .ok (500, s.touchHandler.touchConn.setPar (l.parsed pre.length url))
        else if l.HasPath then
          .ok ((s.lineRead pre line rest post l url).openResource env l.openedPath)
        else .error .nullDeref := by
  obtain ⟨url, line, hlen, -, heq⟩ := requestHandleRequestLine_line pre rest l
  exact ⟨url, line, hlen, heq h hpar⟩

/-- What the handler leaves behind when a resource is open: `s` is the session in which the
path was looked up. -/
structure HasResource (s s' : WebSession) (inode : Inode) : Prop where
  conn : s'.conn = s.conn
  par : ∃ url, s'.handler.par = s.handler.par.setUrl url
  reqHandler : s'.handler.reqHandler = some .headers
  resHandler : s'.handler.resHandler = s.handler.resHandler
  statusCode : s'.handler.statusCode = s.handler.statusCode
  fd_pos : 0 < s'.handler.resourceFd
  file : s'.kernel.file s'.handler.resourceFd = some inode
  size : s'.handler.resourceSize = toInt inode.stSize
  sent : s'.kernel.sent = s.kernel.sent
  live : (s'.connLive, s'.evLive, s'.handlerLive) = (s.connLive, s.evLive, s.handlerLive)

/-- The end of the handler, with another kernel and another URL than the path was looked up
with. -/
theorem hasResource_setResource {kernel : Kernel} {url : ReqUrl} {fd : Int} {inode : Inode}
    (hpos : 0 < fd) (hfile : kernel.file fd = some inode) (hsent : kernel.sent = s.kernel.sent) :
    s.HasResource (({ s with kernel := kernel }.setPar (s.handler.par.setUrl url)).setResource fd inode)
      inode :=
  ⟨rfl, ⟨url, rfl⟩, rfl, rfl, rfl, hpos, hfile, rfl, hsent, rfl⟩

/-- **`OK` means that there is a resource.** -/
theorem openResource_ok {path : List Byte} {s' : WebSession}
    (h : s.openResource env path = (OK, s')) : ∃ inode, s.HasResource s' inode := by
  have h404 : (404 : Int) ≠ OK := by decide
  unfold openResource syscall at h
  cases hroot : env.root path with
  | none =>
    simp only [hroot, Prod.mk.injEq] at h
    exact absurd h.1 h404
  | some inode =>
    cases inode with
    | file content =>
      simp only [hroot, Prod.mk.injEq] at h
      obtain ⟨-, rfl⟩ := h
      exact ⟨_, hasResource_setResource
        (Kernel.openat_pos env.rootdirFd path _ s.kernel)
        (Kernel.file_openat env.rootdirFd path _ s.kernel) rfl⟩
    | dir size index =>
      cases index with
      | none =>
        simp only [hroot, Prod.mk.injEq] at h
        exact absurd h.1 h404
      | some html =>
        simp only [hroot, Prod.mk.injEq] at h
        obtain ⟨-, rfl⟩ := h
        let dir := s.kernel.openat env.rootdirFd path (some (.dir size (some html)))
        exact ⟨_, hasResource_setResource (Kernel.openat_pos dir.1 (str "index.html") html dir.2)
          (Kernel.file_openat dir.1 (str "index.html") html dir.2) rfl⟩

/-- What `requestHandleRequestLine_spec` says of an answer `OK`. -/
theorem requestHandleRequestLine_ok {l : RequestLine} {rest : List Byte} {s' : WebSession}
    (h : s.Reads pre (l.bytes ++ rest) post) (hpar : s.handler.par = parseArchiveInit)
    (hok : s.requestHandleRequestLine env = .ok (OK, s')) :
    l.VersionOk ∧ l.HasPath ∧ ∃ (url : ReqUrl) (line : List Byte) (inode : Inode),
      line.length = l.bytes.length ∧ (s.lineRead pre line rest post l url).HasResource s' inode := by
  obtain ⟨url, line, hlen, hspec⟩ := requestHandleRequestLine_spec h hpar
  rw [hspec] at hok
  by_cases hv : l.VersionOk
  · rw [if_neg (not_not_intro hv)] at hok
    split_ifs at hok with hpath
    obtain ⟨inode, hopen⟩ := openResource_ok (Except.ok.inj hok)
    exact ⟨hv, hpath, url, line, inode, hlen, hopen⟩
  · rw [if_pos hv] at hok
    have h500 : (500 : Int) ≠ OK := by decide
    exact absurd (congrArg Prod.fst (Except.ok.inj hok)) h500

/-- What is no request line, or not yet one, is answered with the code of the parser. -/
theorem requestHandleRequestLine_refused (h : s.Reads pre m post)
    (hpar : s.handler.par = parseArchiveInit) {r : Parsed}
    (hr : parseRequestLine (pre ++ (m ++ post)) pre.length m.length (freshArchive pre.length) = .ok r)
    (hne : r.code ≠ OK) :
    ∃ s', s.requestHandleRequestLine env = .ok (if r.code = AGAIN then AGAIN else 400, s') := by
  by_cases hm : m = []
  · -- nothing to read: the parser would ask for more, and the handler does not call it
    subst hm
    have hread : s.touchHandler.touchConn.readMsg = (none, 0) := by
      have hend : s.conn.ringBufferRead.end_ = s.conn.ringBufferRead.start := by
        rw [h.start, h.end_]
        simp
      show s.readMsg = _
      simp [readMsg, RingBuffer.getMsg, hend]
    have hcode : r.code = AGAIN := by
      rw [parseRequestLine_fresh] at hr
      rw [← Except.ok.inj hr]
    unfold requestHandleRequestLine
    simp only [hread, if_pos hcode]
    exact ⟨_, rfl⟩
  · rw [requestHandleRequestLine_eq h hm hpar, hr, Run.ok_bind, if_neg hne]
    exact ⟨_, rfl⟩

/-- What is answered `OK` begins with a line. -/
theorem exists_prefix_of_ok {s' : WebSession} (h : s.Reads pre m post)
    (hpar : s.handler.par = parseArchiveInit)
    (hok : s.requestHandleRequestLine env = .ok (OK, s')) : ∃ l : RequestLine, l.bytes <+: m := by
  obtain ⟨r, hr, -⟩ := parseRequestLine_ok pre m post
  by_cases hcode : r.code = OK
  · exact parseRequestLine_sound pre post hr hcode
  · obtain ⟨t, ht⟩ := @requestHandleRequestLine_refused env _ _ _ _ h hpar _ hr hcode
    have h1 : OK = _ := congrArg Prod.fst (Run.ok_unique hok ht)
    simp only at h1
    split_ifs at h1 <;> exact absurd h1 (by decide)

theorem exists_line_of_ok {s' : WebSession} (hinv : s.conn.ringBufferRead.Inv)
    (hpar : s.handler.par = parseArchiveInit)
    (hok : s.requestHandleRequestLine env = .ok (OK, s')) :
    ∃ (l : RequestLine) (rest : List Byte), s.conn.ringBufferRead.content = l.bytes ++ rest := by
  obtain ⟨pre, post, h⟩ := exists_reads hinv
  obtain ⟨l, rest, hl⟩ := exists_prefix_of_ok h hpar hok
  exact ⟨l, rest, hl.symm⟩

end Session

/-! ## One line only -/

/-- What stands in a buffer from the URL of a line on. -/
theorem RequestLine.drop_urlOffset (l : RequestLine) (rest : List Byte) :
    (l.bytes ++ rest).drop l.urlOffset = l.url ++ l.delim :: (l.versionBytes ++ rest) := by
  obtain ⟨front, hfront, hsplit⟩ := l.split_url [] rest
  rw [List.nil_append, List.append_assoc l.url, List.cons_append] at hsplit
  rw [List.length_nil, Nat.zero_add] at hfront
  rw [hsplit, hfront, List.drop_left]

/-- Two lines that a message begins with have the same URL and the same byte behind it, and
the same version. -/
theorem RequestLine.unique_parts {l l' : RequestLine} {m : List Byte} (h : l.bytes <+: m)
    (h' : l'.bytes <+: m) : l'.url = l.url ∧ l'.delim = l.delim ∧
      decimal l'.major = decimal l.major ∧ decimal l'.minor = decimal l.minor := by
  obtain ⟨r, hr, -⟩ := parseRequestLine_ok [] m []
  obtain ⟨-, -, -, -, -, hurl, hversion⟩ := parseRequestLine_complete [] [] h hr
  obtain ⟨-, -, -, -, -, hurl', hversion'⟩ := parseRequestLine_complete [] [] h' hr
  have hslice := hurl.symm.trans hurl'
  simp only [Ssstr.slice, Ssstr.mk.injEq, CharPtr.buf.injEq, Nat.cast_inj, List.length_nil,
    Nat.zero_add] at hslice
  have hnumbers := hversion.symm.trans hversion'
  rw [HttpVersion.mk.injEq] at hnumbers
  obtain ⟨rest, hm⟩ := h
  obtain ⟨rest', hm'⟩ := h'
  have hdrop := l.drop_urlOffset rest
  rw [hm, ← hm', hslice.1, l'.drop_urlOffset] at hdrop
  obtain ⟨hsame, htail⟩ := List.append_inj hdrop hslice.2.symm
  exact ⟨hsame, (List.cons.inj htail).1, hnumbers.1.symm, hnumbers.2.symm⟩

/-- **A message begins with one request line at most**, as far as the handler looks at it. -/
theorem RequestLine.unique {l l' : RequestLine} {m : List Byte} (h : l.bytes <+: m)
    (h' : l'.bytes <+: m) : l'.openedPath = l.openedPath ∧ (l'.HasPath ↔ l.HasPath) ∧
      (l'.VersionOk ↔ l.VersionOk) := by
  obtain ⟨hurl, hdelim, hmajor, hminor⟩ := RequestLine.unique_parts h h'
  refine ⟨?_, ?_, ?_⟩
  · unfold RequestLine.openedPath RequestLine.path RequestLine.pathString
    rw [hurl]
  · unfold RequestLine.HasPath
    rw [hurl, hdelim]
  · unfold RequestLine.VersionOk
    rw [hmajor, hminor]

/-- `GET / HTTP/1.1` -/
def RequestLine.getRoot : RequestLine where
  method := .get
  gap := []
  url := str "/"
  delim := chr ' '
  gap' := []
  http := str "HTTP"
  major := str "1"
  minor := str "1"
  method_valid := by decide
  gap_blank := by simp
  url_chars := by decide +kernel
  url_head := rfl
  delim_blank := rfl
  gap'_blank := by simp
  http_letters := by decide +kernel
  major_run := ⟨by decide, by decide +kernel, fun k h1 h2 => by
    have hlen : (str "1").length = 1 := rfl
    omega⟩
  minor_run := ⟨by decide, by decide +kernel, fun k h1 h2 => by
    have hlen : (str "1").length = 1 := rfl
    omega⟩

/-! ## What the URL of a line records -/

/-- The URL of an archive is recorded: its path is a slice of one byte at least, from the slash
the URL begins with, and its query is set. -/
structure UrlRecorded (mem : Mem) (ar : ParseArchive) : Prop where
  absPath : ∃ b n : Nat, ar.urlBegin = some b ∧ mem[b]? = some (chr '/') ∧ 1 ≤ n ∧
    ar.url.absPath = .slice b n
  queryString : ar.url.queryString.str ≠ .null

/-- A URL begins with its slash. -/
theorem RequestLine.urlHead_bytes (l : RequestLine) (pre post : List Byte) :
    (pre ++ (l.bytes ++ post))[pre.length + l.urlOffset]? = some (chr '/') := by
  obtain ⟨t, ht⟩ := l.exists_url
  obtain ⟨front, hfront, hsplit⟩ := l.split_url pre post
  rw [hsplit, hfront, ht, List.getElem?_append_right le_rfl, Nat.sub_self]
  rfl

theorem RequestLine.path_length_pos (l : RequestLine) : 1 ≤ l.path.length := by
  have hne : chr '/' ≠ chr '?' := by decide
  obtain ⟨t, ht⟩ := l.exists_url
  unfold RequestLine.path
  rw [ht, List.takeWhile_cons_of_pos (by simpa using hne), List.length_cons]
  omega

/-- A line whose URL a space ends is read without a fault, whatever its handler finds. -/
theorem Session.requestHandleRequestLine_noFault {env : Env} {s : WebSession}
    {pre rest post : List Byte} {l : RequestLine} (hpath : l.HasPath)
    (h : s.Reads pre (l.bytes ++ rest) post) (hpar : s.handler.par = parseArchiveInit) :
    s.requestHandleRequestLine env ≠ .error .nullDeref := by
  obtain ⟨url, line, -, hspec⟩ : ∃ (url : ReqUrl) (line : List Byte), _ ∧
    s.requestHandleRequestLine env = _ := requestHandleRequestLine_spec h hpar
  rw [hspec, if_pos hpath]
  intro hfault
  split_ifs at hfault

/-- **The URL of an accepted line is recorded exactly when a space ends it.**  The line parser
takes a tab for an end as well, `parse_url` does not.  Behind a space the handler of the line
meets no null pointer. -/
theorem urlRecorded_iff (pre post : List Byte) {m : List Byte} {r : Parsed}
    (hr : parseRequestLine (pre ++ (m ++ post)) pre.length m.length (freshArchive pre.length) =
      .ok r) (hok : r.code = OK) :
    (UrlRecorded (pre ++ (m ++ post)) r.ar ∧
      ∀ (env : Env) (s : WebSession), s.Reads pre m post → s.handler.par = parseArchiveInit →
        s.requestHandleRequestLine env ≠ .error .nullDeref) ↔
      ∃ l : RequestLine, l.bytes <+: m ∧ l.delim = chr ' ' := by
  constructor
  · rintro ⟨hrec, -⟩
    obtain ⟨l, hl⟩ := parseRequestLine_sound pre post hr hok
    refine ⟨l, hl, ?_⟩
    obtain ⟨url, -, hquery, -, hparse⟩ := parseRequestLine_line pre hl
    obtain rfl := Run.ok_unique hr (hparse post)
    by_contra hdelim
    rw [if_neg hdelim] at hquery
    exact hrec.queryString (congrArg Ssstr.str hquery)
  · rintro ⟨l, hl, hdelim⟩
    have hpath : l.HasPath := Or.inl hdelim
    obtain ⟨url, habs, hquery, -, hparse⟩ := parseRequestLine_line pre hl
    obtain rfl := Run.ok_unique hr (hparse post)
    rw [if_pos hpath] at habs
    rw [if_pos hdelim] at hquery
    obtain ⟨rest, rfl⟩ := hl
    refine ⟨⟨⟨_, _, rfl, ?_, l.path_length_pos, habs⟩, ?_⟩, ?_⟩
    · rw [List.append_assoc l.bytes]
      exact l.urlHead_bytes pre (rest ++ post)
    · exact fun hnull => l.query_str_ne_null pre.length ((congrArg Ssstr.str hquery).symm.trans hnull)
    · intro env s hreads hpar
      exact Session.requestHandleRequestLine_noFault hpath hreads hpar

/-- A space behind the URL. -/
theorem urlRecorded_space : ∃ r, parseRequestLine (str "GET / HTTP/1.1\r\n") 0 16
      (freshArchive 0) = .ok r ∧ UrlRecorded (str "GET / HTTP/1.1\r\n") r.ar := by
  have hline : RequestLine.getRoot.bytes = str "GET / HTTP/1.1\r\n" := by decide +kernel
  obtain ⟨url, -, -, -, hparse⟩ := parseRequestLine_line [] (List.prefix_refl RequestLine.getRoot.bytes)
  have hrec := ((urlRecorded_iff [] [] (hparse []) rfl).2
    ⟨RequestLine.getRoot, List.prefix_refl _, rfl⟩).1
  rw [hline] at hparse hrec
  exact ⟨_, hparse [], hrec⟩

/-- **A tab behind the URL**: the line is accepted, nothing is recorded, and the handler goes
through the null pointer. -/
theorem not_urlRecorded_tab : ¬ ∀ (pre post m : List Byte) (r : Parsed),
    parseRequestLine (pre ++ (m ++ post)) pre.length m.length (freshArchive pre.length) = .ok r →
      r.code = OK → UrlRecorded (pre ++ (m ++ post)) r.ar ∧
        ∀ (env : Env) (s : WebSession), s.Reads pre m post → s.handler.par = parseArchiveInit →
          s.requestHandleRequestLine env ≠ .error .nullDeref := by
  intro h
  have hparse : (parseRequestLine (str "GET /\tHTTP/1.1\r\n") 0 16 (freshArchive 0)).map
      (fun r => (r.code, r.ar.url.queryString.str)) = .ok (OK, .null) := by
    decide +kernel
  obtain ⟨r, hr, hval⟩ := Run.map_eq_ok.1 hparse
  obtain ⟨hcode, hnull⟩ := Prod.mk.inj hval
  exact (h [] [] (str "GET /\tHTTP/1.1\r\n") r hr hcode).1.queryString hnull

end MWebServer
