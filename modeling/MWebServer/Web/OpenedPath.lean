import MWebServer.Web.RootConfinement

/-!
# The path that is opened and the path that is recorded

The path of a URL is delimited twice.  `parse_url` records it as a slice, with the
extension at its end; `request_handle_request_line` searches the buffer for the end of
a C string, writes a `NUL` there and opens what stands in front of it.  The two agree
unless the path holds a `NUL` of its own (`opensRecorded_iff`).

* `parseRequestLine_extension` — the extension is an end of the path.
* `terminatePath_split` — the one byte that is written, and what it was.
* `NulHarmless` — nothing that is recorded, and nothing that is still to be read, changes.
-/

namespace MWebServer

/-! ## The extension -/

namespace RequestLine

/-- Path and C string are the same where no `NUL` comes first. -/
theorem pathString_eq_path_iff (l : RequestLine) : l.pathString = l.path ↔ 0 ∉ l.path := by
  rw [pathString_eq, List.takeWhile_eq_self_iff]
  constructor
  · intro h hmem
    simpa using h 0 hmem
  · intro h c hc
    have hne : c ≠ 0 := fun h0 => h (h0 ▸ hc)
    simpa using hne

/-- What ends the path of a line whose URL a space ends. -/
theorem exists_pathDelim {l : RequestLine} (hspace : l.delim = chr ' ') : ∃ c b,
    l.url ++ l.delim :: l.versionBytes = l.path ++ c :: b ∧ (c = chr ' ' ∨ c = chr '?') := by
  obtain ⟨c, b, hurl, ⟨-, hdelim⟩ | hc⟩ := l.exists_urlStop fun c => c ≠ chr '?'
  · exact ⟨c, b, hurl, Or.inl (hdelim.trans hspace)⟩
  · exact ⟨c, b, hurl, Or.inr (by simpa using hc)⟩

end RequestLine

/-- The byte behind the path is not the dot of an extension. -/
theorem pathEnd_ne_dot {c : Byte} (hc : c = chr ' ' ∨ c = chr '?') : c ≠ chr '.' := by
  rcases hc with rfl | rfl <;> decide

/-- **The extension is an end of the path**, or unset. -/
theorem parseRequestLine_extension {pre rest post : List Byte} {l : RequestLine}
    (hspace : l.delim = chr ' ') {r : Parsed}
    (hr : parseRequestLine (pre ++ ((l.bytes ++ rest) ++ post)) pre.length (l.bytes ++ rest).length
      (freshArchive pre.length) = .ok r) :
    r.ar.url.absPath = .slice (pre.length + l.urlOffset) l.path.length ∧
      (r.ar.url.mimeExtension = .init ∨ ∃ k, k ≤ l.path.length ∧ r.ar.url.mimeExtension =
        .slice (pre.length + l.urlOffset + k) (l.path.length - k)) := by
  obtain ⟨url, habs, -, -, hparse⟩ := parseRequestLine_line pre (List.prefix_append l.bytes rest)
  have hpath : l.HasPath := Or.inl hspace
  rw [if_pos hpath] at habs
  obtain ⟨url', hext, heq⟩ := parseRequestLine_eq pre post (List.prefix_append l.bytes rest) hr
  obtain rfl : _ = r := Run.ok_unique (hparse post) hr
  obtain rfl : url = url' := congrArg (fun r : Parsed => r.ar.url) heq
  refine ⟨habs, ?_⟩
  have hsplit : (splitUrl (pre.length + l.urlOffset) l.url l.delim
      (freshArchive pre.length).url).absPath = .slice (pre.length + l.urlOffset) l.path.length := by
    rw [l.splitUrl_absPath _ _ rfl, if_pos hpath]
  obtain ⟨c, b, hurl, hc⟩ := RequestLine.exists_pathDelim hspace
  obtain ⟨front, hfront, hmem⟩ := l.split_url pre (rest ++ post)
  rw [← List.append_assoc l.bytes] at hmem
  -- the byte at the end of the path
  have hend : (pre ++ ((l.bytes ++ rest) ++ post))[pre.length + l.urlOffset + l.path.length]? =
      some c := by
    rw [hmem, hurl, hfront]
    simp
  rw [parseExtension, hsplit] at hext
  have hloop : extensionLoop (pre ++ ((l.bytes ++ rest) ++ post)) (pre.length + l.urlOffset)
      (pre.length + l.urlOffset + l.path.length) l.path.length (splitUrl (pre.length + l.urlOffset)
        l.url l.delim (freshArchive pre.length).url) = .ok url := by
    simpa [Ssstr.slice] using hext
  have hne : (pre ++ ((l.bytes ++ rest) ++ post))[pre.length + l.urlOffset + l.path.length]? ≠
      some (chr '.') := by
    rw [hend]
    exact fun h => pathEnd_ne_dot hc (Option.some.inj h)
  rcases extensionLoop_suffix le_rfl hne hloop with hsame | ⟨k, hk, hmime⟩
  · left
    rw [splitUrl_mimeExtension] at hsame
    exact hsame
  · refine Or.inr ⟨k, by omega, ?_⟩
    show url.mimeExtension = _
    rw [hmime, show pre.length + l.urlOffset + l.path.length - (pre.length + l.urlOffset + k) =
      l.path.length - k by omega]

/-! ## The byte that is written -/

/-- **The one byte that `request_handle_request_line` writes** stands behind the path, in place
of the space or the question mark there, unless the path holds a `NUL` to stop at. -/
theorem terminatePath_split {pre post : List Byte} {l : RequestLine} (hspace : l.delim = chr ' ') :
    ∃ front c b, pre.length + l.urlOffset = front.length ∧
      pre ++ (l.bytes ++ post) = front ++ (l.path ++ c :: (b ++ post)) ∧
      terminatePath (pre ++ (l.bytes ++ post)) (pre.length + l.urlOffset) =
        .ok (if 0 ∈ l.path then pre ++ (l.bytes ++ post)
          else front ++ (l.path ++ 0 :: (b ++ post))) := by
  obtain ⟨c, b, hurl, hc⟩ := RequestLine.exists_pathDelim hspace
  obtain ⟨front, hfront, hmem⟩ := l.split_url pre post
  rw [hurl] at hmem
  have hmem' : pre ++ (l.bytes ++ post) = front ++ (l.path ++ c :: (b ++ post)) := by
    rw [hmem]
    simp
  refine ⟨front, c, b, hfront, hmem', ?_⟩
  have hchars := pathString_chars l
  by_cases h0 : 0 ∈ l.path
  · -- the search stops at a `NUL`, which is written once more
    obtain ⟨u, v, hpath, hu⟩ := List.eq_append_cons_of_mem h0
    have hstring : l.pathString = u := by
      rw [l.pathString_eq, hpath, List.takeWhile_append_of_pos, List.takeWhile_cons_of_neg (by simp),
        List.append_nil]
      intro x hx
      have hne : x ≠ 0 := fun h => hu (h ▸ hx)
      simpa using hne
    rw [hstring] at hchars
    rw [if_pos h0, hfront, hmem', hpath, List.append_assoc, List.cons_append]
    exact terminatePath_eq hchars (Or.inl rfl)
  · rw [l.pathString_eq_path_iff.2 h0] at hchars
    rw [if_neg h0, hfront, hmem']
    exact terminatePath_eq hchars (Or.inr hc)

section Write

variable {x y : List Byte} (c d : Byte)

/-- A slice in front of a byte does not see what is written there. -/
theorem Ssstr.Within.bytes_write {s : Ssstr} (h : s.Within x.length) :
    s.bytes (x ++ d :: y) = s.bytes (x ++ c :: y) := by
  rw [h.bytes_append, h.bytes_append]

/-- What stands behind a byte neither. -/
theorem drop_write {q : Nat} (h : x.length < q) : (x ++ d :: y).drop q = (x ++ c :: y).drop q := by
  obtain ⟨k, rfl⟩ : ∃ k, q = x.length + (k + 1) := ⟨q - x.length - 1, by omega⟩
  simp

end Write

/-! ## What the handler leaves of the buffer -/

namespace Session

variable {env : Env} {s : WebSession}

theorem openResource_readMem (env : Env) (path : List Byte) (s : WebSession) :
    (s.openResource env path).2.readMem = s.readMem := by
  unfold openResource syscall
  cases env.root path with
  | none => rfl
  | some inode =>
    cases inode with
    | file content => rfl
    | dir size index => cases index <;> rfl

/-- The handler writes to the buffer through `terminatePath` only. -/
theorem requestLineAccepted_readMem {code : Int} {s' : WebSession}
    (h : s.requestLineAccepted env = .ok (code, s')) : s'.readMem = s.readMem ∨
      ∃ off, s.handler.par.url.absPath.str = .buf off ∧
        terminatePath s.readMem off = .ok s'.readMem := by
  rcases requestLineAccepted_cases h with ⟨-, rfl⟩ | ⟨off, mem, par, path, habs, hterm, hopen⟩
  · exact Or.inl rfl
  · have hmem := openResource_readMem env path ((s.setPar par).setReadMem mem)
    rw [hopen] at hmem
    rw [show s'.readMem = mem from hmem]
    exact Or.inr ⟨off, habs, hterm⟩

/-- The handler on an accepted line: the buffer as it was, or with the one byte written. -/
theorem requestHandleRequestLine_readMem {pre rest post : List Byte} {l : RequestLine} {code : Int}
    {s' : WebSession} (h : s.Reads pre (l.bytes ++ rest) post)
    (hpar : s.handler.par = parseArchiveInit) (hspace : l.delim = chr ' ')
    (hrun : s.requestHandleRequestLine env = .ok (code, s')) :
    s'.readMem = s.readMem ∨ ∃ front c b, pre.length + l.urlOffset = front.length ∧
      s.readMem = front ++ (l.path ++ c :: b) ∧ s'.readMem = front ++ (l.path ++ 0 :: b) := by
  have hm : l.bytes ++ rest ≠ [] := by
    intro hnil
    have hlen := congrArg List.length hnil
    rw [List.length_append, l.bytes_length, List.length_nil] at hlen
    omega
  have hmem : s.readMem = pre ++ (l.bytes ++ (rest ++ post)) := by
    rw [h.mem, List.append_assoc l.bytes]
  obtain ⟨url, habs, -, -, hparse⟩ := parseRequestLine_line pre (List.prefix_append l.bytes rest)
  have hpath : l.HasPath := Or.inl hspace
  rw [if_pos hpath] at habs
  rw [requestHandleRequestLine_eq h hm hpar, hparse, Run.ok_bind, if_pos rfl] at hrun
  rcases requestLineAccepted_readMem hrun with hsame | ⟨off, hoff, hterm⟩
  · exact Or.inl hsame
  · obtain rfl : pre.length + l.urlOffset = off :=
      CharPtr.buf.inj ((congrArg Ssstr.str habs).symm.trans hoff)
    obtain ⟨front, c, b, hfront, hsplit, hwrite⟩ :=
      @terminatePath_split pre (rest ++ post) l hspace
    have hterm' : terminatePath s.readMem (pre.length + l.urlOffset) = .ok s'.readMem := hterm
    rw [hmem] at hterm' ⊢
    have hval := Run.ok_unique hwrite hterm'
    split_ifs at hval
    · exact Or.inl hval.symm
    · exact Or.inr ⟨front, c, _, hfront, hsplit, hval.symm⟩

end Session

/-! ## The two paths -/

/-- The relative path of an absolute one. -/
def relativeTo (absPath : List Byte) : List Byte :=
  if absPath = str "/" then str "./" else absPath.drop 1

namespace RequestLine

theorem path_eq_slash_iff (l : RequestLine) : l.path = str "/" ↔ l.path.length = 1 := by
  have hslash : str "/" = [chr '/'] := rfl
  constructor
  · intro h
    rw [h, hslash]
    rfl
  · intro h
    obtain ⟨t, ht⟩ := l.exists_pathString
    have hprefix : l.pathString <+: l.path := l.pathString_eq ▸ List.takeWhile_prefix _
    have hlen : l.pathString.length = l.path.length := by
      have hle := hprefix.length_le
      rw [ht, List.length_cons] at hle ⊢
      omega
    rw [← hprefix.eq_of_length hlen, ht, hslash]
    rw [ht, List.length_cons] at hlen
    rw [List.length_eq_zero_iff.1 (by omega : t.length = 0)]

/-- **The handler opens the recorded path exactly when no `NUL` is in it.** -/
theorem openedPath_eq_iff (l : RequestLine) : l.openedPath = relativeTo l.path ↔ 0 ∉ l.path := by
  unfold openedPath relativeTo
  simp only [l.path_eq_slash_iff]
  split_ifs with hone
  · have h0 : 0 ∉ l.path := by
      rw [l.path_eq_slash_iff.2 hone]
      decide
    exact iff_of_true rfl h0
  · rw [← l.pathString_eq_path_iff]
    constructor
    · intro h
      obtain ⟨t, ht⟩ := l.exists_pathString
      obtain ⟨u, hu⟩ : l.pathString <+: l.path := l.pathString_eq ▸ List.takeWhile_prefix _
      rw [← hu, ht] at h ⊢
      simpa using h
    · intro h
      rw [h]

/-- `GET /dir/a.html?x=1 HTTP/1.1` -/
def getQuery : RequestLine :=
  { getRoot with
    url := str "/dir/a.html?x=1"
    url_chars := by decide +kernel
    url_head := rfl }

/-- `GET /a<NUL>b.html HTTP/1.1` -/
def getNul : RequestLine :=
  { getRoot with
    url := str "/a\x00b.html"
    url_chars := by decide +kernel
    url_head := rfl }

end RequestLine

namespace Session

/-- What the handler opens for the archive `ar` of the line `l`: the recorded path, of which the
extension is an end, made relative. -/
structure OpensRecorded (env : Env) (s : WebSession) (l : RequestLine) (ar : ParseArchive) : Prop where
  opened : ∀ path, s.HandsToOpenat env path ↔
    l.VersionOk ∧ path = relativeTo (ar.url.absPath.bytes s.readMem)
  extension : ar.url.mimeExtension.bytes s.readMem <:+ ar.url.absPath.bytes s.readMem

/-- The `NUL` that the handler writes changes neither what is recorded of the URL nor what stands
at the position where parsing goes on, or behind it. -/
structure NulHarmless (env : Env) (s : WebSession) (ar : ParseArchive) : Prop where
  recorded : ∀ code s', s.requestHandleRequestLine env = .ok (code, s') →
    ∀ slice ∈ [ar.url.absPath, ar.url.queryString, ar.url.mimeExtension],
      slice.bytes s'.readMem = slice.bytes s.readMem
  ahead : ∀ code s' pos, s.requestHandleRequestLine env = .ok (code, s') →
    ar.nextParsePos = some pos → s'.readMem.drop pos = s.readMem.drop pos

section Accepted

variable {env : Env} {s : WebSession} {pre rest post : List Byte} {l : RequestLine} {r : Parsed}

/-- **The write is harmless** behind every URL that a space ends. -/
theorem nulHarmless (h : s.Reads pre (l.bytes ++ rest) post)
    (hpar : s.handler.par = parseArchiveInit) (hspace : l.delim = chr ' ')
    (hr : parseRequestLine (pre ++ ((l.bytes ++ rest) ++ post)) pre.length (l.bytes ++ rest).length
      (freshArchive pre.length) = .ok r) : s.NulHarmless env r.ar := by
  obtain ⟨habs, hmime⟩ := parseRequestLine_extension hspace hr
  obtain ⟨url, -, hquery, -, hparse⟩ := parseRequestLine_line pre (List.prefix_append l.bytes rest)
  rw [if_pos hspace] at hquery
  obtain rfl : _ = r := Run.ok_unique (hparse post) hr
  have hsub : l.path.length ≤ l.url.length := (List.takeWhile_sublist _).length_le
  constructor
  · intro code s' hrun slice hslice
    rcases requestHandleRequestLine_readMem h hpar hspace hrun with hsame |
      ⟨front, c, b, hfront, hmem, hmem'⟩
    · rw [hsame]
    · rw [hmem, hmem', ← List.append_assoc, ← List.append_assoc]
      simp only [List.mem_cons, List.not_mem_nil, or_false] at hslice
      rcases hslice with rfl | rfl | rfl
      · refine Ssstr.Within.bytes_write c 0 ?_
        rw [habs, hfront]
        simp [Ssstr.slice, Ssstr.Within]
      · show url.queryString.bytes _ = url.queryString.bytes _
        rw [hquery]
        unfold RequestLine.query
        split_ifs
        · rw [Ssstr.bytes_slice, Ssstr.bytes_slice, drop_write c 0]
          rw [List.length_append]
          omega
        · simp
      · refine Ssstr.Within.bytes_write c 0 ?_
        rcases hmime with hinit | ⟨k, hk, hslice⟩
        · rw [hinit]
          trivial
        · rw [hslice, hfront]
          simp only [Ssstr.slice, Ssstr.Within, List.length_append]
          omega
  · intro code s' pos hrun hpos
    rcases requestHandleRequestLine_readMem h hpar hspace hrun with hsame |
      ⟨front, c, b, hfront, hmem, hmem'⟩
    · rw [hsame]
    · obtain rfl : pre.length + l.bytes.length = pos := Option.some.inj hpos
      rw [hmem, hmem', ← List.append_assoc, ← List.append_assoc]
      refine drop_write c 0 ?_
      have := l.bytes_length
      rw [List.length_append]
      omega

/-- **The opened path.**  Behind a URL that a space ends, what is opened is what is recorded if
and only if no `NUL` stands in the path, or the version is refused and nothing is opened. -/
theorem opensRecorded_iff (h : s.Reads pre (l.bytes ++ rest) post)
    (hpar : s.handler.par = parseArchiveInit) (hspace : l.delim = chr ' ')
    (hr : parseRequestLine (pre ++ ((l.bytes ++ rest) ++ post)) pre.length (l.bytes ++ rest).length
      (freshArchive pre.length) = .ok r) :
    (s.OpensRecorded env l r.ar ∧ s.NulHarmless env r.ar) ↔ (l.VersionOk → 0 ∉ l.path) := by
  obtain ⟨habs, hmime⟩ := parseRequestLine_extension hspace hr
  have hpath : l.HasPath := Or.inl hspace
  have hbytes : r.ar.url.absPath.bytes s.readMem = l.path := by
    obtain ⟨front, c, b, hfront, hmem, -⟩ := @terminatePath_split pre (rest ++ post) l hspace
    rw [habs, h.mem, List.append_assoc l.bytes, hmem, hfront, Ssstr.bytes_slice, List.drop_left,
      List.take_left]
  rw [← l.openedPath_eq_iff]
  constructor
  · rintro ⟨hopens, -⟩ hv
    have hopened := (hopens.opened l.openedPath).1
      ((handsToOpenat_iff h hpar l.openedPath).2 ⟨hv, hpath, rfl⟩)
    rw [hbytes] at hopened
    exact hopened.2
  · intro hsame
    refine ⟨⟨fun path => ?_, ?_⟩, nulHarmless h hpar hspace hr⟩
    · rw [handsToOpenat_iff h hpar, hbytes]
      constructor
      · rintro ⟨hv, -, hopened⟩
        exact ⟨hv, hopened.trans (hsame hv)⟩
      · rintro ⟨hv, hopened⟩
        exact ⟨hv, hpath, hopened.trans (hsame hv).symm⟩
    · rcases hmime with hinit | ⟨k, hk, hslice⟩
      · rw [hinit]
        exact List.nil_suffix
      · have hend : r.ar.url.mimeExtension.bytes s.readMem = l.path.drop k := by
          rw [← hbytes, habs, hslice, Ssstr.bytes_slice, Ssstr.bytes_slice, List.drop_take,
            List.drop_drop]
        rw [hend, hbytes]
        exact List.drop_suffix k l.path

end Accepted

/-- A page in a directory, asked for with a query. -/
theorem opensRecorded_query : ∃ r, parseRequestLine RequestLine.getQuery.bytes 0
      RequestLine.getQuery.bytes.length (freshArchive 0) = .ok r ∧
    (received RequestLine.getQuery.bytes).OpensRecorded .oneFile RequestLine.getQuery r.ar ∧
    (received RequestLine.getQuery.bytes).HandsToOpenat .oneFile (str "dir/a.html") := by
  obtain ⟨r, hr, -, -⟩ := parseRequestLine_ok [] RequestLine.getQuery.bytes []
  have hreads := received_reads RequestLine.getQuery.bytes
  rw [← List.append_nil RequestLine.getQuery.bytes] at hr hreads
  have hopens := ((@opensRecorded_iff .oneFile _ _ _ _ _ _ hreads rfl rfl hr).2
    fun _ => by decide +kernel).1
  have hopened := (@handsToOpenat_iff .oneFile _ _ _ _ _ hreads rfl (str "dir/a.html")).2
    ⟨by decide +kernel, Or.inl rfl, by decide +kernel⟩
  simp only [List.append_nil] at hr hopens hopened
  exact ⟨r, hr, hopens, hopened⟩

/-- **A `NUL` in the path**: `a` is opened, and its type is that of `/a<NUL>b.html`. -/
theorem not_opensRecorded : ¬ ∀ (env : Env) (s : WebSession) (pre rest post : List Byte)
    (l : RequestLine) (r : Parsed), s.Reads pre (l.bytes ++ rest) post →
      s.handler.par = parseArchiveInit → l.delim = chr ' ' →
      parseRequestLine (pre ++ ((l.bytes ++ rest) ++ post)) pre.length (l.bytes ++ rest).length
        (freshArchive pre.length) = .ok r → s.OpensRecorded env l r.ar ∧ s.NulHarmless env r.ar := by
  intro h
  obtain ⟨r, hr, -, -⟩ := parseRequestLine_ok [] RequestLine.getNul.bytes []
  have hreads := received_reads RequestLine.getNul.bytes
  rw [← List.append_nil RequestLine.getNul.bytes] at hr hreads
  obtain ⟨hopens, -⟩ := h .oneFile _ [] [] [] RequestLine.getNul r hreads rfl rfl hr
  have hmem : (received (RequestLine.getNul.bytes ++ [])).readMem = RequestLine.getNul.bytes := by
    simp [received, setRead, readMem]
  have hpath : r.ar.url.absPath.bytes (received (RequestLine.getNul.bytes ++ [])).readMem =
      str "/a\x00b.html" := by
    rw [(parseRequestLine_extension rfl hr).1, hmem]
    decide +kernel
  have hopened := (@handsToOpenat_iff .oneFile _ _ _ _ _ hreads rfl (str "a")).2
    ⟨by decide +kernel, Or.inl rfl, by decide +kernel⟩
  have hsame := ((hopens.opened (str "a")).1 hopened).2
  rw [hpath] at hsame
  exact absurd hsame (by decide +kernel)

end Session

end MWebServer
