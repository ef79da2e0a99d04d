import MWebServer.Web.HttpParser

/-!
# Splitting a URL (`parse_url`)

`parse_url` runs its own machine over the bytes of a URL and the delimiter behind
it, and then looks for an extension from the end of the path backwards.  On a URL
as the line parser delimits it, a run without blanks that begins with a slash, the
machine computes `splitUrl` (`scan_urlBody`); the extension only adds to it
(`parseExtension_spec`).
-/

namespace MWebServer

open Scan

/-- The bytes of a URL: neither blank nor newline. -/
def isUrlChar (c : Byte) : Bool := !isBlank c && !isNewline c

/-- What the machine of `parse_url` makes of the URL `u` at position `b` with the delimiter
`d` behind it.  A tab is no delimiter for it, so that it leaves open what only a space
would have closed. -/
def splitUrl (b : Nat) (u : List Byte) (d : Byte) (url : ReqUrl) : ReqUrl :=
  let n := (u.takeWhile (· ≠ chr '?')).length
  if n < u.length then
    { url with
      absPath := .slice b n
      queryString := if d = chr ' ' then .slice (b + n + 1) (u.length - n - 1) else url.queryString }
  else if d = chr ' ' then { url with absPath := .slice b n, queryString := .slice (b + n) 0 }
  else url

theorem ne_space_of_isUrlChar {c : Byte} (h : isUrlChar c = true) : c ≠ chr ' ' := by
  rintro rfl
  exact absurd h (by decide)

/-! ## The forward scan -/

/-- In the path, everything but a space and a question mark is passed over. -/
theorem urlBody_path_skip {c : Byte} (h1 : c ≠ chr ' ') (h2 : c ≠ chr '?') (q start : Nat)
    (url : ReqUrl) :
    urlBody q c ⟨.urlAbsPath, start, url⟩ = .next ⟨.urlAbsPath, start, url⟩ := by
  simp [urlBody, h1, h2]

/-- In the query, everything but a space is passed over. -/
theorem urlBody_query_skip {c : Byte} (h1 : c ≠ chr ' ') (q start : Nat) (url : ReqUrl) :
    urlBody q c ⟨.urlQuery, start, url⟩ = .next ⟨.urlQuery, start, url⟩ := by
  simp [urlBody, h1]

/-- The machine on a URL without a question mark. -/
theorem scan_urlBody_noQuery {u : List Byte} (hu : ∀ c ∈ u, c ≠ chr ' ' ∧ c ≠ chr '?')
    (p start : Nat) (d : Byte) (url : ReqUrl) (hd : isBlank d = true) :
    ∃ st, scanList urlBody p (u ++ [d]) ⟨.urlAbsPath, start, url⟩ = .next ⟨st, start,
      if d = chr ' ' then
        { url with
          absPath := .slice start (p + u.length - start)
          queryString := .slice (p + u.length) 0 }
      else url⟩ := by
  rw [scanList_skip (fun c hc q => urlBody_path_skip (hu c hc).1 (hu c hc).2 q start url)]
  by_cases hsp : d = chr ' '
  · refine ⟨.urlEnd, ?_⟩
    simp [scanList_cons, urlBody, hsp]
  · have hq : d ≠ chr '?' := by
      rintro rfl
      exact absurd hd (by decide)
    refine ⟨.urlAbsPath, ?_⟩
    simp [scanList_cons, urlBody, hsp, hq]

/-- The machine on the rest of a URL from its question mark on. -/
theorem scan_urlBody_query {y : List Byte} (hy : ∀ c ∈ y, c ≠ chr ' ') (p start : Nat) (d : Byte)
    (url : ReqUrl) :
    ∃ st, scanList urlBody p (chr '?' :: (y ++ [d])) ⟨.urlAbsPath, start, url⟩ =
      .next ⟨st, p + 1,
        { url with
          absPath := .slice start (p - start)
          queryString := if d = chr ' ' then .slice (p + 1) y.length else url.queryString }⟩ := by
  have hstep : urlBody p (chr '?') ⟨.urlAbsPath, start, url⟩ =
      .next ⟨.urlQuery, p + 1, { url with absPath := .slice start (p - start) }⟩ := by
    have hne : chr '?' ≠ chr ' ' := by decide
    simp [urlBody, hne]
  rw [scanList_cons_next hstep, scanList_skip (fun c hc q => urlBody_query_skip (hy c hc) q _ _)]
  by_cases hsp : d = chr ' '
  · refine ⟨.urlEnd, ?_⟩
    simp [scanList_cons, urlBody, hsp]
  · refine ⟨.urlQuery, ?_⟩
    simp [scanList_cons, urlBody, hsp]

/-- **The machine of `parse_url` splits a URL at its first question mark.** -/
theorem scan_urlBody {u : List Byte} (hu : ∀ c ∈ u, isUrlChar c = true)
    (hhead : u.head? = some (chr '/')) {d : Byte} (hd : isBlank d = true) (b : Nat) (url : ReqUrl) :
    ∃ st start, scanList urlBody b (u ++ [d]) ⟨.urlBegin, b, url⟩ =
      .next ⟨st, start, splitUrl b u d url⟩ := by
  cases u with
  | nil => simp at hhead
  | cons c v =>
    have hc : c = chr '/' := by simpa using hhead
    subst hc
    have hstep : urlBody b (chr '/') ⟨.urlBegin, b, url⟩ = .next ⟨.urlAbsPath, b, url⟩ := by
      simp [urlBody]
    have hslash : chr '/' ≠ chr '?' := by decide
    have hsp : ∀ c ∈ v, c ≠ chr ' ' := fun c hc => ne_space_of_isUrlChar (hu c (by simp [hc]))
    rw [List.cons_append, scanList_cons_next hstep]
    by_cases hq : chr '?' ∈ v
    · -- the path ends at the first question mark
      obtain ⟨x, y, rfl, hx⟩ := List.eq_append_cons_of_mem hq
      have hx' : ∀ c ∈ x, c ≠ chr ' ' ∧ c ≠ chr '?' := fun c hc =>
        ⟨hsp c (by simp [hc]), fun h => hx (h ▸ hc)⟩
      have htake : (chr '/' :: (x ++ chr '?' :: y)).takeWhile (· ≠ chr '?') = chr '/' :: x := by
        rw [List.takeWhile_cons_of_pos (by simpa using hslash),
          List.takeWhile_append_of_pos (fun c hc => by simpa using (hx' c hc).2)]
        simp
      have hsplit : splitUrl b (chr '/' :: (x ++ chr '?' :: y)) d url =
          { url with
            absPath := .slice b (b + 1 + x.length - b)
            queryString := if d = chr ' ' then .slice (b + 1 + x.length + 1) y.length
              else url.queryString } := by
        simp only [splitUrl, htake, List.length_cons, List.length_append]
        rw [if_pos (by omega), show b + 1 + x.length - b = x.length + 1 by omega,
          show b + (x.length + 1) + 1 = b + 1 + x.length + 1 by omega,
          show x.length + (y.length + 1) + 1 - (x.length + 1) - 1 = y.length by omega]
      rw [List.append_assoc, List.cons_append,
        scanList_skip (fun c hc q => urlBody_path_skip (hx' c hc).1 (hx' c hc).2 q b url), hsplit]
      have hy : ∀ c ∈ y, c ≠ chr ' ' := fun c hc => hsp c (by simp [hc])
      obtain ⟨st, hst⟩ := scan_urlBody_query hy (b + 1 + x.length) b d url
      exact ⟨st, _, hst⟩
    · have hv : ∀ c ∈ v, c ≠ chr ' ' ∧ c ≠ chr '?' := fun c hc => ⟨hsp c hc, fun h => hq (h ▸ hc)⟩
      have htake : (chr '/' :: v).takeWhile (· ≠ chr '?') = chr '/' :: v := by
        rw [List.takeWhile_eq_self_iff]
        intro c hc
        rcases List.mem_cons.1 hc with rfl | hc
        · simpa using hslash
        · simpa using (hv c hc).2
      have hsplit : splitUrl b (chr '/' :: v) d url =
          if d = chr ' ' then
            { url with
              absPath := .slice b (b + 1 + v.length - b)
              queryString := .slice (b + 1 + v.length) 0 }
          else url := by
        simp only [splitUrl, htake, List.length_cons]
        rw [if_neg (by omega), show b + 1 + v.length - b = v.length + 1 by omega,
          show b + (v.length + 1) = b + 1 + v.length by omega]
      obtain ⟨st, hst⟩ := scan_urlBody_noQuery hv (b + 1) b d url hd
      rw [hst, hsplit]
      exact ⟨st, b, rfl⟩

/-! ## The extension -/

theorem splitUrl_mimeExtension (b : Nat) (u : List Byte) (d : Byte) (url : ReqUrl) :
    (splitUrl b u d url).mimeExtension = url.mimeExtension := by
  unfold splitUrl
  simp only
  split_ifs <;> rfl

/-- The backward scan succeeds inside the buffer and leaves the path and the query alone. -/
theorem extensionLoop_spec {mem : Mem} {abs absEnd : Nat} {n : Nat} (hn : abs + n < mem.length)
    (url : ReqUrl) :
    ∃ url', extensionLoop mem abs absEnd n url = .ok url' ∧ url'.absPath = url.absPath ∧
      url'.queryString = url.queryString := by
  induction n with
  | zero => exact ⟨url, rfl, rfl, rfl⟩
  | succ n ih =>
    rw [extensionLoop, List.getElem?_eq_getElem hn]
    simp only
    split_ifs
    · exact ⟨_, rfl, rfl, rfl⟩
    · exact ⟨url, rfl, rfl, rfl⟩
    · exact ih (by omega)

/-- The scan looks at the bytes `(abs, abs + n]` only. -/
theorem extensionLoop_congr {mem mem' : Mem} {abs absEnd n : Nat}
    (h : ∀ i, abs < i → i ≤ abs + n → mem[i]? = mem'[i]?) (url : ReqUrl) :
    extensionLoop mem abs absEnd n url = extensionLoop mem' abs absEnd n url := by
  induction n with
  | zero => rfl
  | succ n ih =>
    rw [extensionLoop, extensionLoop, h (abs + (n + 1)) (by omega) le_rfl,
      ih (fun i h1 h2 => h i h1 (by omega))]

/-- `absPath` is unset, or a slice that ends at `e` at the latest. -/
def ReqUrl.PathWithin (e : Nat) (url : ReqUrl) : Prop :=
  url.absPath = .init ∨ ∃ b n : Nat, url.absPath = .slice b n ∧ b + n ≤ e

theorem splitUrl_pathWithin {b : Nat} {u : List Byte} {d : Byte} {url : ReqUrl}
    (h : url.absPath = .init) : (splitUrl b u d url).PathWithin (b + u.length) := by
  have hle : (u.takeWhile (· ≠ chr '?')).length ≤ u.length :=
    (List.takeWhile_sublist _).length_le
  unfold splitUrl
  by_cases hq : (u.takeWhile (· ≠ chr '?')).length < u.length
  · simp only [hq, if_true]
    exact Or.inr ⟨b, _, rfl, by omega⟩
  · simp only [hq, if_false]
    split_ifs
    · exact Or.inr ⟨b, _, rfl, by omega⟩
    · exact Or.inl h

theorem parseExtension_spec {mem : Mem} {e : Nat} {url : ReqUrl} (he : e < mem.length)
    (h : url.PathWithin e) :
    ∃ url', parseExtension mem url = .ok url' ∧ url'.absPath = url.absPath ∧
      url'.queryString = url.queryString := by
  rcases h with h | ⟨b, n, h, hbn⟩
  · refine ⟨url, ?_, rfl, rfl⟩
    rw [parseExtension, h]
    rfl
  · obtain ⟨url', hok, habs, hquery⟩ :=
      extensionLoop_spec (show b + n < mem.length by omega) url
    refine ⟨url', ?_, habs, hquery⟩
    rw [parseExtension, h]
    simpa [Ssstr.slice] using hok

/-- The scan from the end of the path records a slice that ends there. -/
theorem extensionLoop_suffix {mem : Mem} {abs absEnd n : Nat} (hn : abs + n ≤ absEnd)
    (hend : mem[absEnd]? ≠ some (chr '.')) {url url' : ReqUrl}
    (h : extensionLoop mem abs absEnd n url = .ok url') :
    url'.mimeExtension = url.mimeExtension ∨
      ∃ k, abs + k ≤ absEnd ∧ url'.mimeExtension = .slice (abs + k) (absEnd - (abs + k)) := by
  induction n with
  | zero =>
    obtain rfl := Except.ok.inj h
    exact Or.inl rfl
  | succ n ih =>
    rw [extensionLoop] at h
    split at h
    · cases h
    · next c hc =>
      split_ifs at h with hdot
      · -- the dot is in front of the end
        have hne : abs + (n + 1) ≠ absEnd := by
          rintro rfl
          exact hend (hdot ▸ hc)
        rw [← Except.ok.inj h]
        refine Or.inr ⟨n + 1 + 1, by omega, ?_⟩
        simp only [Ssstr.slice, Ssstr.mk.injEq, CharPtr.buf.injEq]
        omega
      · obtain rfl := Except.ok.inj h
        exact Or.inl rfl
      · exact ih (by omega) h

/-- The slice the scan records ends one byte behind the path at the latest. -/
theorem extensionLoop_mime {mem : Mem} {abs absEnd n : Nat} (hn : abs + n ≤ absEnd) {url url' : ReqUrl}
    (hmime : url.mimeExtension.Within (absEnd + 1))
    (h : extensionLoop mem abs absEnd n url = .ok url') : url'.mimeExtension.Within (absEnd + 1) := by
  induction n with
  | zero =>
    rw [← Except.ok.inj h]
    exact hmime
  | succ n ih =>
    rw [extensionLoop] at h
    split at h
    · cases h
    · split_ifs at h
      · rw [← Except.ok.inj h]
        simp only [Ssstr.Within]
        omega
      · rw [← Except.ok.inj h]
        exact hmime
      · exact ih (by omega) h

/-- The extension is unset, or recorded inside the buffer. -/
theorem parseExtension_mime {mem : Mem} {e : Nat} (he : e < mem.length) {url url' : ReqUrl}
    (hw : url.PathWithin e) (hmime : url.mimeExtension = .init)
    (h : parseExtension mem url = .ok url') : url'.mimeExtension.Within mem.length := by
  rcases hw with hpath | ⟨b, n, hpath, hbn⟩
  · rw [parseExtension, hpath] at h
    rw [← Except.ok.inj h, hmime]
    trivial
  · rw [parseExtension, hpath] at h
    have hloop : extensionLoop mem b (b + n) n url = .ok url' := by simpa [Ssstr.slice] using h
    have hmime' := extensionLoop_mime le_rfl (by rw [hmime]; trivial) hloop
    unfold Ssstr.Within at hmime' ⊢
    split at hmime'
    · omega
    · trivial

theorem parseExtension_congr {mem mem' : Mem} {e : Nat} {url : ReqUrl}
    (hmem : ∀ i, i ≤ e → mem[i]? = mem'[i]?) (h : url.PathWithin e) :
    parseExtension mem url = parseExtension mem' url := by
  rcases h with h | ⟨b, n, h, hbn⟩
  · rw [parseExtension, parseExtension, h]
    rfl
  · rw [parseExtension, parseExtension, h]
    simpa [Ssstr.slice] using
      extensionLoop_congr (fun i _ hi => hmem i (by omega)) url

/-! ## `parse_url` on any bytes -/

/-- What the machine of `parse_url` keeps: a recorded path ends before the current position. -/
def UrlScan.Inv (p : Nat) (s : UrlScan) : Prop :=
  s.start ≤ p ∧ (s.url.absPath = .init ∨ ∃ b n : Nat, s.url.absPath = .slice b n ∧ b + n < p)

theorem urlBody_inv {p : Nat} {ch : Byte} {s : UrlScan} (h : s.Inv p) :
    (∀ s', urlBody p ch s = .next s' → s'.Inv (p + 1)) ∧
      ∀ x, urlBody p ch s = .stop x → ∀ url, x = .parseExtension url → url.PathWithin p := by
  have hmono : ∀ st, UrlScan.Inv (p + 1) { s with currState := st } := fun st =>
    ⟨by have := h.1; simp only; omega,
      h.2.imp_right fun ⟨b, n, hs, hlt⟩ => ⟨b, n, hs, by omega⟩⟩
  have hend : s.start + (p - s.start) < p + 1 := by
    have := h.1
    omega
  unfold urlBody
  constructor
  · intro s' hs
    split at hs
    · split_ifs at hs
      cases hs
      exact hmono _
    · split_ifs at hs <;> cases hs
      · exact ⟨by have := h.1; simp only; omega, Or.inr ⟨_, _, rfl, hend⟩⟩
      · exact ⟨le_rfl, Or.inr ⟨_, _, rfl, hend⟩⟩
      · exact hmono s.currState
    · split_ifs at hs <;> cases hs
      · exact hmono _
      · exact hmono s.currState
    · cases hs
    · cases hs
      exact hmono s.currState
  · rintro x hx url rfl
    split at hx
    all_goals
      try split_ifs at hx
      all_goals cases hx
    exact h.2.imp_right fun ⟨b, n, hs, hlt⟩ => ⟨b, n, hs, by omega⟩

/-- How the scan of `parse_url` over `[b, e]` can end when no path is recorded yet. -/
theorem urlScan_cases {mem : Mem} {b e : Nat} {url : ReqUrl} (hbe : b ≤ e) (he : e < mem.length)
    (hurl : url.absPath = .init) :
    (∃ s, scan (reading mem (.fault .outOfBounds) urlBody) b (e + 1 - b) ⟨.urlBegin, b, url⟩ =
        .next s ∧ s.url.PathWithin e) ∨
      (∃ url', scan (reading mem (.fault .outOfBounds) urlBody) b (e + 1 - b) ⟨.urlBegin, b, url⟩ =
        .stop (.parseExtension url') ∧ url'.PathWithin e) ∨
      ∃ code url', scan (reading mem (.fault .outOfBounds) urlBody) b (e + 1 - b)
        ⟨.urlBegin, b, url⟩ = .stop (.ret code url') := by
  obtain ⟨pre, w, post, hmem, hb, hn⟩ : ∃ pre w post, mem = pre ++ (w ++ post) ∧ b = pre.length ∧
      e + 1 - b = w.length := by
    refine ⟨mem.take b, (mem.drop b).take (e + 1 - b), (mem.drop b).drop (e + 1 - b), ?_, ?_, ?_⟩
    · rw [List.take_append_drop, List.take_append_drop]
    · simp; omega
    · simp; omega
  subst hb
  rw [hn, scan_reading urlBody _ pre w post hmem]
  have hend : pre.length + w.length = e + 1 := by omega
  have hinv : UrlScan.Inv pre.length ⟨.urlBegin, pre.length, url⟩ := ⟨le_rfl, Or.inl hurl⟩
  have hscan := @scanList_invariant _ _ _ urlBody (fun p s => s.Inv p)
    (fun x => (∃ url', x = .parseExtension url' ∧ url'.PathWithin e) ∨
      ∃ code url', x = .ret code url') _ w _ hinv
    (fun q x s s' _ hI hs => (urlBody_inv hI).1 s' hs) (by
      intro q x s r hq hI hs
      cases r with
      | ret code url' => exact Or.inr ⟨code, url', rfl⟩
      | fault f =>
        unfold urlBody at hs
        split at hs
        all_goals
          try split_ifs at hs
          all_goals cases hs
      | parseExtension url' =>
        refine Or.inl ⟨url', rfl, ?_⟩
        exact ((urlBody_inv hI).2 _ hs url' rfl).imp_right
          fun ⟨b, n, hs, hle⟩ => ⟨b, n, hs, by omega⟩)
  cases hs : scanList urlBody pre.length w ⟨.urlBegin, pre.length, url⟩ with
  | next s =>
    refine Or.inl ⟨s, rfl, ?_⟩
    exact (hscan.1 s hs).2.imp_right fun ⟨b, n, h, hlt⟩ => ⟨b, n, h, by omega⟩
  | stop x =>
    rcases hscan.2 x hs with ⟨url', rfl, hw⟩ | ⟨code, url', rfl⟩
    · exact Or.inr (Or.inl ⟨url', rfl, hw⟩)
    · exact Or.inr (Or.inr ⟨code, url', rfl⟩)

/-- `parse_url` does not leave the buffer. -/
theorem parseUrlFields_ok {mem : Mem} {b e : Nat} {url : ReqUrl} (hbe : b ≤ e)
    (he : e < mem.length) (hurl : url.absPath = .init) : ∃ r, parseUrlFields mem b e url = .ok r := by
  unfold parseUrlFields
  rcases urlScan_cases hbe he hurl with ⟨s, hs, hw⟩ | ⟨url', hs, hw⟩ | ⟨code, url', hs⟩
  · obtain ⟨u, hu, -, -⟩ := parseExtension_spec he hw
    exact ⟨(OK, u), by simp [hs, hu, Except.map]⟩
  · obtain ⟨u, hu, -, -⟩ := parseExtension_spec he hw
    exact ⟨(OK, u), by simp [hs, hu, Except.map]⟩
  · exact ⟨(code, url'), by simp [hs]⟩

/-- `parse_url` looks at no byte behind the delimiter. -/
theorem parseUrlFields_congr {mem mem' : Mem} {b e : Nat} {url : ReqUrl} (hbe : b ≤ e)
    (he : e < mem.length) (hmem : ∀ i, i ≤ e → mem[i]? = mem'[i]?) (hurl : url.absPath = .init) :
    parseUrlFields mem b e url = parseUrlFields mem' b e url := by
  have hscan : scan (reading mem (.fault .outOfBounds) urlBody) b (e + 1 - b) ⟨.urlBegin, b, url⟩ =
      scan (reading mem' (.fault .outOfBounds) urlBody) b (e + 1 - b) ⟨.urlBegin, b, url⟩ := by
    refine scan_congr (fun q h1 h2 s => ?_) _
    unfold reading
    rw [hmem q (by omega)]
  unfold parseUrlFields
  rw [← hscan]
  rcases urlScan_cases hbe he hurl with ⟨s, hs, hw⟩ | ⟨url', hs, hw⟩ | ⟨code, url', hs⟩
  · simp only [hs, parseExtension_congr hmem hw]
  · simp only [hs, parseExtension_congr hmem hw]
  · simp only [hs]

/-! ## `parse_url` on a delimited URL -/

/-- **`parse_url` on the URL `u` of a request line, delimited by `d`.** -/
theorem parseUrlFields_eq {pre u post : List Byte} {d : Byte} (hu : ∀ c ∈ u, isUrlChar c = true)
    (hhead : u.head? = some (chr '/')) (hd : isBlank d = true) (url : ReqUrl) :
    parseUrlFields (pre ++ (u ++ d :: post)) pre.length (pre.length + u.length) url =
      (parseExtension (pre ++ (u ++ d :: post)) (splitUrl pre.length u d url)).map
        fun url => (OK, url) := by
  obtain ⟨st, start, hscan⟩ := scan_urlBody hu hhead hd pre.length url
  have hmem : pre ++ (u ++ d :: post) = pre ++ ((u ++ [d]) ++ post) := by simp
  have hlen : pre.length + u.length + 1 - pre.length = (u ++ [d]).length := by simp; omega
  unfold parseUrlFields
  rw [hlen, scan_reading urlBody (.fault .outOfBounds) pre (u ++ [d]) post hmem, hscan]

/-- A URL that does not begin with a slash is refused. -/
theorem parseUrlFields_noSlash {pre u post : List Byte} {c : Byte} (hc : c ≠ chr '/') (e : Nat)
    (he : pre.length ≤ e) (url : ReqUrl) :
    parseUrlFields (pre ++ (c :: u ++ post)) pre.length e url = .ok (ERROR, url) := by
  have hread : (pre ++ (c :: u ++ post))[pre.length]? = some c := by simp
  unfold parseUrlFields
  rw [show e + 1 - pre.length = (e - pre.length) + 1 by omega, scan_succ, reading_of_some hread]
  simp [urlBody, hc]

end MWebServer
