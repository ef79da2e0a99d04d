import MWebServer.Web.Url

/-!
# The parts of a URL

What `parse_url` records of a URL, in terms of the URL alone: its path and its query,
on either side of the first question mark, and the extension of the last segment of
the path.  `parse_url` finds the extension by a scan from the end of the path
backwards, which begins at the delimiter and ends in front of the first slash
(`extensionLoop_eq`).
-/

namespace MWebServer

/-! ## The parts -/

/-- What stands in front of the first question mark. -/
def urlPath (u : List Byte) : List Byte := u.takeWhile (· ≠ chr '?')

/-- What stands behind the first question mark. -/
def urlQuery (u : List Byte) : List Byte := (u.dropWhile (· ≠ chr '?')).drop 1

/-- What stands behind the last slash. -/
def lastSegment (path : List Byte) : List Byte := path.rtakeWhile (· ≠ chr '/')

/-- What stands behind the last dot of the last segment, if there is one. -/
def extension (path : List Byte) : Option (List Byte) :=
  if chr '.' ∈ lastSegment path then some ((lastSegment path).rtakeWhile (· ≠ chr '.')) else none

/-- The archive holds the parts of the URL `u`. -/
structure HoldsParts (mem : Mem) (u : List Byte) (ar : ParseArchive) : Prop where
  inRange : ∀ s ∈ [ar.requestUrlString, ar.url.absPath, ar.url.queryString, ar.url.mimeExtension],
    s.InRange mem
  requestUrl : ar.requestUrlString.bytes mem = u
  absPath : ar.url.absPath.bytes mem = urlPath u
  queryString : ar.url.queryString.bytes mem = urlQuery u
  /-- The extension is what the last segment says. -/
  extension : ∀ ext, extension (urlPath u) = some ext →
    ar.url.mimeExtension.str ≠ .null ∧ ar.url.mimeExtension.bytes mem = ext
  /-- No dot, no extension. -/
  noExtension : MWebServer.extension (urlPath u) = none → ar.url.mimeExtension = .init

/-! ## The last segment -/

theorem rtakeWhile_append_of_pos {α : Type} {p : α → Bool} (l : List α) {t : List α}
    (h : ∀ x ∈ t, p x = true) : (l ++ t).rtakeWhile p = l.rtakeWhile p ++ t := by
  unfold List.rtakeWhile
  rw [List.reverse_append, List.takeWhile_append_of_pos (by simpa using h), List.reverse_append,
    List.reverse_reverse]

/-- Behind the element that stops it, a search from the end has passed over everything. -/
theorem rtakeWhile_behind {α : Type} {p : α → Bool} (l : List α) {a : α} (ha : p a = false)
    {t : List α} (h : ∀ x ∈ t, p x = true) : (l ++ a :: t).rtakeWhile p = t := by
  rw [List.append_cons, rtakeWhile_append_of_pos _ h, List.rtakeWhile_concat_neg _ _ _ (by simp [ha]),
    List.nil_append]

section Segment

variable {x t : List Byte} (ht : ∀ c ∈ t, c ≠ chr '.' ∧ c ≠ chr '/')

include ht

/-- A dot with neither dot nor slash behind it. -/
theorem extension_dot : extension (x ++ chr '.' :: t) = some t := by
  have hdot : ∀ c ∈ t, decide (c ≠ chr '.') = true := fun c hc => by simpa using (ht c hc).1
  have hseg : lastSegment (x ++ chr '.' :: t) = lastSegment x ++ chr '.' :: t := by
    refine rtakeWhile_append_of_pos x fun c hc => ?_
    rcases List.mem_cons.1 hc with rfl | hc
    · decide
    · simpa using (ht c hc).2
  rw [extension, hseg, if_pos (by simp), rtakeWhile_behind _ (by decide) hdot]

/-- A slash with neither dot nor slash behind it. -/
theorem extension_slash : extension (x ++ chr '/' :: t) = none := by
  have hslash : ∀ c ∈ t, decide (c ≠ chr '/') = true := fun c hc => by simpa using (ht c hc).2
  have hnot : chr '.' ∉ t := fun h => (ht _ h).1 rfl
  rw [extension, lastSegment, rtakeWhile_behind x (by decide) hslash, if_neg hnot]

end Segment

/-! ## The backward scan -/

/-- The slice the scan records for an extension of the length `k`, or what was recorded before. -/
def recordExtension (absEnd : Nat) (url : ReqUrl) : Option (List Byte) → ReqUrl
  | some ext => { url with mimeExtension := .slice (absEnd - ext.length) ext.length }
  | none => url

@[simp] theorem recordExtension_absPath (absEnd : Nat) (url : ReqUrl) (ext : Option (List Byte)) :
    (recordExtension absEnd url ext).absPath = url.absPath := by
  cases ext <;> rfl

@[simp] theorem recordExtension_queryString (absEnd : Nat) (url : ReqUrl) (ext : Option (List Byte)) :
    (recordExtension absEnd url ext).queryString = url.queryString := by
  cases ext <;> rfl

/-- **The backward scan finds the extension.**  It stands behind the bytes `x` of the path, and
the rest `t` of the path, which it has passed over, holds neither dot nor slash. -/
theorem extensionLoop_eq {front x t b : List Byte} {mem : Mem} {absEnd : Nat}
    (hmem : mem = front ++ (chr '/' :: x ++ (t ++ b)))
    (hend : absEnd = front.length + (chr '/' :: x ++ t).length)
    (ht : ∀ c ∈ t, c ≠ chr '.' ∧ c ≠ chr '/') (url : ReqUrl) :
    extensionLoop mem front.length absEnd x.length url =
      .ok (recordExtension absEnd url (extension (chr '/' :: x ++ t))) := by
  induction x using List.reverseRecOn generalizing t with
  | nil =>
    have hnone : extension (chr '/' :: [] ++ t) = none := @extension_slash [] t ht
    rw [hnone]
    rfl
  | append_singleton x c ih =>
    have hpath : chr '/' :: (x ++ [c]) ++ t = chr '/' :: x ++ c :: t := by simp
    have hread : mem[front.length + (x.length + 1)]? = some c := by
      rw [hmem, List.getElem?_append_right (by omega)]
      simp
    rw [List.length_append, List.length_singleton, extensionLoop, hread, hpath]
    rw [hpath] at hend
    simp only
    split_ifs with hdot hslash
    · -- the last dot of the last segment
      subst hdot
      rw [extension_dot ht]
      simp only [List.length_append, List.length_cons] at hend
      have hbegin : front.length + (x.length + 1) + 1 = absEnd - t.length := by omega
      have hlen : (absEnd : Int) - (front.length + (x.length + 1)) - 1 = t.length := by omega
      simp [recordExtension, Ssstr.slice, hbegin, hlen]
    · subst hslash
      rw [extension_slash ht]
      rfl
    · refine ih ?_ hend ?_
      · rw [hmem]
        simp
      · intro y hy
        rcases List.mem_cons.1 hy with rfl | hy
        · exact ⟨hdot, hslash⟩
        · exact ht y hy

/-! ## `parse_url` -/

/-- A URL is its path, or its path and its query with a question mark between them. -/
theorem urlPath_append (u : List Byte) :
    u = urlPath u ∧ urlQuery u = [] ∨ u = urlPath u ++ chr '?' :: urlQuery u := by
  have hsplit : urlPath u ++ u.dropWhile (· ≠ chr '?') = u := List.takeWhile_append_dropWhile
  have hstop := List.head?_dropWhile_not (fun c => decide (c ≠ chr '?')) u
  unfold urlQuery
  cases hdrop : u.dropWhile (· ≠ chr '?') with
  | nil =>
    rw [hdrop, List.append_nil] at hsplit
    exact Or.inl ⟨hsplit.symm, rfl⟩
  | cons c v =>
    rw [hdrop] at hsplit hstop
    obtain rfl : c = chr '?' := by simpa using hstop
    exact Or.inr hsplit.symm

/-- What `parse_url` records of a URL at `b` that a space ends. -/
def urlParts (b : Nat) (u : List Byte) : ReqUrl :=
  let n := (urlPath u).length
  recordExtension (b + n)
    { absPath := .slice b n
      queryString := .slice (b + u.length - (urlQuery u).length) (urlQuery u).length
      mimeExtension := .init }
    (extension (urlPath u))

theorem splitUrl_space (b : Nat) (u : List Byte) :
    splitUrl b u (chr ' ') ⟨.init, .init, .init⟩ =
      { absPath := .slice b (urlPath u).length
        queryString := .slice (b + u.length - (urlQuery u).length) (urlQuery u).length
        mimeExtension := .init } := by
  unfold splitUrl
  simp only [if_true]
  rw [show u.takeWhile (· ≠ chr '?') = urlPath u from rfl]
  rcases urlPath_append u with ⟨hu, hq⟩ | hu
  · have hlen : u.length = (urlPath u).length := congrArg List.length hu
    rw [if_neg (by omega), hq, hlen]
    rfl
  · have hlen : u.length = (urlPath u).length + ((urlQuery u).length + 1) := by
      simpa using congrArg List.length hu
    rw [if_pos (by omega), show b + (urlPath u).length + 1 = b + u.length - (urlQuery u).length by omega,
      show u.length - (urlPath u).length - 1 = (urlQuery u).length by omega]

/-- **`parse_url` records the parts of a URL that a space ends.** -/
theorem parseUrl_eq {pre u post : List Byte} (hu : ∀ c ∈ u, isUrlChar c = true)
    (hhead : u.head? = some (chr '/')) {ar : ParseArchive} (hurl : ar.url = ⟨.init, .init, .init⟩) :
    parseUrl (pre ++ (u ++ chr ' ' :: post)) pre.length (pre.length + u.length) ar =
      .ok (OK, { ar with
        requestUrlString := .slice pre.length u.length
        url := urlParts pre.length u }) := by
  obtain ⟨x, hx⟩ : ∃ x, urlPath u = chr '/' :: x := by
    obtain ⟨v, rfl⟩ : ∃ v, u = chr '/' :: v := by
      cases u with
      | nil => cases hhead
      | cons c v => exact ⟨v, by rw [Option.some.inj hhead]⟩
    exact ⟨v.takeWhile (· ≠ chr '?'), List.takeWhile_cons_of_pos (by decide)⟩
  -- the delimiter of the path, where the backward scan begins
  obtain ⟨c, b, hmem, hdot, hslash⟩ : ∃ c b, pre ++ (u ++ chr ' ' :: post) =
      pre ++ (chr '/' :: x ++ c :: b) ∧ c ≠ chr '.' ∧ c ≠ chr '/' := by
    rcases urlPath_append u with ⟨h, -⟩ | h
    · exact ⟨chr ' ', post, by rw [← hx, ← h], by decide, by decide⟩
    · refine ⟨chr '?', urlQuery u ++ chr ' ' :: post, ?_, by decide, by decide⟩
      rw [← hx]
      conv_lhs => rw [h]
      simp
  have hread : (pre ++ (u ++ chr ' ' :: post))[pre.length + (x.length + 1)]? = some c := by
    rw [hmem, List.getElem?_append_right (by omega)]
    simp
  have hext : parseExtension (pre ++ (u ++ chr ' ' :: post))
      (splitUrl pre.length u (chr ' ') ar.url) = .ok (urlParts pre.length u) := by
    rw [hurl, splitUrl_space, urlParts, hx, parseExtension]
    simp only [Ssstr.slice, List.length_cons, Int.toNat_natCast, Nat.cast_nonneg, if_true]
    rw [extensionLoop, hread]
    simp only [hdot, hslash, if_false]
    have hloop := @extensionLoop_eq pre x [] (c :: b) _ (pre.length + (x.length + 1)) hmem
      (by simp) (by simp)
    rw [List.append_nil] at hloop
    exact hloop _
  unfold parseUrl
  rw [if_neg (by omega), parseUrlFields_eq hu hhead (by decide), hext, Nat.add_sub_cancel_left]
  rfl

/-- A part of a URL, as a slice of the buffer. -/
theorem slice_part {mem f p r : List Byte} (h : mem = f ++ (p ++ r)) {off : Nat}
    (hoff : off = f.length) :
    (Ssstr.slice off p.length).bytes mem = p ∧ (Ssstr.slice off p.length).InRange mem := by
  subst hoff
  refine ⟨by rw [Ssstr.bytes_slice, h, List.drop_left, List.take_left], ?_⟩
  simp only [Ssstr.slice, Ssstr.InRange, h, List.length_append]
  omega

/-- The query is an end of the URL. -/
theorem urlQuery_suffix (u : List Byte) : urlQuery u <:+ u :=
  (List.drop_suffix _ _).trans (List.dropWhile_suffix _)

/-- The extension is an end of the path. -/
theorem extension_suffix {path ext : List Byte} (h : extension path = some ext) : ext <:+ path := by
  unfold extension at h
  split_ifs at h
  rw [← Option.some.inj h]
  exact (List.rtakeWhile_suffix _ _).trans (List.rtakeWhile_suffix _ _)

section Parts

variable (pre : List Byte) (u post : List Byte)

theorem urlPath_part :
    (Ssstr.slice pre.length (urlPath u).length).bytes (pre ++ (u ++ post)) = urlPath u ∧
      (Ssstr.slice pre.length (urlPath u).length).InRange (pre ++ (u ++ post)) := by
  obtain ⟨q, hq⟩ : urlPath u <+: u := List.takeWhile_prefix _
  have hmem : pre ++ (u ++ post) = pre ++ (urlPath u ++ (q ++ post)) := by
    conv_lhs => rw [← hq]
    rw [List.append_assoc]
  exact slice_part hmem rfl

theorem urlQuery_part :
    (Ssstr.slice (pre.length + u.length - (urlQuery u).length) (urlQuery u).length).bytes
        (pre ++ (u ++ post)) = urlQuery u ∧
      (Ssstr.slice (pre.length + u.length - (urlQuery u).length) (urlQuery u).length).InRange
        (pre ++ (u ++ post)) := by
  obtain ⟨y, hy⟩ := urlQuery_suffix u
  have hlen : y.length + (urlQuery u).length = u.length := by
    rw [← List.length_append, hy]
  have hmem : pre ++ (u ++ post) = pre ++ y ++ (urlQuery u ++ post) := by
    conv_lhs => rw [← hy]
    simp only [List.append_assoc]
  refine slice_part hmem ?_
  rw [List.length_append]
  omega

variable {u} {ext : List Byte}

theorem extension_part (hext : extension (urlPath u) = some ext) :
    (Ssstr.slice (pre.length + (urlPath u).length - ext.length) ext.length).bytes
        (pre ++ (u ++ post)) = ext ∧
      (Ssstr.slice (pre.length + (urlPath u).length - ext.length) ext.length).InRange
        (pre ++ (u ++ post)) := by
  obtain ⟨z, hz⟩ := extension_suffix hext
  obtain ⟨q, hq⟩ : urlPath u <+: u := List.takeWhile_prefix _
  have hlen : z.length + ext.length = (urlPath u).length := by
    rw [← List.length_append, hz]
  have hmem : pre ++ (u ++ post) = pre ++ z ++ (ext ++ (q ++ post)) := by
    conv_lhs => rw [← hq, ← hz]
    simp only [List.append_assoc]
  refine slice_part hmem ?_
  rw [List.length_append]
  omega

end Parts

/-- **URL splitting**, on every URL of a request line that a space ends. -/
theorem parseUrl_parts (pre u post : List Byte) (hu : ∀ c ∈ u, isUrlChar c = true)
    (hhead : u.head? = some (chr '/')) (ar : ParseArchive) (hurl : ar.url = ⟨.init, .init, .init⟩) :
    ∃ ar', parseUrl (pre ++ (u ++ chr ' ' :: post)) pre.length (pre.length + u.length) ar =
      .ok (OK, ar') ∧ HoldsParts (pre ++ (u ++ chr ' ' :: post)) u ar' := by
  refine ⟨_, parseUrl_eq hu hhead hurl, ?_⟩
  have hwhole := slice_part (Eq.refl (pre ++ (u ++ chr ' ' :: post))) rfl
  have habs := urlPath_part pre u (chr ' ' :: post)
  have hquery := urlQuery_part pre u (chr ' ' :: post)
  have hmime : (urlParts pre.length u).mimeExtension.InRange (pre ++ (u ++ chr ' ' :: post)) := by
    cases hext : extension (urlPath u) with
    | none =>
      rw [urlParts, hext]
      rfl
    | some ext =>
      rw [urlParts, hext]
      exact (extension_part pre (chr ' ' :: post) hext).2
  refine ⟨?_, hwhole.1, ?_, ?_, fun ext hext => ?_, fun hext => ?_⟩
  · simp only [List.mem_cons, List.not_mem_nil, or_false]
    rintro s (rfl | rfl | rfl | rfl)
    · exact hwhole.2
    · rw [urlParts, recordExtension_absPath]
      exact habs.2
    · rw [urlParts, recordExtension_queryString]
      exact hquery.2
    · exact hmime
  · rw [urlParts, recordExtension_absPath]
    exact habs.1
  · rw [urlParts, recordExtension_queryString]
    exact hquery.1
  · rw [urlParts, hext]
    exact ⟨by simp [recordExtension, Ssstr.slice], (extension_part pre (chr ' ' :: post) hext).1⟩
  · rw [urlParts, hext]
    rfl

/-- A dot in a directory, one in the name, and two question marks. -/
theorem parseUrl_parts_dots :
    let u := str "/a.b/c.tar.gz?x.y?z"
    ∃ ar', parseUrl (u ++ [chr ' ']) 0 u.length parseArchiveInit = .ok (OK, ar') ∧
      ar'.url.absPath.bytes (u ++ [chr ' ']) = str "/a.b/c.tar.gz" ∧
      ar'.url.queryString.bytes (u ++ [chr ' ']) = str "x.y?z" ∧
      ar'.url.mimeExtension.bytes (u ++ [chr ' ']) = str "gz" := by
  intro u
  obtain ⟨ar', hok, hparts⟩ := parseUrl_parts [] u [] (by decide +kernel) (by decide +kernel)
    parseArchiveInit rfl
  rw [List.nil_append, List.length_nil, Nat.zero_add] at hok
  refine ⟨ar', hok, hparts.absPath.trans (by decide +kernel), hparts.queryString.trans (by decide +kernel),
    (hparts.extension (str "gz") (by decide +kernel)).2⟩

end MWebServer
