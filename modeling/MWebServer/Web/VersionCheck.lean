import MWebServer.Web.RequestLineHandler

/-!
# The version check of the request line

`parse_request_line` compares a number of the version with 1 in the states that read
its second digit and those after it, not in the one that reads its first.  Whether a
line passes thus depends on how its numbers are spelled (`versionRun_iff_value`):
`HTTP/9.1` is accepted, `HTTP/09.1` is refused.

* `parseRequestLine_lineFeed` — a complete line is accepted or refused.
* `parseRequestLine_spelled` — which spellings are accepted.
-/

namespace MWebServer

open Scan

/-! ## Spellings -/

/-- The two numbers of a version, as they are spelled. -/
structure Spelling where
  major : List Byte
  minor : List Byte
  major_ne : major ≠ []
  minor_ne : minor ≠ []
  major_digits : ∀ d ∈ major, isDigit d = true
  minor_digits : ∀ d ∈ minor, isDigit d = true

/-- Each number has one digit, or a value of at most 1. -/
def Spelling.Short (v : Spelling) : Prop :=
  ∀ ds ∈ [v.major, v.minor], ds.length = 1 ∨ decimal ds ≤ 1

instance (v : Spelling) : Decidable v.Short := inferInstanceAs (Decidable (∀ ds ∈ _, _))

/-- The line `l` with its version spelled `v`, and the bytes `rest` behind it. -/
def RequestLine.spelled (l : RequestLine) (v : Spelling) (rest : List Byte) : List Byte :=
  methodName l.method ++ chr ' ' :: (l.gap ++ (l.url ++ l.delim :: (l.gap' ++ (l.http ++ chr '/' ::
    (v.major ++ chr '.' :: (v.minor ++ chr '\r' :: chr '\n' :: rest))))))

theorem decimalFrom_append (n : Int) (ds es : List Byte) :
    decimalFrom n (ds ++ es) = decimalFrom (decimalFrom n ds) es :=
  List.foldl_append

/-- A number does not get smaller by more digits. -/
theorem le_decimalFrom {n : Int} (hn : 0 ≤ n) {ds : List Byte} (hds : ∀ d ∈ ds, isDigit d = true) :
    n ≤ decimalFrom n ds := by
  induction ds generalizing n with
  | nil => exact le_rfl
  | cons d ds ih =>
    have hd := digitVal_bounds (hds d (by simp))
    have hle : n * 10 + digitVal d ≤ decimalFrom (n * 10 + digitVal d) ds :=
      ih (by omega) fun e he => hds e (by simp [he])
    show n ≤ decimalFrom (n * 10 + digitVal d) ds
    omega

/-- **The check sees the number of digits**: a run passes when it is one digit, or at most 1. -/
theorem versionRun_iff_value {ds : List Byte} (hne : ds ≠ []) (hds : ∀ d ∈ ds, isDigit d = true) :
    VersionRun ds ↔ ds.length = 1 ∨ decimal ds ≤ 1 := by
  have hpos := List.length_pos_of_ne_nil hne
  constructor
  · intro h
    by_cases hlen : ds.length = 1
    · exact Or.inl hlen
    · right
      have hall := h.prefixes ds.length (by omega) le_rfl
      rwa [List.take_length] at hall
  · intro h
    refine ⟨hne, hds, fun k h2 hk => ?_⟩
    rcases h with hlen | hle
    · omega
    · have hsplit : decimal ds = decimalFrom (decimal (ds.take k)) (ds.drop k) := by
        rw [decimal, decimal, ← decimalFrom_append, List.take_append_drop]
      have h0 : 0 ≤ decimal (ds.take k) :=
        le_decimalFrom le_rfl fun d hd => hds d (List.mem_of_mem_take hd)
      have hmono := le_decimalFrom h0 fun d (hd : d ∈ ds.drop k) => hds d (List.mem_of_mem_drop hd)
      omega

/-! ## A complete line is accepted or refused -/

/-- The states of the request line that read a byte. -/
def ParserState.inLine : ParserState → Bool
  | .rlBegin | .rlMethod | .rlSpBeforeUrl | .rlUrl | .rlSpBeforeVersion => true
  | .rlVersionH | .rlVersionHT | .rlVersionHTT | .rlVersionHTTP | .rlVersionHTTPSlash => true
  | .rlVersionMajor | .rlVersionDot | .rlVersionMinor | .rlCrAfterVersion => true
  | _ => false

section LineFeed

variable {mem : Mem} {p : Nat} {ch : Byte} {ar ar' : ParseArchive}

theorem rlMethodCase_inLine (hst : ar.state = .rlMethod)
    (h : rlMethodCase mem p ch ar = .next ar') : ar'.state.inLine = true := by
  unfold rlMethodCase at h
  split_ifs at h
  · rw [← Flow.next.inj h, hst]
    rfl
  · split at h
    · cases h
    · simp only at h
      split_ifs at h
      rw [← Flow.next.inj h]
      rfl

theorem rlUrlEnd_inLine {ub : Option Nat} (hst : ar.state = .rlSpBeforeVersion)
    (h : rlUrlEnd mem p ub ar = .next ar') : ar'.state.inLine = true := by
  unfold rlUrlEnd at h
  cases ub with
  | none => cases h
  | some b =>
    simp only at h
    split at h
    · cases h
    · next code ar₁ hparse =>
      split_ifs at h
      obtain rfl := Flow.next.inj h
      unfold parseUrl at hparse
      split_ifs at hparse
      obtain ⟨x, -, hx⟩ := Run.map_eq_ok.1 hparse
      have hkeep : ar.state = ar₁.state := congrArg (fun r => r.2.state) hx
      rw [← hkeep, hst]
      rfl

/-- The machine stays in these states until it stops. -/
theorem rlBody_inLine (hst : ar.state.inLine = true) (h : rlBody mem p ch ar = .next ar') :
    ar'.state.inLine = true := by
  unfold rlBody at h
  cases hs : ar.state <;> rw [hs] at h
  case rlBegin =>
    simp only at h
    split_ifs at h
    exact rlMethodCase_inLine rfl h
  case rlMethod => exact rlMethodCase_inLine hs h
  case rlUrl =>
    simp only at h
    split_ifs at h
    · exact rlUrlEnd_inLine rfl h
    · rw [← Flow.next.inj h, hs]
      rfl
  all_goals
    first
    | exact absurd hst (by rw [hs]; decide)
    | simp only [expectLetter] at h
      split_ifs at h
      all_goals
        rw [← Flow.next.inj h]
        first
        | rfl
        | exact hst

/-- A line feed stops it. -/
theorem rlBody_lineFeed (hst : ar.state.inLine = true) :
    ∃ x, rlBody mem p (chr '\n') ar = .stop x := by
  have halpha : isAlpha (chr '\n') = false := by decide
  have hblank : isBlank (chr '\n') = false := by decide
  have hnewline : isNewline (chr '\n') = true := by decide
  have hdigit : isDigit (chr '\n') = false := by decide
  unfold rlBody rlMethodCase expectLetter
  cases hs : ar.state
  all_goals
    first
    | exact absurd hst (by rw [hs]; decide)
    | simp only [halpha, hblank, hnewline, hdigit]
      exact ⟨_, rfl⟩

theorem rlScan_lineFeed {w : List Byte} (hst : ar.state.inLine = true) (hw : chr '\n' ∈ w) :
    ∃ x, scanList (rlBody mem) p w ar = .stop x := by
  induction w generalizing p ar with
  | nil => cases hw
  | cons c w ih =>
    rw [scanList_cons]
    cases hs : rlBody mem p c ar with
    | stop x => exact ⟨x, rfl⟩
    | next ar' =>
      rcases List.mem_cons.1 hw with rfl | hw
      · obtain ⟨x, hx⟩ := @rlBody_lineFeed mem p ar hst
        rw [hx] at hs
        cases hs
      · exact ih (rlBody_inLine hst hs) hw

end LineFeed

/-- **A message with a line feed in it is accepted or refused.** -/
theorem parseRequestLine_lineFeed (pre post : List Byte) {m : List Byte} (hm : chr '\n' ∈ m)
    {r : Parsed} (hr : parseRequestLine (pre ++ (m ++ post)) pre.length m.length
      (freshArchive pre.length) = .ok r) : r.code = OK ∨ r.code = INVALID_REQUEST := by
  obtain ⟨x, hx⟩ := @rlScan_lineFeed (pre ++ (m ++ post)) pre.length (freshArchive pre.length) m rfl hm
  rw [parseRequestLine_fresh, hx] at hr
  cases x with
  | fault f => cases hr
  | done p ar =>
    rw [← Except.ok.inj hr]
    exact Or.inl rfl
  | ret code ar =>
    obtain rfl := rlScan_ret hx
    rw [← Except.ok.inj hr]
    exact Or.inr rfl

/-! ## One spelling only -/

/-- The first element outside `P` parts a list in one way only. -/
theorem append_cons_unique {α : Type} {P : α → Bool} {xs ys r s : List α} {a b : α}
    (h : xs ++ a :: r = ys ++ b :: s) (hxs : ∀ c ∈ xs, P c = true) (hys : ∀ c ∈ ys, P c = true)
    (ha : P a = false) (hb : P b = false) : xs = ys ∧ a :: r = b :: s := by
  have htake : ∀ (zs t : List α) (c : α), (∀ x ∈ zs, P x = true) → P c = false →
      (zs ++ c :: t).takeWhile P = zs := by
    intro zs t c hzs hc
    rw [List.takeWhile_append_of_pos hzs, List.takeWhile_cons_of_neg (by simp [hc]), List.append_nil]
  have hsame : xs = ys := by rw [← htake xs r a hxs ha, h, htake ys s b hys hb]
  subst hsame
  exact ⟨rfl, List.append_cancel_left h⟩

namespace RequestLine

/-- The way the numbers of a line are spelled. -/
def spelling (l : RequestLine) : Spelling :=
  ⟨l.major, l.minor, l.major_run.ne_nil, l.minor_run.ne_nil, l.major_run.digits, l.minor_run.digits⟩

theorem bytes_append (l : RequestLine) (rest : List Byte) :
    l.bytes ++ rest = l.spelled l.spelling rest := by
  simp [bytes, versionBytes, spelled, spelling]

theorem exists_http (l : RequestLine) :
    ∃ c cs, l.http = c :: cs ∧ isBlank c = false ∧ ∀ d ∈ cs, isAlpha d = true := by
  have hlower : ∀ c : Byte, toLower c ∈ str "http" → isAlpha c = true ∧ isBlank c = false :=
    forall_byte (P := fun c => toLower c ∈ str "http" → isAlpha c = true ∧ isBlank c = false)
      (by decide +kernel)
  have hmem : ∀ c ∈ l.http, isAlpha c = true ∧ isBlank c = false := fun c hc =>
    hlower c (l.http_letters ▸ List.mem_map_of_mem hc)
  cases hhttp : l.http with
  | nil =>
    have := l.http_letters
    rw [hhttp] at this
    cases this
  | cons c cs =>
    rw [hhttp] at hmem
    exact ⟨c, cs, rfl, (hmem c (by simp)).2, fun d hd => (hmem d (by simp [hd])).1⟩

/-- **A message spells the version of its line in one way only.** -/
theorem spelled_unique {l l' : RequestLine} {v v' : Spelling} {rest rest' : List Byte}
    (h : l.spelled v rest = l'.spelled v' rest') : v.major = v'.major ∧ v.minor = v'.minor := by
  have hdelim : ∀ l : RequestLine, isUrlChar l.delim = false := fun l => by
    simp [isUrlChar, l.delim_blank]
  obtain ⟨u, hu⟩ : ∃ u, l.url = chr '/' :: u := List.head?_eq_some_iff.1 l.url_head
  obtain ⟨u', hu'⟩ : ∃ u', l'.url = chr '/' :: u' := List.head?_eq_some_iff.1 l'.url_head
  obtain ⟨c, cs, hhttp, hc, hcs⟩ := l.exists_http
  obtain ⟨c', cs', hhttp', hc', hcs'⟩ := l'.exists_http
  have huc := l.url_chars
  have huc' := l'.url_chars
  rw [hu] at huc
  rw [hu'] at huc'
  unfold spelled at h
  rw [hu, hu', hhttp, hhttp', List.cons_append, List.cons_append, List.cons_append,
    List.cons_append] at h
  -- method, blanks, URL, blanks, `HTTP/`, and the two numbers
  have h1 := (append_cons_unique h (methodName_letters _) (methodName_letters _) (by decide)
    (by decide)).2
  have h2 := (append_cons_unique (List.cons.inj h1).2 l.gap_blank l'.gap_blank (by decide)
    (by decide)).2
  have h3 := (append_cons_unique (List.cons.inj h2).2 (fun c hc => huc c (by simp [hc]))
    (fun c hc => huc' c (by simp [hc])) (hdelim l) (hdelim l')).2
  have h4 := (append_cons_unique (List.cons.inj h3).2 l.gap'_blank l'.gap'_blank hc hc').2
  have h5 := (append_cons_unique (List.cons.inj h4).2 hcs hcs' (by decide) (by decide)).2
  obtain ⟨hmajor, h6⟩ := append_cons_unique (List.cons.inj h5).2 v.major_digits v'.major_digits
    (by decide) (by decide)
  obtain ⟨hminor, -⟩ := append_cons_unique (List.cons.inj h6).2 v.minor_digits v'.minor_digits
    (by decide) (by decide)
  exact ⟨hmajor, hminor⟩

end RequestLine

/-! ## The check -/

section Spelled

variable (pre post : List Byte) (l : RequestLine) (v : Spelling) (rest : List Byte)

theorem Spelling.short_iff : v.Short ↔ VersionRun v.major ∧ VersionRun v.minor := by
  rw [versionRun_iff_value v.major_ne v.major_digits, versionRun_iff_value v.minor_ne v.minor_digits]
  simp [Spelling.Short]

/-- **Which spellings are accepted**, and what is recorded of them. -/
theorem parseRequestLine_spelled : ∃ r,
    parseRequestLine (pre ++ (l.spelled v rest ++ post)) pre.length (l.spelled v rest).length
      (freshArchive pre.length) = .ok r ∧
    (v.Short → r.code = OK ∧ r.ar.version = ⟨decimal v.major, decimal v.minor⟩) ∧
    (¬ v.Short → r.code = INVALID_REQUEST) := by
  obtain ⟨r, hr, -⟩ := parseRequestLine_ok pre (l.spelled v rest) post
  refine ⟨r, hr, fun hshort => ?_, fun hlong => ?_⟩
  · obtain ⟨hmajor, hminor⟩ := v.short_iff.1 hshort
    let l' : RequestLine :=
      { l with major := v.major, minor := v.minor, major_run := hmajor, minor_run := hminor }
    have hl' : l'.bytes <+: l.spelled v rest := ⟨rest, l'.bytes_append rest⟩
    obtain ⟨hok, -, -, -, -, -, hversion⟩ := parseRequestLine_complete pre post hl' hr
    exact ⟨hok, hversion⟩
  · have hfeed : chr '\n' ∈ l.spelled v rest := by simp [RequestLine.spelled]
    refine (parseRequestLine_lineFeed pre post hfeed hr).resolve_left fun hok => hlong ?_
    obtain ⟨l', rest', hl'⟩ := parseRequestLine_sound pre post hr hok
    rw [l'.bytes_append] at hl'
    obtain ⟨hmajor, hminor⟩ := RequestLine.spelled_unique hl'
    rw [v.short_iff, ← hmajor, ← hminor]
    exact ⟨l'.major_run, l'.minor_run⟩

end Spelled

/-- What the version check promises of the calls on two lines: no accepted version is above 1.1,
and both lines are answered alike. -/
structure VersionChecked (r r' : Parsed) : Prop where
  bounded : ∀ t ∈ [r, r'], t.code = OK → t.ar.version.httpMajor ≤ 1 ∧ t.ar.version.httpMinor ≤ 1
  sameCode : r.code = r'.code

/-- **The version check.**  Every accepted message spells a version, and two spellings of one
version are checked as promised exactly when no number is above 1, or when each of the two has a
number above 1 with a second digit. -/
theorem versionChecked_iff (pre post : List Byte) :
    (∀ m r, parseRequestLine (pre ++ (m ++ post)) pre.length m.length (freshArchive pre.length) =
      .ok r → r.code = OK → ∃ (l : RequestLine) (v : Spelling) (rest : List Byte),
        m = l.spelled v rest) ∧
    ∀ (l : RequestLine) (v v' : Spelling) (rest : List Byte), decimal v.major = decimal v'.major →
      decimal v.minor = decimal v'.minor → ∃ r r',
        parseRequestLine (pre ++ (l.spelled v rest ++ post)) pre.length (l.spelled v rest).length
          (freshArchive pre.length) = .ok r ∧
        parseRequestLine (pre ++ (l.spelled v' rest ++ post)) pre.length (l.spelled v' rest).length
          (freshArchive pre.length) = .ok r' ∧
        (VersionChecked r r' ↔
          (decimal v.major ≤ 1 ∧ decimal v.minor ≤ 1) ∨ (¬ v.Short ∧ ¬ v'.Short)) := by
  refine ⟨fun m r hr hok => ?_, fun l v v' rest hmajor hminor => ?_⟩
  · obtain ⟨l, rest, hl⟩ := parseRequestLine_sound pre post hr hok
    exact ⟨l, l.spelling, rest, by rw [← hl, l.bytes_append]⟩
  · obtain ⟨r, hr, hshort, hlong⟩ := parseRequestLine_spelled pre post l v rest
    obtain ⟨r', hr', hshort', hlong'⟩ := parseRequestLine_spelled pre post l v' rest
    refine ⟨r, r', hr, hr', ?_⟩
    have hne : OK ≠ INVALID_REQUEST := by decide
    constructor
    · rintro ⟨hbound, hcode⟩
      by_cases hs : v.Short
      · -- accepted: then the bound holds of what is recorded
        obtain ⟨hok, hversion⟩ := hshort hs
        have hle := hbound r (by simp) hok
        rw [hversion] at hle
        exact Or.inl hle
      · refine Or.inr ⟨hs, fun hs' => hne ?_⟩
        rw [← (hshort' hs').1, ← hcode, hlong hs]
    · rintro (⟨hM, hm⟩ | ⟨hs, hs'⟩)
      · have hs : v.Short := by simp [Spelling.Short, hM, hm]
        have hs' : v'.Short := by simp [Spelling.Short, ← hmajor, ← hminor, hM, hm]
        obtain ⟨hok, hversion⟩ := hshort hs
        obtain ⟨hok', hversion'⟩ := hshort' hs'
        refine ⟨?_, hok.trans hok'.symm⟩
        simp only [List.mem_cons, List.not_mem_nil, or_false]
        rintro t (rfl | rfl) -
        · rw [hversion]
          exact ⟨hM, hm⟩
        · rw [hversion', ← hmajor, ← hminor]
          exact ⟨hM, hm⟩
      · refine ⟨?_, (hlong hs).trans (hlong' hs').symm⟩
        simp only [List.mem_cons, List.not_mem_nil, or_false]
        rintro t (rfl | rfl) hok
        · exact absurd (hok.symm.trans (hlong hs)) hne
        · exact absurd (hok.symm.trans (hlong' hs')) hne

/-- A number of a version as it is written. -/
def VersionNumber (ds : List Byte) : Prop :=
  ds ≠ [] ∧ ∀ d ∈ ds, isDigit d = true

instance (ds : List Byte) : Decidable (VersionNumber ds) := inferInstanceAs (Decidable (_ ∧ _))

theorem versionNumber_one : VersionNumber (str "1") := by decide +kernel

theorem versionNumber_zeroOne : VersionNumber (str "01") := by decide +kernel

theorem versionNumber_zeroZeroOne : VersionNumber (str "001") := by decide +kernel

theorem versionNumber_nine : VersionNumber (str "9") := by decide +kernel

theorem versionNumber_zeroNine : VersionNumber (str "09") := by decide +kernel

/-- The version of two numbers. -/
def Spelling.ofNumbers {ds es : List Byte} (hds : VersionNumber ds)
    (hes : VersionNumber es) : Spelling :=
  ⟨ds, es, hds.1, hes.1, hds.2, hes.2⟩

/-- `1.1` -/
def Spelling.oneOne : Spelling :=
  .ofNumbers versionNumber_one versionNumber_one

/-- `01.001` -/
def Spelling.zeroOneOne : Spelling :=
  .ofNumbers versionNumber_zeroOne versionNumber_zeroZeroOne

/-- Leading zeros do no harm to `1.1`. -/
theorem versionChecked_zeros : ∃ r r',
    parseRequestLine (RequestLine.getRoot.spelled .oneOne []) 0 16 (freshArchive 0) = .ok r ∧
    parseRequestLine (RequestLine.getRoot.spelled .zeroOneOne []) 0 19 (freshArchive 0) = .ok r' ∧
    VersionChecked r r' := by
  have hlen : (RequestLine.getRoot.spelled .oneOne []).length = 16 := by decide +kernel
  have hlen' : (RequestLine.getRoot.spelled .zeroOneOne []).length = 19 := by decide +kernel
  obtain ⟨r, r', hr, hr', hchecked⟩ := (versionChecked_iff [] []).2 .getRoot .oneOne .zeroOneOne []
    (by decide +kernel) (by decide +kernel)
  rw [List.append_nil, List.nil_append, List.length_nil, hlen] at hr
  rw [List.append_nil, List.nil_append, List.length_nil, hlen'] at hr'
  exact ⟨r, r', hr, hr', hchecked.2 (Or.inl (by decide +kernel))⟩

/-- `9.1` -/
def Spelling.nineOne : Spelling :=
  .ofNumbers versionNumber_nine versionNumber_one

/-- `09.1` -/
def Spelling.zeroNineOne : Spelling :=
  .ofNumbers versionNumber_zeroNine versionNumber_one

/-- **`GET / HTTP/9.1` is accepted**, and `GET / HTTP/09.1` is refused. -/
theorem not_versionChecked : ¬ ∀ (l : RequestLine) (v v' : Spelling) (rest : List Byte) (r r' : Parsed),
    decimal v.major = decimal v'.major → decimal v.minor = decimal v'.minor →
    parseRequestLine (l.spelled v rest) 0 (l.spelled v rest).length (freshArchive 0) = .ok r →
    parseRequestLine (l.spelled v' rest) 0 (l.spelled v' rest).length (freshArchive 0) = .ok r' →
    VersionChecked r r' := by
  intro h
  obtain ⟨r, hr, hshort, -⟩ := parseRequestLine_spelled [] [] .getRoot .nineOne []
  obtain ⟨r', hr', -, hlong⟩ := parseRequestLine_spelled [] [] .getRoot .zeroNineOne []
  rw [List.append_nil, List.nil_append, List.length_nil] at hr hr'
  obtain ⟨-, hcode⟩ := h .getRoot .nineOne .zeroNineOne [] r r' (by decide +kernel) (by decide +kernel)
    hr hr'
  rw [(hshort (by decide +kernel)).1, hlong (by decide +kernel)] at hcode
  exact absurd hcode (by decide)

end MWebServer
