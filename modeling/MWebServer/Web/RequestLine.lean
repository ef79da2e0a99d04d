import MWebServer.Web.Locality

/-!
# The language of request lines

`RequestLine` is the grammar `parse_request_line` decides, written down without
reference to its states.  `rlAccepts_iff` follows the machine state by state, from
the last one backwards, and gives for each the strings that lead it to `done` and
the archive it then holds; the statements about the function itself are read off
the first state.
-/

namespace MWebServer

open Scan

/-! ## The grammar -/

/-- The value of a digit run that continues a number. -/
def decimalFrom (v : Int) (ds : List Byte) : Int := ds.foldl (fun v d => v * 10 + digitVal d) v

/-- The decimal value of a digit run. -/
def decimal (ds : List Byte) : Int := decimalFrom 0 ds

/-- A digit run as the version check lets it through: every prefix of two or more digits has
a value of at most 1. -/
structure VersionRun (ds : List Byte) : Prop where
  ne_nil : ds ≠ []
  digits : ∀ d ∈ ds, isDigit d = true
  prefixes : ∀ k, 2 ≤ k → k ≤ ds.length → decimal (ds.take k) ≤ 1

/-- The bytes of a method name. -/
def methodName : HttpMethod → List Byte
  | .get => str "GET"
  | .put => str "PUT"
  | .post => str "POST"
  | .head => str "HEAD"
  | .delete => str "DELETE"
  | .invalid => []

/-- A request line, taken apart. -/
structure RequestLine where
  method : HttpMethod
  /-- The blanks after the one space behind the method. -/
  gap : List Byte
  url : List Byte
  /-- The blank that ends the URL. -/
  delim : Byte
  /-- The blanks between it and the version. -/
  gap' : List Byte
  /-- `HTTP` -/
  http : List Byte
  major : List Byte
  minor : List Byte
  method_valid : method ≠ .invalid
  gap_blank : ∀ c ∈ gap, isBlank c = true
  url_chars : ∀ c ∈ url, isUrlChar c = true
  url_head : url.head? = some (chr '/')
  delim_blank : isBlank delim = true
  gap'_blank : ∀ c ∈ gap', isBlank c = true
  http_letters : http.map toLower = str "http"
  major_run : VersionRun major
  minor_run : VersionRun minor

namespace RequestLine

/-- What follows the URL and its delimiter. -/
def versionBytes (l : RequestLine) : List Byte :=
  l.gap' ++ (l.http ++ chr '/' :: (l.major ++ chr '.' :: (l.minor ++ [chr '\r', chr '\n'])))

/-- The bytes of a request line. -/
def bytes (l : RequestLine) : List Byte :=
  methodName l.method ++ chr ' ' :: (l.gap ++ (l.url ++ l.delim :: l.versionBytes))

/-- How far into the line its URL begins. -/
def urlOffset (l : RequestLine) : Nat := (methodName l.method).length + 1 + l.gap.length

/-- The archive the machine holds at the end of the line, begun at `p` from `ar`. -/
def archive (l : RequestLine) (p : Nat) (url : ReqUrl) (ar : ParseArchive) : ParseArchive :=
  { ar with
    method := l.method
    version := ⟨decimal l.major, decimal l.minor⟩
    requestUrlString := .slice (p + l.urlOffset) l.url.length
    url := url
    state := .rlLfAfterVersion
    methodBegin := some p
    urlBegin := some (p + l.urlOffset) }

end RequestLine

/-! ## Digits -/

/-- The digits the version states accept after a number `v`. -/
def DigitsFrom : Int → List Byte → Prop
  | _, [] => True
  | v, d :: ds => isDigit d = true ∧ v * 10 + digitVal d ≤ 1 ∧ DigitsFrom (v * 10 + digitVal d) ds

theorem digitsFrom_iff {v : Int} {ds : List Byte} :
    DigitsFrom v ds ↔ (∀ d ∈ ds, isDigit d = true) ∧
      ∀ k, 1 ≤ k → k ≤ ds.length → decimalFrom v (ds.take k) ≤ 1 := by
  induction ds generalizing v with
  | nil =>
    simp only [DigitsFrom, true_iff]
    exact ⟨fun d hd => by simp at hd, fun k h1 h2 => by simp at h2; omega⟩
  | cons d ds ih =>
    rw [DigitsFrom, ih]
    constructor
    · rintro ⟨hd, hle, hds, hpre⟩
      refine ⟨fun c hc => (List.mem_cons.1 hc).elim (fun h => h ▸ hd) (hds c), fun k h1 h2 => ?_⟩
      obtain ⟨k, rfl⟩ : ∃ j, k = j + 1 := ⟨k - 1, by omega⟩
      rcases Nat.eq_zero_or_pos k with rfl | hk
      · simpa [decimalFrom] using hle
      · simpa [decimalFrom] using hpre k hk (by simpa using h2)
    · rintro ⟨hds, hpre⟩
      refine ⟨hds d (by simp), ?_, fun c hc => hds c (by simp [hc]), fun k h1 h2 => ?_⟩
      · simpa [decimalFrom] using hpre 1 le_rfl (by simp)
      · simpa [decimalFrom] using hpre (k + 1) (by omega) (by simpa using h2)

theorem versionRun_iff {ds : List Byte} :
    VersionRun ds ↔ ∃ d ds', ds = d :: ds' ∧ isDigit d = true ∧ DigitsFrom (digitVal d) ds' := by
  have hdec : ∀ d (ds' : List Byte) k,
      decimal ((d :: ds').take (k + 1)) = decimalFrom (digitVal d) (ds'.take k) := by
    intro d ds' k
    simp [decimal, decimalFrom]
  constructor
  · rintro ⟨hne, hdig, hpre⟩
    obtain ⟨d, ds', rfl⟩ := List.exists_cons_of_ne_nil hne
    refine ⟨d, ds', rfl, hdig d (by simp), digitsFrom_iff.2 ⟨fun c hc => hdig c (by simp [hc]), ?_⟩⟩
    intro k h1 h2
    rw [← hdec]
    exact hpre (k + 1) (by omega) (by simpa using h2)
  · rintro ⟨d, ds', rfl, hd, hds⟩
    obtain ⟨hdig, hpre⟩ := digitsFrom_iff.1 hds
    refine ⟨by simp, fun c hc => (List.mem_cons.1 hc).elim (fun h => h ▸ hd) (hdig c), ?_⟩
    intro k h1 h2
    obtain ⟨k, rfl⟩ : ∃ j, k = j + 1 := ⟨k - 1, by omega⟩
    rw [hdec]
    exact hpre k (by omega) (by simpa using h2)

/-! ## The machine, state by state -/

/-- The archive in another state. -/
def ParseArchive.setState (s : ParserState) (ar : ParseArchive) : ParseArchive :=
  { ar with state := s }

section States

variable {mem : Mem} {p q : Nat} {w : List Byte} {ar ar' : ParseArchive}

/-- A state that expects one of two letters. -/
theorem letter_iff {s s' : ParserState} {upper lower : Byte}
    (hs : ∀ p c, rlBody mem p c (ar.setState s) = expectLetter upper lower c s' (ar.setState s)) :
    scanList (rlBody mem) p w (ar.setState s) = .stop (.done q ar') ↔
      ∃ c rest, w = c :: rest ∧ (c = upper ∨ c = lower) ∧
        scanList (rlBody mem) (p + 1) rest (ar.setState s') = .stop (.done q ar') := by
  rw [scanList_eq_stop]
  refine exists_congr fun c => exists_congr fun rest => and_congr_right fun _ => ?_
  rw [hs, expectLetter]
  by_cases hc : c = upper ∨ c = lower
  · simp only [Bool.or_eq_true, decide_eq_true_eq, hc, if_true, Flow.andThen_next, true_and]
    rfl
  · simp [hc]

/-- A state that expects one byte. -/
theorem byte_iff {s s' : ParserState} {b : Byte}
    (hs : ∀ p c, rlBody mem p c (ar.setState s) =
      if c = b then .next (ar.setState s') else .stop (.ret INVALID_REQUEST (ar.setState s))) :
    scanList (rlBody mem) p w (ar.setState s) = .stop (.done q ar') ↔
      ∃ rest, w = b :: rest ∧
        scanList (rlBody mem) (p + 1) rest (ar.setState s') = .stop (.done q ar') := by
  rw [scanList_eq_stop]
  constructor
  · rintro ⟨c, rest, rfl, hstop⟩
    rw [hs] at hstop
    split_ifs at hstop with hc
    · exact ⟨rest, by rw [hc], hstop⟩
    · cases hstop
  · rintro ⟨rest, rfl, hstop⟩
    exact ⟨b, rest, rfl, by rw [hs, if_pos rfl]; exact hstop⟩

/-- The states that read a number: `st v` has read at least one digit, of value `v` so far,
and `fin v` follows the byte `t` that ends the number. -/
theorem number_iff {st fin : Int → ParseArchive} {t : Byte} (ht : isDigit t = false)
    (hdigit : ∀ p v c, isDigit c = true → rlBody mem p c (st v) =
      if versionDigit v c > 1 then .stop (.ret INVALID_REQUEST (st (versionDigit v c)))
      else .next (st (versionDigit v c)))
    (hother : ∀ p v c, isDigit c = false → rlBody mem p c (st v) =
      if c = t then .next (fin v) else .stop (.ret INVALID_REQUEST (st v)))
    {v : Int} (h0 : 0 ≤ v) (h9 : v ≤ 9) :
    scanList (rlBody mem) p w (st v) = .stop (.done q ar') ↔
      ∃ ds rest, w = ds ++ t :: rest ∧ DigitsFrom v ds ∧
        scanList (rlBody mem) (p + ds.length + 1) rest (fin (decimalFrom v ds)) =
          .stop (.done q ar') := by
  induction w generalizing p v with
  | nil => simp
  | cons c w ih =>
    rw [scanList_cons]
    cases hc : isDigit c with
    | true =>
      have hv := versionDigit_eq h0 h9 hc
      have hb := digitVal_bounds hc
      have hct : c ≠ t := by
        rintro rfl
        rw [ht] at hc
        cases hc
      rw [hdigit p v c hc, hv]
      by_cases hle : v * 10 + digitVal c > 1
      · -- the digit makes the number too large, and no run that begins with it is accepted
        rw [if_pos hle]
        constructor
        · intro h
          cases h
        · rintro ⟨ds, rest, hw, hds, -⟩
          cases ds with
          | nil => exact absurd (List.cons.inj hw).1 hct
          | cons d ds =>
            obtain ⟨rfl, -⟩ := List.cons.inj hw
            obtain ⟨-, hle', -⟩ := hds
            omega
      · rw [if_neg hle, Flow.andThen_next, ih (by omega) (by omega)]
        constructor
        · rintro ⟨ds, rest, rfl, hds, hstop⟩
          refine ⟨c :: ds, rest, rfl, ⟨hc, by omega, hds⟩, ?_⟩
          rw [List.length_cons, show p + (ds.length + 1) + 1 = p + 1 + ds.length + 1 by omega]
          exact hstop
        · rintro ⟨ds, rest, hw, hds, hstop⟩
          cases ds with
          | nil => exact absurd (List.cons.inj hw).1 hct
          | cons d ds =>
            obtain ⟨rfl, rfl⟩ := List.cons.inj hw
            obtain ⟨-, -, hds⟩ := hds
            refine ⟨ds, rest, rfl, hds, ?_⟩
            rw [List.length_cons, show p + (ds.length + 1) + 1 = p + 1 + ds.length + 1 by omega]
              at hstop
            exact hstop
    | false =>
      have hnil : ∀ ds rest, c :: w = ds ++ t :: rest → DigitsFrom v ds → ds = [] := by
        intro ds rest hw hds
        cases ds with
        | nil => rfl
        | cons d ds =>
          obtain ⟨rfl, -⟩ := List.cons.inj hw
          rw [hds.1] at hc
          cases hc
      rw [hother p v c hc]
      constructor
      · intro h
        split_ifs at h with hct
        · exact ⟨[], w, by rw [hct]; rfl, trivial, h⟩
        · cases h
      · rintro ⟨ds, rest, hw, hds, hstop⟩
        obtain rfl := hnil ds rest hw hds
        obtain ⟨hct, rfl⟩ := List.cons.inj hw
        rw [if_pos hct]
        exact hstop

/-- A number from its first digit on. -/
theorem versionRun_scan_iff (st fin : Int → ParseArchive) {first : ParseArchive} {t : Byte}
    (ht : isDigit t = false)
    (hfirst : ∀ p c, rlBody mem p c first =
      if isDigit c = true then .next (st (versionDigit 0 c))
      else .stop (.ret INVALID_REQUEST first))
    (hdigit : ∀ p v c, isDigit c = true → rlBody mem p c (st v) =
      if versionDigit v c > 1 then .stop (.ret INVALID_REQUEST (st (versionDigit v c)))
      else .next (st (versionDigit v c)))
    (hother : ∀ p v c, isDigit c = false → rlBody mem p c (st v) =
      if c = t then .next (fin v) else .stop (.ret INVALID_REQUEST (st v))) :
    scanList (rlBody mem) p w first = .stop (.done q ar') ↔
      ∃ ds rest, w = ds ++ t :: rest ∧ VersionRun ds ∧
        scanList (rlBody mem) (p + ds.length + 1) rest (fin (decimal ds)) =
          .stop (.done q ar') := by
  rw [scanList_eq_stop]
  constructor
  · rintro ⟨d, w', rfl, hstop⟩
    rw [hfirst] at hstop
    split_ifs at hstop with hd
    · have hb := digitVal_bounds hd
      rw [Flow.andThen_next, versionDigit_eq le_rfl (by omega) hd, Int.zero_mul, Int.zero_add,
        number_iff ht hdigit hother hb.1 hb.2] at hstop
      obtain ⟨ds, rest, rfl, hds, hstop⟩ := hstop
      refine ⟨d :: ds, rest, rfl, versionRun_iff.2 ⟨d, ds, rfl, hd, hds⟩, ?_⟩
      rw [List.length_cons, show p + (ds.length + 1) + 1 = p + 1 + ds.length + 1 by omega]
      simpa [decimal, decimalFrom] using hstop
    · cases hstop
  · rintro ⟨ds, rest, rfl, hrun, hstop⟩
    obtain ⟨d, ds, rfl, hd, hds⟩ := versionRun_iff.1 hrun
    have hb := digitVal_bounds hd
    refine ⟨d, ds ++ t :: rest, rfl, ?_⟩
    rw [hfirst, if_pos hd, Flow.andThen_next, versionDigit_eq le_rfl (by omega) hd, Int.zero_mul,
      Int.zero_add, number_iff ht hdigit hother hb.1 hb.2]
    refine ⟨ds, rest, rfl, hds, ?_⟩
    rw [List.length_cons, show p + (ds.length + 1) + 1 = p + 1 + ds.length + 1 by omega] at hstop
    simpa [decimal, decimalFrom] using hstop

/-- A loop state that passes over blanks and goes on at the first other byte. -/
theorem blanks_iff {s : ParserState}
    (hs : ∀ p c, isBlank c = true → rlBody mem p c (ar.setState s) = .next (ar.setState s)) :
    scanList (rlBody mem) p w (ar.setState s) = .stop (.done q ar') ↔
      ∃ gap c rest, w = gap ++ c :: rest ∧ (∀ c ∈ gap, isBlank c = true) ∧ isBlank c = false ∧
        (rlBody mem (p + gap.length) c (ar.setState s)).andThen
          (scanList (rlBody mem) (p + gap.length + 1) rest) = .stop (.done q ar') :=
  scanList_loop_eq_stop (fun c hc p => hs p c hc)

/-- The end of the line. -/
theorem lineEnd_iff :
    scanList (rlBody mem) p w (ar.setState .rlCrAfterVersion) = .stop (.done q ar') ↔
      ∃ rest, w = chr '\n' :: rest ∧ q = p ∧ ar' = ar.setState .rlLfAfterVersion := by
  rw [scanList_eq_stop]
  constructor
  · rintro ⟨c, rest, rfl, hstop⟩
    simp only [rlBody, ParseArchive.setState] at hstop
    split_ifs at hstop with hc
    · cases hstop
      exact ⟨rest, by rw [hc], rfl, rfl⟩
    · cases hstop
  · rintro ⟨rest, rfl, rfl, rfl⟩
    refine ⟨chr '\n', rest, rfl, ?_⟩
    simp [rlBody, ParseArchive.setState]

/-- The archive with another version. -/
def ParseArchive.setVersion (major minor : Int) (ar : ParseArchive) : ParseArchive :=
  { ar with version := ⟨major, minor⟩ }

/-- The states of the major version, up to its dot. -/
theorem major_iff {minor : Int} :
    scanList (rlBody mem) p w ((ar.setVersion 0 minor).setState .rlVersionHTTPSlash) =
        .stop (.done q ar') ↔
      ∃ ds rest, w = ds ++ chr '.' :: rest ∧ VersionRun ds ∧
        scanList (rlBody mem) (p + ds.length + 1) rest
          ((ar.setVersion (decimal ds) minor).setState .rlVersionDot) = .stop (.done q ar') := by
  refine versionRun_scan_iff (fun v => (ar.setVersion v minor).setState .rlVersionMajor)
    (fun v => (ar.setVersion v minor).setState .rlVersionDot) (by decide) ?_ ?_ ?_
  · intro p c
    rfl
  · intro p v c hc
    simp only [rlBody, ParseArchive.setState, ParseArchive.setVersion, hc, if_true]
    rfl
  · intro p v c hc
    simp only [rlBody, ParseArchive.setState, ParseArchive.setVersion, hc, Bool.false_eq_true,
      if_false]

/-- The states of the minor version, up to the carriage return. -/
theorem minor_iff {major : Int} :
    scanList (rlBody mem) p w ((ar.setVersion major 0).setState .rlVersionDot) =
        .stop (.done q ar') ↔
      ∃ ds rest, w = ds ++ chr '\r' :: rest ∧ VersionRun ds ∧
        scanList (rlBody mem) (p + ds.length + 1) rest
          ((ar.setVersion major (decimal ds)).setState .rlCrAfterVersion) =
            .stop (.done q ar') := by
  refine versionRun_scan_iff (fun v => (ar.setVersion major v).setState .rlVersionMinor)
    (fun v => (ar.setVersion major v).setState .rlCrAfterVersion) (by decide) ?_ ?_ ?_
  · intro p c
    rfl
  · intro p v c hc
    simp only [rlBody, ParseArchive.setState, ParseArchive.setVersion, hc, if_true]
    rfl
  · intro p v c hc
    simp only [rlBody, ParseArchive.setState, ParseArchive.setVersion, hc, Bool.false_eq_true,
      if_false]

theorem letter_eq_or {c : Byte} :
    ((c = chr 'H' ∨ c = chr 'h') ↔ toLower c = chr 'h') ∧
      ((c = chr 'T' ∨ c = chr 't') ↔ toLower c = chr 't') ∧
      ((c = chr 'P' ∨ c = chr 'p') ↔ toLower c = chr 'p') :=
  forall_byte (P := fun c => ((c = chr 'H' ∨ c = chr 'h') ↔ toLower c = chr 'h') ∧
    ((c = chr 'T' ∨ c = chr 't') ↔ toLower c = chr 't') ∧
    ((c = chr 'P' ∨ c = chr 'p') ↔ toLower c = chr 'p')) (by decide +kernel) c

/-- The five states of the word `HTTP` and its slash. -/
theorem http_iff :
    scanList (rlBody mem) p w (ar.setState .rlSpBeforeVersion) = .stop (.done q ar') ↔
      ∃ gap http rest, w = gap ++ (http ++ chr '/' :: rest) ∧ (∀ c ∈ gap, isBlank c = true) ∧
        http.map toLower = str "http" ∧
        scanList (rlBody mem) (p + gap.length + http.length + 1) rest
          (ar.setState .rlVersionHTTPSlash) = .stop (.done q ar') := by
  have h2 : ∀ p w, scanList (rlBody mem) p w (ar.setState .rlVersionH) = .stop (.done q ar') ↔
      _ := fun p w => letter_iff (fun _ _ => rfl)
  have h3 : ∀ p w, scanList (rlBody mem) p w (ar.setState .rlVersionHT) = .stop (.done q ar') ↔
      _ := fun p w => letter_iff (fun _ _ => rfl)
  have h4 : ∀ p w, scanList (rlBody mem) p w (ar.setState .rlVersionHTT) = .stop (.done q ar') ↔
      _ := fun p w => letter_iff (fun _ _ => rfl)
  have h5 : ∀ p w, scanList (rlBody mem) p w (ar.setState .rlVersionHTTP) = .stop (.done q ar') ↔
      _ := fun p w => byte_iff (fun _ _ => rfl)
  have hblank : ∀ p c, isBlank c = true →
      rlBody mem p c (ar.setState .rlSpBeforeVersion) = .next (ar.setState .rlSpBeforeVersion) := by
    intro p c hc
    simp only [rlBody, ParseArchive.setState, hc, if_true]
  have hword : ∀ p c, isBlank c = false → rlBody mem p c (ar.setState .rlSpBeforeVersion) =
      expectLetter (chr 'H') (chr 'h') c .rlVersionH (ar.setState .rlSpBeforeVersion) := by
    intro p c hc
    simp only [rlBody, ParseArchive.setState, hc, Bool.false_eq_true, if_false]
  rw [blanks_iff hblank]
  constructor
  · rintro ⟨gap, a, w1, rfl, hgap, ha, hstop⟩
    rw [hword _ _ ha, expectLetter] at hstop
    split_ifs at hstop with hH
    · obtain ⟨b, w2, rfl, hT, hstop⟩ := (h2 _ _).1 hstop
      obtain ⟨c, w3, rfl, hT', hstop⟩ := (h3 _ _).1 hstop
      obtain ⟨d, w4, rfl, hP, hstop⟩ := (h4 _ _).1 hstop
      obtain ⟨rest, rfl, hstop⟩ := (h5 _ _).1 hstop
      refine ⟨gap, [a, b, c, d], rest, rfl, hgap, ?_, hstop⟩
      have ha' := letter_eq_or.1.1 (by simpa using hH)
      have hb' := letter_eq_or.2.1.1 hT
      have hc' := letter_eq_or.2.1.1 hT'
      have hd' := letter_eq_or.2.2.1 hP
      rw [List.map_cons, List.map_cons, List.map_cons, List.map_cons, ha', hb', hc', hd']
      rfl
    · cases hstop
  · rintro ⟨gap, http, rest, rfl, hgap, hhttp, hstop⟩
    obtain ⟨a, b, c, d, rfl⟩ : ∃ a b c d, http = [a, b, c, d] := by
      have hlen : http.length = 4 := by simpa [str] using congrArg List.length hhttp
      exact List.length_eq_four.1 hlen
    have hletters : toLower a = chr 'h' ∧ toLower b = chr 't' ∧ toLower c = chr 't' ∧
        toLower d = chr 'p' := by
      simpa [str] using hhttp
    obtain ⟨ha', hb', hc', hd'⟩ := hletters
    have hH := letter_eq_or.1.2 ha'
    have ha : isBlank a = false := by
      rcases hH with rfl | rfl
      · decide
      · decide
    refine ⟨gap, a, _, rfl, hgap, ha, ?_⟩
    rw [hword _ _ ha, expectLetter, if_pos (by simpa using hH), Flow.andThen_next]
    refine (h2 _ _).2 ⟨b, _, rfl, letter_eq_or.2.1.2 hb', ?_⟩
    refine (h3 _ _).2 ⟨c, _, rfl, letter_eq_or.2.1.2 hc', ?_⟩
    refine (h4 _ _).2 ⟨d, _, rfl, letter_eq_or.2.2.2 hd', ?_⟩
    exact (h5 _ _).2 ⟨rest, rfl, hstop⟩

/-- **From the blank behind the URL to the end of the line.** -/
theorem versionPart_iff (ar : ParseArchive) :
    scanList (rlBody mem) p w ((ar.setVersion 0 0).setState .rlSpBeforeVersion) =
        .stop (.done q ar') ↔
      ∃ gap http major minor rest,
        w = gap ++ (http ++ chr '/' :: (major ++ chr '.' :: (minor ++ chr '\r' :: chr '\n' :: rest))) ∧
        (∀ c ∈ gap, isBlank c = true) ∧ http.map toLower = str "http" ∧ VersionRun major ∧
        VersionRun minor ∧
        q + 1 = p + (gap.length + http.length + major.length + minor.length + 4) ∧
        ar' = (ar.setVersion (decimal major) (decimal minor)).setState .rlLfAfterVersion := by
  rw [http_iff]
  constructor
  · rintro ⟨gap, http, w1, rfl, hgap, hhttp, hstop⟩
    obtain ⟨major, w2, rfl, hmajor, hstop⟩ := major_iff.1 hstop
    obtain ⟨minor, w3, rfl, hminor, hstop⟩ := minor_iff.1 hstop
    obtain ⟨rest, rfl, rfl, rfl⟩ := lineEnd_iff.1 hstop
    exact ⟨gap, http, major, minor, rest, rfl, hgap, hhttp, hmajor, hminor, by omega, rfl⟩
  · rintro ⟨gap, http, major, minor, rest, rfl, hgap, hhttp, hmajor, hminor, hq, rfl⟩
    refine ⟨gap, http, _, rfl, hgap, hhttp, ?_⟩
    refine major_iff.2 ⟨major, _, rfl, hmajor, ?_⟩
    refine minor_iff.2 ⟨minor, _, rfl, hminor, ?_⟩
    exact lineEnd_iff.2 ⟨rest, rfl, by omega, rfl⟩

/-! ## The method -/

/-- `parse_method` recognises the five names and nothing else. -/
theorem parseMethod_iff (pre post : List Byte) {xs : List Byte} {m : HttpMethod} (hm : m ≠ .invalid) :
    parseMethod (pre ++ (xs ++ post)) pre.length (pre.length + xs.length) = m ↔
      xs = methodName m := by
  have hword : ((pre ++ (xs ++ post)).drop pre.length).take xs.length = xs := by simp
  have hlen : pre.length + xs.length - pre.length = xs.length := by omega
  simp only [parseMethod, hlen, hword]
  constructor
  · intro h
    split at h
    · split_ifs at h with h1 h2
      · rw [h1, ← h]
        rfl
      · rw [h2, ← h]
        rfl
      · exact absurd h.symm hm
    · split_ifs at h with h1 h2
      · rw [h1, ← h]
        rfl
      · rw [h2, ← h]
        rfl
      · exact absurd h.symm hm
    · split_ifs at h with h1
      · rw [h1, ← h]
        rfl
      · exact absurd h.symm hm
    · exact absurd h.symm hm
  · rintro rfl
    cases m with
    | invalid => exact absurd rfl hm
    | _ => decide +kernel

theorem methodName_letters (m : HttpMethod) : ∀ c ∈ methodName m, isAlpha c = true := by
  cases m <;> decide +kernel

/-- **The method and the space behind it.** -/
theorem method_iff {pre post : List Byte} (hmem : mem = pre ++ (w ++ post)) :
    scanList (rlBody mem) pre.length w (ar.setState .rlBegin) = .stop (.done q ar') ↔
      ∃ m rest, w = methodName m ++ chr ' ' :: rest ∧ m ≠ .invalid ∧
        scanList (rlBody mem) (pre.length + (methodName m).length + 1) rest
          { ar with method := m, methodBegin := some pre.length, state := .rlSpBeforeUrl } =
            .stop (.done q ar') := by
  have hloop : ∀ c, isAlpha c = true → ∀ p,
      rlBody mem p c { ar with methodBegin := some pre.length, state := .rlMethod } =
        .next { ar with methodBegin := some pre.length, state := .rlMethod } := by
    intro c hc p
    simp only [rlBody, rlMethodCase, hc, if_true]
  have hbegin : ∀ c, isAlpha c = true → rlBody mem pre.length c (ar.setState .rlBegin) =
      .next { ar with methodBegin := some pre.length, state := .rlMethod } := by
    intro c hc
    simp only [rlBody, rlMethodCase, ParseArchive.setState, hc, if_true]
  constructor
  · intro h
    obtain ⟨x, w', rfl, hstop⟩ := scanList_eq_stop.1 h
    by_cases hx : isAlpha x = true
    · rw [hbegin x hx, Flow.andThen_next, scanList_loop_eq_stop hloop] at hstop
      obtain ⟨xs, y, rest, rfl, hxs, hy, hstop⟩ := hstop
      simp only [rlBody, rlMethodCase, hy, Bool.false_eq_true, if_false] at hstop
      split_ifs at hstop with hsp hinv
      · cases hstop
      · have hpos : pre.length + 1 + xs.length = pre.length + (x :: xs).length := by simp; omega
        have hmem' : mem = pre ++ ((x :: xs) ++ (y :: rest ++ post)) := by simp [hmem]
        have hname := (parseMethod_iff _ _ hinv).1 (by rw [hpos, ← hmem'])
        refine ⟨_, rest, by rw [← hname, ← hsp]; rfl, hinv, ?_⟩
        rw [← hname, ← hpos]
        exact hstop
      · cases hstop
    · simp [rlBody, ParseArchive.setState, hx] at hstop
  · rintro ⟨m, rest, rfl, hm, hstop⟩
    have hletters := methodName_letters m
    have hmeth := (parseMethod_iff pre (chr ' ' :: rest ++ post) hm).2 rfl
    rw [← List.append_assoc (methodName m), ← hmem] at hmeth
    obtain ⟨x, xs, hname⟩ : ∃ x xs, methodName m = x :: xs := by
      cases m with
      | invalid => exact absurd rfl hm
      | _ => exact ⟨_, _, rfl⟩
    rw [hname] at hmeth hletters hstop ⊢
    have hpos : pre.length + 1 + xs.length = pre.length + (x :: xs).length := by simp; omega
    have hnot : isAlpha (chr ' ') = false := by decide
    rw [List.cons_append, scanList_cons_next (hbegin x (hletters x (by simp))),
      scanList_loop_eq_stop hloop]
    refine ⟨xs, chr ' ', rest, rfl, fun c hc => hletters c (by simp [hc]), hnot, ?_⟩
    simp only [rlBody, rlMethodCase, hnot, Bool.false_eq_true, if_false, if_true, hpos, hmeth, hm,
      Flow.andThen_next]
    exact hstop

/-! ## The URL -/

/-- The end of a URL: its sub-parser accepts it when it begins with a slash. -/
theorem rlUrlEnd_iff {pre u post : List Byte} {d : Byte} (hne : u ≠ [])
    (hu : ∀ c ∈ u, isUrlChar c = true) (hd : isBlank d = true)
    (hmem : mem = pre ++ (u ++ d :: post)) {k : ParseArchive → Flow ParseArchive Exit} :
    (rlUrlEnd mem (pre.length + u.length) (some pre.length) ar).andThen k = .stop (.done q ar') ↔
      u.head? = some (chr '/') ∧ ∃ url,
        parseExtension mem (splitUrl pre.length u d ar.url) = .ok url ∧
        k { ar with requestUrlString := .slice pre.length u.length, url := url } =
          .stop (.done q ar') := by
  have hlt : ¬ pre.length + u.length < pre.length := by omega
  simp only [rlUrlEnd, parseUrl, hlt, if_false]
  by_cases hhead : u.head? = some (chr '/')
  · rw [hmem, parseUrlFields_eq hu hhead hd, ← hmem]
    cases parseExtension mem (splitUrl pre.length u d ar.url) with
    | error f => simp [Except.map]
    | ok url =>
      rw [show pre.length + u.length - pre.length = u.length by omega]
      simp [Except.map, hhead]
  · obtain ⟨c, u, rfl⟩ := List.exists_cons_of_ne_nil hne
    have hc : c ≠ chr '/' := by simpa using hhead
    rw [hmem, parseUrlFields_noSlash hc _ (by omega)]
    simp [Except.map, hc, ERROR]

/-- **The blanks before the URL, the URL and the blank behind it.** -/
theorem url_iff (ar : ParseArchive) {pre post : List Byte} (hmem : mem = pre ++ (w ++ post)) :
    scanList (rlBody mem) pre.length w (ar.setState .rlSpBeforeUrl) = .stop (.done q ar') ↔
      ∃ gap u d rest url, w = gap ++ (u ++ d :: rest) ∧ (∀ c ∈ gap, isBlank c = true) ∧
        (∀ c ∈ u, isUrlChar c = true) ∧ u.head? = some (chr '/') ∧ isBlank d = true ∧
        parseExtension mem (splitUrl (pre.length + gap.length) u d ar.url) = .ok url ∧
        scanList (rlBody mem) (pre.length + gap.length + u.length + 1) rest
          { ar with
            urlBegin := some (pre.length + gap.length)
            requestUrlString := .slice (pre.length + gap.length) u.length
            url := url
            state := .rlSpBeforeVersion } = .stop (.done q ar') := by
  have hblank : ∀ p c, isBlank c = true →
      rlBody mem p c (ar.setState .rlSpBeforeUrl) = .next (ar.setState .rlSpBeforeUrl) := by
    intro p c hc
    simp only [rlBody, ParseArchive.setState, hc, if_true]
  have hloop : ∀ b c, isUrlChar c = true → ∀ p,
      rlBody mem p c { ar with urlBegin := b, state := .rlUrl } =
        .next { ar with urlBegin := b, state := .rlUrl } := by
    intro b c hc p
    simp only [isUrlChar, Bool.and_eq_true, Bool.not_eq_true'] at hc
    simp only [rlBody, hc.1, hc.2, Bool.false_eq_true, if_false]
  have hend : ∀ p b c, isUrlChar c = false →
      rlBody mem p c { ar with urlBegin := b, state := .rlUrl } =
        if isBlank c then rlUrlEnd mem p b { ar with urlBegin := b, state := .rlSpBeforeVersion }
        else .stop (.ret INVALID_REQUEST { ar with urlBegin := b, state := .rlUrl }) := by
    intro p b c hc
    simp only [isUrlChar, Bool.and_eq_false_iff, Bool.not_eq_false'] at hc
    rcases hc with hc | hc
    · simp only [rlBody, hc, if_true]
    · have hnb : isBlank c = false := by
        rcases Bool.or_eq_true_iff.1 hc with h | h
        · rw [beq_iff_eq.1 h]
          decide
        · rw [beq_iff_eq.1 h]
          decide
      simp only [rlBody, hnb, hc, Bool.false_eq_true, if_false, if_true]
  rw [blanks_iff hblank]
  constructor
  · rintro ⟨gap, c, w1, rfl, hgap, hc, hstop⟩
    simp only [rlBody, ParseArchive.setState, hc, Bool.false_eq_true, if_false] at hstop
    split_ifs at hstop with hnl
    · cases hstop
    · rw [Flow.andThen_next, scanList_loop_eq_stop (hloop _)] at hstop
      obtain ⟨u, d, rest, rfl, hu, hd, hstop⟩ := hstop
      rw [hend _ _ _ hd] at hstop
      split_ifs at hstop with hb
      · have hcu : ∀ x ∈ c :: u, isUrlChar x = true := by
          intro x hx
          rcases List.mem_cons.1 hx with rfl | hx
          · simp [isUrlChar, hc, hnl]
          · exact hu x hx
        have hmem' : mem = (pre ++ gap) ++ ((c :: u) ++ d :: (rest ++ post)) := by simp [hmem]
        have hpos : pre.length + gap.length + 1 + u.length =
            pre.length + gap.length + (c :: u).length := by simp; omega
        have hbegin : pre.length + gap.length = (pre ++ gap).length := by simp
        rw [hpos, hbegin, rlUrlEnd_iff (by simp) hcu hb hmem'] at hstop
        obtain ⟨hhead, url, hext, hstop⟩ := hstop
        refine ⟨gap, c :: u, d, rest, url, rfl, hgap, hcu, hhead, hb, ?_, ?_⟩
        · simpa using hext
        · simpa using hstop
      · cases hstop
  · rintro ⟨gap, u, d, rest, url, rfl, hgap, hu, hhead, hd, hext, hstop⟩
    obtain ⟨c, v, rfl⟩ : ∃ c v, u = c :: v :=
      List.exists_cons_of_ne_nil fun h => by simp [h] at hhead
    have hc : isBlank c = false ∧ isNewline c = false := by
      simpa [isUrlChar] using hu c (by simp)
    have hd' : isUrlChar d = false := by simp [isUrlChar, hd]
    refine ⟨gap, c, v ++ d :: rest, rfl, hgap, hc.1, ?_⟩
    simp only [rlBody, ParseArchive.setState, hc.1, hc.2, Bool.false_eq_true, if_false,
      Flow.andThen_next]
    rw [scanList_loop_eq_stop (hloop _)]
    refine ⟨v, d, rest, rfl, fun x hx => hu x (by simp [hx]), hd', ?_⟩
    have hmem' : mem = (pre ++ gap) ++ ((c :: v) ++ d :: (rest ++ post)) := by simp [hmem]
    have hpos : pre.length + gap.length + 1 + v.length =
        pre.length + gap.length + (c :: v).length := by simp; omega
    have hbegin : pre.length + gap.length = (pre ++ gap).length := by simp
    rw [hend _ _ _ hd', if_pos hd, hpos, hbegin,
      rlUrlEnd_iff (by simp) hu hd hmem']
    refine ⟨hhead, url, by simpa using hext, ?_⟩
    simpa using hstop

end States

/-! ## The whole line -/

namespace RequestLine

theorem versionBytes_length (l : RequestLine) : l.versionBytes.length =
    l.gap'.length + l.http.length + l.major.length + l.minor.length + 4 := by
  simp only [versionBytes, List.length_append, List.length_cons, List.length_nil]
  omega

theorem bytes_length (l : RequestLine) :
    l.bytes.length = l.urlOffset + l.url.length + 1 + l.versionBytes.length := by
  simp only [bytes, urlOffset, List.length_append, List.length_cons]
  omega

/-- The URL of a line in a buffer. -/
theorem url_bytes (l : RequestLine) (pre post : List Byte) :
    (Ssstr.slice (pre.length + l.urlOffset) l.url.length).bytes (pre ++ (l.bytes ++ post)) =
      l.url := by
  have hsplit : pre ++ (l.bytes ++ post) =
      (pre ++ (methodName l.method ++ chr ' ' :: l.gap)) ++
        (l.url ++ (l.delim :: l.versionBytes ++ post)) := by
    simp [bytes]
  have hlen : pre.length + l.urlOffset =
      (pre ++ (methodName l.method ++ chr ' ' :: l.gap)).length := by
    simp only [urlOffset, List.length_append, List.length_cons]
    omega
  rw [Ssstr.bytes_slice, hsplit, hlen, List.drop_left, List.take_left]

end RequestLine

/-- **The machine accepts the request lines.**  From a fresh state at the beginning of `w` it
reaches `done` exactly when a line begins there, and then holds what the line says. -/
theorem rlScan_iff {mem pre w post : List Byte} (hmem : mem = pre ++ (w ++ post))
    {ar ar' : ParseArchive} {q : Nat} (hst : ar.state = .rlBegin) (hv : ar.version = ⟨0, 0⟩) :
    scanList (rlBody mem) pre.length w ar = .stop (.done q ar') ↔
      ∃ (l : RequestLine) (rest : List Byte) (url : ReqUrl), w = l.bytes ++ rest ∧
        parseExtension mem (splitUrl (pre.length + l.urlOffset) l.url l.delim ar.url) = .ok url ∧
        q + 1 = pre.length + l.bytes.length ∧ ar' = l.archive pre.length url ar := by
  have har : ar = (ar.setVersion 0 0).setState .rlBegin := by
    cases ar
    cases hst
    cases hv
    rfl
  constructor
  · intro h
    rw [har, method_iff hmem] at h
    obtain ⟨m, w1, rfl, hm, h⟩ := h
    have hmem1 : mem = (pre ++ (methodName m ++ [chr ' '])) ++ (w1 ++ post) := by simp [hmem]
    have hlen1 : pre.length + (methodName m).length + 1 =
        (pre ++ (methodName m ++ [chr ' '])).length := by simp; omega
    rw [hlen1] at h
    obtain ⟨gap, u, d, w2, url, rfl, hgap, hu, hhead, hd, hext, h⟩ := (url_iff
      { ar.setVersion 0 0 with method := m, methodBegin := some pre.length } hmem1).1 h
    rw [← hlen1] at hext h
    obtain ⟨gap', http, major, minor, rest, rfl, hgap', hhttp, hmajor, hminor, hq, rfl⟩ :=
      (versionPart_iff { ar with
        method := m
        methodBegin := some pre.length
        urlBegin := some (pre.length + (methodName m).length + 1 + gap.length)
        requestUrlString := .slice (pre.length + (methodName m).length + 1 + gap.length) u.length
        url := url }).1 h
    refine ⟨⟨m, gap, u, d, gap', http, major, minor, hm, hgap, hu, hhead, hd, hgap', hhttp, hmajor,
      hminor⟩, rest, url, ?_, ?_, ?_, ?_⟩
    · simp [RequestLine.bytes, RequestLine.versionBytes]
    · simpa [RequestLine.urlOffset, Nat.add_assoc, ParseArchive.setVersion] using hext
    · simp only [RequestLine.bytes_length, RequestLine.versionBytes_length, RequestLine.urlOffset]
      omega
    · simp [RequestLine.archive, RequestLine.urlOffset, ParseArchive.setVersion,
        ParseArchive.setState, Nat.add_assoc]
  · rintro ⟨l, rest, url, rfl, hext, hq, rfl⟩
    rw [har, method_iff hmem]
    refine ⟨l.method, l.gap ++ (l.url ++ l.delim :: (l.versionBytes ++ rest)), ?_, l.method_valid,
      ?_⟩
    · simp [RequestLine.bytes]
    have hmem1 : mem = (pre ++ (methodName l.method ++ [chr ' '])) ++
        ((l.gap ++ (l.url ++ l.delim :: (l.versionBytes ++ rest))) ++ post) := by
      simp [hmem, RequestLine.bytes]
    have hlen1 : pre.length + (methodName l.method).length + 1 =
        (pre ++ (methodName l.method ++ [chr ' '])).length := by simp; omega
    have hoff : pre.length + (methodName l.method).length + 1 + l.gap.length =
        pre.length + l.urlOffset := by
      simp only [RequestLine.urlOffset]
      omega
    rw [hlen1]
    refine (url_iff
      { ar.setVersion 0 0 with method := l.method, methodBegin := some pre.length } hmem1).2 ?_
    refine ⟨l.gap, l.url, l.delim, l.versionBytes ++ rest, url, rfl, l.gap_blank, l.url_chars,
      l.url_head, l.delim_blank, ?_, ?_⟩
    · rw [← hlen1, hoff]
      exact hext
    rw [← hlen1, hoff]
    refine (versionPart_iff { ar with
      method := l.method
      methodBegin := some pre.length
      urlBegin := some (pre.length + l.urlOffset)
      requestUrlString := .slice (pre.length + l.urlOffset) l.url.length
      url := url }).2 ?_
    refine ⟨l.gap', l.http, l.major, l.minor, rest, ?_, l.gap'_blank, l.http_letters, l.major_run,
      l.minor_run, ?_, rfl⟩
    · simp [RequestLine.versionBytes]
    · rw [RequestLine.bytes_length, RequestLine.versionBytes_length] at hq
      omega

/-! ## `parse_request_line` -/

section Fresh

/-- A call on a fresh archive is a scan of the message. -/
theorem parseRequestLine_fresh (pre m post : List Byte) :
    parseRequestLine (pre ++ (m ++ post)) pre.length m.length (freshArchive pre.length) =
      match scanList (rlBody (pre ++ (m ++ post))) pre.length m (freshArchive pre.length) with
      | .next ar => .ok ⟨AGAIN, m.length, ar.setPos (some (pre.length + m.length))⟩
      | .stop (.ret code ar) => .ok ⟨code, m.length, ar⟩
      | .stop (.done p ar) =>
          .ok ⟨OK, p + 1 - pre.length, { ar with nextParsePos := some (p + 1), state := .hdBegin }⟩
      | .stop (.fault f) => .error f := by
  have hcall := lineParser_eq (rlBody (pre ++ (m ++ post))) (fun ar => .ok (OK, ar)) pre m post
    le_rfl (show (freshArchive pre.length).nextParsePos = some pre.length from rfl)
  rw [Nat.sub_self, Nat.zero_add] at hcall
  exact hcall

theorem rlScan_fresh (pre m post : List Byte) :
    (∀ ar', scanList (rlBody (pre ++ (m ++ post))) pre.length m (freshArchive pre.length) =
        .next ar' → LineInv (pre.length + m.length) ar') ∧
      ∀ x, scanList (rlBody (pre ++ (m ++ post))) pre.length m (freshArchive pre.length) =
        .stop x → x.Sound :=
  rlScan_sound (lineInv_fresh _) (by simp)

theorem rlScan_ret {mem : Mem} {p : Nat} {w : List Byte} {ar ar' : ParseArchive} {code : Int}
    (h : scanList (rlBody mem) p w ar = .stop (.ret code ar')) : code = INVALID_REQUEST :=
  (scanList_invariant (I := fun _ _ => True) (Q := Exit.RetInvalid) trivial
    (fun _ _ _ _ _ _ _ => trivial) (fun _ _ _ _ _ _ hx => rlBody_retInvalid hx)).2 _ h

/-- A call on a fresh archive returns. -/
theorem parseRequestLine_ok (pre m post : List Byte) :
    ∃ r, parseRequestLine (pre ++ (m ++ post)) pre.length m.length (freshArchive pre.length) =
      .ok r ∧ r.ar.version.Within 99 ∧ (r.code = AGAIN → r.ar.version.Within 9) := by
  obtain ⟨hnext, hstop⟩ := rlScan_fresh pre m post
  rw [parseRequestLine_fresh]
  cases hs : scanList (rlBody (pre ++ (m ++ post))) pre.length m (freshArchive pre.length) with
  | next ar => exact ⟨_, rfl, (hnext ar hs).within, fun _ => (hnext ar hs).version⟩
  | stop x =>
    have hsound := hstop x hs
    cases x with
    | fault f => exact hsound.elim
    | done p ar => exact ⟨_, rfl, hsound, fun h => absurd (show OK = AGAIN from h) (by decide)⟩
    | ret code ar =>
      obtain rfl := rlScan_ret hs
      exact ⟨_, rfl, hsound, fun h => absurd (show INVALID_REQUEST = AGAIN from h) (by decide)⟩

/-- What an accepted call leaves behind. -/
def RequestLine.Parsed (l : RequestLine) (msg : Nat) (r : MWebServer.Parsed) : Prop :=
  r.len = l.bytes.length ∧ r.ar.nextParsePos = some (msg + l.bytes.length) ∧
    r.ar.state = .hdBegin ∧ r.ar.method = l.method ∧
    r.ar.requestUrlString = .slice (msg + l.urlOffset) l.url.length ∧
    r.ar.version = ⟨decimal l.major, decimal l.minor⟩

/-- What a call on a message that begins with a line returns. -/
theorem parseRequestLine_eq (pre post : List Byte) {m : List Byte} {l : RequestLine}
    (hl : l.bytes <+: m) {r : Parsed}
    (hr : parseRequestLine (pre ++ (m ++ post)) pre.length m.length (freshArchive pre.length) =
      .ok r) : ∃ url, parseExtension (pre ++ (m ++ post)) (splitUrl (pre.length + l.urlOffset) l.url
        l.delim (freshArchive pre.length).url) = .ok url ∧
      r = ⟨OK, l.bytes.length, { l.archive pre.length url (freshArchive pre.length) with
        nextParsePos := some (pre.length + l.bytes.length)
        state := .hdBegin }⟩ := by
  obtain ⟨rest, rfl⟩ := hl
  have hurl : (freshArchive pre.length).url.absPath = .init := rfl
  have hpath := splitUrl_pathWithin (b := pre.length + l.urlOffset) (u := l.url) (d := l.delim) hurl
  have hlt : pre.length + l.urlOffset + l.url.length <
      (pre ++ (l.bytes ++ rest ++ post)).length := by
    simp only [List.length_append, l.bytes_length]
    omega
  obtain ⟨url, hext, -, -⟩ := parseExtension_spec hlt hpath
  have hscan := (rlScan_iff (q := pre.length + l.bytes.length - 1) rfl rfl rfl).2
    ⟨l, rest, url, rfl, hext, by rw [l.bytes_length]; omega, rfl⟩
  have hpos : pre.length + l.bytes.length - 1 + 1 = pre.length + l.bytes.length := by
    rw [l.bytes_length]
    omega
  have hlen : pre.length + l.bytes.length - pre.length = l.bytes.length := by omega
  rw [parseRequestLine_fresh, hscan] at hr
  simp only [hpos, hlen] at hr
  exact ⟨url, hext, (Except.ok.inj hr).symm⟩

/-- A line at the beginning of the message is accepted, and consumed exactly. -/
theorem parseRequestLine_complete (pre post : List Byte) {m : List Byte} {l : RequestLine}
    (hl : l.bytes <+: m) {r : Parsed}
    (hr : parseRequestLine (pre ++ (m ++ post)) pre.length m.length (freshArchive pre.length) =
      .ok r) : r.code = OK ∧ l.Parsed pre.length r := by
  obtain ⟨url, -, rfl⟩ := parseRequestLine_eq pre post hl hr
  exact ⟨rfl, rfl, rfl, rfl, rfl, rfl, rfl⟩

/-- What is accepted begins with a line. -/
theorem parseRequestLine_sound (pre post : List Byte) {m : List Byte} {r : Parsed}
    (hr : parseRequestLine (pre ++ (m ++ post)) pre.length m.length (freshArchive pre.length) =
      .ok r) (hok : r.code = OK) : ∃ l : RequestLine, l.bytes <+: m := by
  rw [parseRequestLine_fresh] at hr
  cases hs : scanList (rlBody (pre ++ (m ++ post))) pre.length m (freshArchive pre.length) with
  | next ar =>
    rw [hs] at hr
    cases hr
    exact absurd (show AGAIN = OK from hok) (by decide)
  | stop x =>
    rw [hs] at hr
    cases x with
    | fault f => cases hr
    | ret code ar =>
      obtain rfl := rlScan_ret hs
      cases hr
      exact absurd (show INVALID_REQUEST = OK from hok) (by decide)
    | done p ar =>
      obtain ⟨l, rest, url, hw, -, -, -⟩ := (rlScan_iff rfl rfl rfl).1 hs
      exact ⟨l, rest, hw.symm⟩

/-- What is refused stays refused, whatever bytes come after it. -/
theorem parseRequestLine_refused (pre post : List Byte) {m : List Byte} {r : Parsed}
    (hr : parseRequestLine (pre ++ (m ++ post)) pre.length m.length (freshArchive pre.length) =
      .ok r) (hinv : r.code = INVALID_REQUEST) (x : List Byte) :
    ¬ ∃ l : RequestLine, l.bytes <+: m ++ x := by
  rintro ⟨l, hl⟩
  rcases List.prefix_or_prefix_of_prefix hl (List.prefix_append m x) with hlm | ⟨y, hy⟩
  · have hok := (parseRequestLine_complete pre post hlm hr).1
    rw [hinv] at hok
    exact absurd hok (by decide)
  · -- the line goes on behind `m`: reading it in its own buffer would stop inside it
    obtain ⟨t, ht⟩ := parseRequestLine_ok pre l.bytes []
    have hlok := (parseRequestLine_complete pre [] (List.prefix_refl _) ht.1).1
    have hcongr : scanList (rlBody (pre ++ (m ++ post))) pre.length m (freshArchive pre.length) =
        scanList (rlBody (pre ++ (l.bytes ++ []))) pre.length m (freshArchive pre.length) := by
      refine rlScan_congr (lineInv_fresh _) (by simp) ?_
      rw [← hy]
      simp [← List.append_assoc]
    rw [parseRequestLine_fresh] at hr
    have hparse := ht.1
    rw [parseRequestLine_fresh, ← hy] at hparse
    rw [← hy] at hcongr
    rw [hcongr] at hr
    cases hs : scanList (rlBody (pre ++ (m ++ y ++ []))) pre.length m (freshArchive pre.length) with
    | next ar =>
      rw [hs] at hr
      cases hr
      exact absurd (show AGAIN = INVALID_REQUEST from hinv) (by decide)
    | stop e =>
      rw [scanList_append_of_stop hs] at hparse
      rw [hs] at hr
      cases e with
      | fault f => cases hr
      | done p ar =>
        cases hr
        exact absurd (show OK = INVALID_REQUEST from hinv) (by decide)
      | ret code ar =>
        cases hr
        obtain rfl : _ = t := Except.ok.inj hparse
        exact absurd ((show code = OK from hlok).symm.trans hinv) (by decide)

/-- **The request-line language.**  A call on the bytes `m` from a fresh archive accepts
exactly the strings that begin with a request line, consumes that line and records it; what
it refuses is no beginning of an accepted string; and on no prefix of `m` does a version
number pass 99, so that the next digit still fits a `short`. -/
theorem parseRequestLine_language (pre m post : List Byte) :
    let mem := pre ++ (m ++ post)
    let call := fun k => parseRequestLine mem pre.length k (freshArchive pre.length)
    (∃ r, call m.length = .ok r ∧
      (r.code = OK ↔ ∃ l : RequestLine, l.bytes <+: m) ∧
      (∀ l : RequestLine, l.bytes <+: m →
        l.Parsed pre.length r ∧ r.ar.requestUrlString.bytes mem = l.url) ∧
      (r.code = INVALID_REQUEST → ∀ x post' r',
        parseRequestLine (pre ++ (m ++ x ++ post')) pre.length (m ++ x).length
          (freshArchive pre.length) = .ok r' → r'.code ≠ OK)) ∧
    ∀ k, k ≤ m.length → ∃ r, call k = .ok r ∧ r.ar.version.Within 99 ∧
      (r.code = AGAIN → ∀ d, isDigit d = true → ∀ v,
        v = r.ar.version.httpMajor ∨ v = r.ar.version.httpMinor →
          versionDigit v d = v * 10 + digitVal d ∧ v * 10 + digitVal d ≤ 99) := by
  intro mem call
  constructor
  · obtain ⟨r, hr, -, -⟩ := parseRequestLine_ok pre m post
    refine ⟨r, hr, ⟨parseRequestLine_sound pre post hr, ?_⟩, ?_, ?_⟩
    · rintro ⟨l, hl⟩
      exact (parseRequestLine_complete pre post hl hr).1
    · intro l hl
      have hparsed := (parseRequestLine_complete pre post hl hr).2
      refine ⟨hparsed, ?_⟩
      obtain ⟨rest, rfl⟩ := hl
      obtain ⟨-, -, -, -, hurl, -⟩ := hparsed
      rw [hurl]
      have := l.url_bytes pre (rest ++ post)
      rwa [← List.append_assoc l.bytes] at this
    · intro hinv x post' r' hr' hok
      exact parseRequestLine_refused pre post hr hinv x (parseRequestLine_sound pre post' hr' hok)
  · intro k hk
    obtain ⟨r, hr, h99, h9⟩ := parseRequestLine_ok pre (m.take k) (m.drop k ++ post)
    rw [← List.append_assoc (m.take k), List.take_append_drop, List.length_take,
      min_eq_left hk] at hr
    refine ⟨r, hr, h99, fun hagain d hd v hv => ?_⟩
    obtain ⟨hM0, hM9, hm0, hm9⟩ := h9 hagain
    have hb := digitVal_bounds hd
    have hv09 : 0 ≤ v ∧ v ≤ 9 := by
      rcases hv with rfl | rfl
      · exact ⟨hM0, hM9⟩
      · exact ⟨hm0, hm9⟩
    exact ⟨versionDigit_eq hv09.1 hv09.2 hd, by omega⟩

/-- A line in lower case with doubled blanks is one; a letter too many is not. -/
example : (parseRequestLine (str "GET  /a\tHttp/01.1\r\nHost: b") 0 26 (freshArchive 0)).map
      (fun r => (r.code, r.len)) = .ok (OK, 19) ∧
    (parseRequestLine (str "GETS / HTTP/1.1\r\n") 0 17 (freshArchive 0)).map
      (fun r => r.code) = .ok INVALID_REQUEST := by
  decide +kernel

end Fresh

end MWebServer
