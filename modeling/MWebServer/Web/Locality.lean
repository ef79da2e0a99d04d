import MWebServer.Web.Resume
import MWebServer.Web.Url

/-!
# What the request-line machine relies on, and what it looks at

The machine reads positions it has stored in the archive on the way: where the
method and the URL begin.  `LineInv` says which of them are set in which state, and
how large the version numbers are.  Every step keeps it and ends in no fault
(`rlBody_step`), and under it a step looks at no byte behind its own position
(`rlBody_congr`): what a call answers about some bytes does not depend on what
follows them in the buffer.
-/

namespace MWebServer

open Scan

/-! ## Digits -/

/-- The value of a digit. -/
def digitVal (d : Byte) : Int := d.toNat - 48

theorem signedChar_of_digit {d : Byte} : isDigit d = true → signedChar d - 48 = digitVal d :=
  forall_byte (P := fun d => isDigit d = true → signedChar d - 48 = digitVal d) (by decide +kernel) d

theorem digitVal_bounds {d : Byte} (h : isDigit d = true) : 0 ≤ digitVal d ∧ digitVal d ≤ 9 := by
  simp only [isDigit, Bool.and_eq_true, decide_eq_true_eq, UInt8.le_iff_toNat_le] at h
  have h0 : (chr '0').toNat = 48 := by decide
  have h9 : (chr '9').toNat = 57 := by decide
  unfold digitVal
  omega

/-- One digit more, while the number so far has one digit: no `short` overflows. -/
theorem versionDigit_eq {v : Int} (h0 : 0 ≤ v) (h9 : v ≤ 9) {d : Byte} (hd : isDigit d = true) :
    versionDigit v d = v * 10 + digitVal d := by
  have hb := digitVal_bounds hd
  have hs := signedChar_of_digit hd
  unfold versionDigit
  rw [show v * 10 + signedChar d - 48 = v * 10 + digitVal d by omega]
  exact toShort_of_le (by omega) (by omega)

/-! ## The invariant -/

/-- The URL has not been handed to `parse_url` yet. -/
def ParserState.beforeUrlEnd : ParserState → Bool
  | .rlBegin | .rlMethod | .rlSpBeforeUrl | .rlUrl => true
  | _ => false

/-- No digit of the major version has been read yet. -/
def ParserState.beforeMajor : ParserState → Bool
  | .rlBegin | .rlMethod | .rlSpBeforeUrl | .rlUrl | .rlSpBeforeVersion => true
  | .rlVersionH | .rlVersionHT | .rlVersionHTT | .rlVersionHTTP | .rlVersionHTTPSlash => true
  | _ => false

/-- No digit of the minor version has been read yet. -/
def ParserState.beforeMinor (s : ParserState) : Bool :=
  s.beforeMajor || s == .rlVersionMajor || s == .rlVersionDot

/-- Both numbers lie between `0` and `hi`. -/
def HttpVersion.Within (hi : Int) (v : HttpVersion) : Prop :=
  0 ≤ v.httpMajor ∧ v.httpMajor ≤ hi ∧ 0 ≤ v.httpMinor ∧ v.httpMinor ≤ hi

/-- What holds of the archive when the machine stands at `p`. -/
structure LineInv (p : Nat) (ar : ParseArchive) : Prop where
  methodBegin : ar.state = .rlMethod → ∃ b, ar.methodBegin = some b
  urlBegin : ar.state = .rlUrl → ∃ b, ar.urlBegin = some b ∧ b ≤ p
  absPath : ar.state.beforeUrlEnd = true → ar.url.absPath = .init
  version : ar.version.Within 9
  major : ar.state.beforeMajor = true → ar.version.httpMajor = 0
  minor : ar.state.beforeMinor = true → ar.version.httpMinor = 0

/-- The archive `parse_archive_init` and `next_parse_pos` leave for a message at `msg`. -/
def freshArchive (msg : Nat) : ParseArchive := parseArchiveInit.setPos (some msg)

theorem lineInv_fresh (p : Nat) : LineInv p (freshArchive p) where
  methodBegin := fun h => by cases h
  urlBegin := fun h => by cases h
  absPath := fun _ => rfl
  version := by simp [HttpVersion.Within, freshArchive, ParseArchive.setPos, parseArchiveInit]
  major := fun _ => rfl
  minor := fun _ => rfl

/-! ## One step -/

/-- How a step may leave the loop. -/
def Exit.Sound : Exit → Prop
  | .ret _ ar => ar.version.Within 99
  | .done _ ar => ar.version.Within 99
  | .fault _ => False

/-- A move from state `s` to state `t` that needs nothing the invariant did not say at `s`. -/
def ParserState.Forward (s t : ParserState) : Prop :=
  (t = .rlMethod → s = .rlMethod) ∧ (t = .rlUrl → s = .rlUrl) ∧
    (t.beforeUrlEnd = true → s.beforeUrlEnd = true) ∧
    (t.beforeMajor = true → s.beforeMajor = true) ∧ (t.beforeMinor = true → s.beforeMinor = true)

instance (s t : ParserState) : Decidable (s.Forward t) :=
  inferInstanceAs (Decidable (_ ∧ _ ∧ _ ∧ _ ∧ _))

theorem LineInv.forward {p : Nat} {ar : ParseArchive} (h : LineInv p ar) {t : ParserState}
    (ht : ar.state.Forward t) : LineInv (p + 1) { ar with state := t } := by
  obtain ⟨h1, h2, h3, h4, h5⟩ := ht
  refine ⟨fun hm => h.methodBegin (h1 hm), fun hu => ?_, fun hb => h.absPath (h3 hb), h.version,
    fun hb => h.major (h4 hb), fun hb => h.minor (h5 hb)⟩
  obtain ⟨b, hb, hle⟩ := h.urlBegin (h2 hu)
  exact ⟨b, hb, by omega⟩

theorem LineInv.stay {p : Nat} {ar : ParseArchive} (h : LineInv p ar) : LineInv (p + 1) ar :=
  h.forward (t := ar.state) ⟨id, id, id, id, id⟩

theorem LineInv.within {p : Nat} {ar : ParseArchive} (h : LineInv p ar) :
    ar.version.Within 99 := by
  obtain ⟨h1, h2, h3, h4⟩ := h.version
  exact ⟨h1, by omega, h3, by omega⟩

/-- A first digit. -/
theorem versionDigit_first {c : Byte} (hc : isDigit c = true) :
    0 ≤ versionDigit 0 c ∧ versionDigit 0 c ≤ 9 := by
  have hb := digitVal_bounds hc
  rw [versionDigit_eq le_rfl (by omega) hc]
  omega

/-- A digit after another one. -/
theorem versionDigit_bounds {v : Int} (h0 : 0 ≤ v) (h9 : v ≤ 9) {c : Byte} (hc : isDigit c = true) :
    0 ≤ versionDigit v c ∧ versionDigit v c ≤ 99 := by
  have hb := digitVal_bounds hc
  rw [versionDigit_eq h0 h9 hc]
  omega

/-- The steps keep the invariant, and leave the loop soundly. -/
def StepSound (p : Nat) : Flow ParseArchive Exit → Prop
  | .next ar => LineInv (p + 1) ar
  | .stop x => x.Sound

theorem rlMethodCase_step {mem : Mem} {p : Nat} {ch : Byte} {ar : ParseArchive} (h : LineInv p ar)
    (hst : ar.state = .rlMethod) : StepSound p (rlMethodCase mem p ch ar) := by
  unfold rlMethodCase
  obtain ⟨b, hb⟩ := h.methodBegin hst
  rw [hb]
  simp only
  split_ifs with h1 h2 h3
  · exact h.stay
  · exact h.within
  · exact ⟨fun hm => by (cases hm), fun hu => by (cases hu), fun _ => h.absPath (by rw [hst]; rfl),
      h.version, fun _ => h.major (by rw [hst]; rfl), fun _ => h.minor (by rw [hst]; rfl)⟩
  · exact h.within

theorem rlUrlEnd_step {mem : Mem} {p : Nat} {ar : ParseArchive} (h : LineInv p ar)
    (hst : ar.state = .rlUrl) (hp : p < mem.length) :
    StepSound p (rlUrlEnd mem p ar.urlBegin { ar with state := .rlSpBeforeVersion }) := by
  obtain ⟨b, hb, hle⟩ := h.urlBegin hst
  obtain ⟨r, hr⟩ := parseUrlFields_ok hle hp (h.absPath (by rw [hst]; rfl))
  have hlt : ¬ p < b := by omega
  rw [hb]
  simp only [rlUrlEnd, parseUrl, hlt, if_false, hr, Except.map]
  split_ifs
  · exact h.within
  · exact ⟨fun hm => by (cases hm), fun hu => by (cases hu), fun hb => by (cases hb), h.version,
      fun _ => h.major (by rw [hst]; rfl), fun _ => h.minor (by rw [hst]; rfl)⟩

/-- **A step keeps the invariant and ends in no fault.** -/
theorem rlBody_step (mem : Mem) {p : Nat} (ch : Byte) {ar : ParseArchive} (h : LineInv p ar)
    (hp : p < mem.length) : StepSound p (rlBody mem p ch ar) := by
  have hfwd : ∀ {s t}, ar.state = s → s.Forward t → LineInv (p + 1) { ar with state := t } :=
    fun hs hf => h.forward (hs ▸ hf)
  have hletter : ∀ {s t} (upper lower : Byte), ar.state = s → s.Forward t →
      StepSound p (expectLetter upper lower ch t ar) := by
    intro s t upper lower hs hf
    unfold expectLetter
    split_ifs
    · exact hfwd hs hf
    · exact h.within
  obtain ⟨hM0, hM9, hm0, hm9⟩ := h.version
  unfold rlBody
  cases hst : ar.state
  case rlBegin =>
    simp only
    split_ifs
    · refine rlMethodCase_step ?_ rfl
      exact ⟨fun _ => ⟨p, rfl⟩, fun hu => by (cases hu), fun _ => h.absPath (by rw [hst]; rfl),
        h.version, fun _ => h.major (by rw [hst]; rfl), fun _ => h.minor (by rw [hst]; rfl)⟩
    · exact h.within
  case rlMethod => exact rlMethodCase_step h hst
  case rlSpBeforeUrl =>
    simp only
    split_ifs
    · exact h.stay
    · exact h.within
    · exact ⟨fun hm => by (cases hm), fun _ => ⟨p, rfl, by omega⟩,
        fun _ => h.absPath (by rw [hst]; rfl), h.version, fun _ => h.major (by rw [hst]; rfl),
        fun _ => h.minor (by rw [hst]; rfl)⟩
  case rlUrl =>
    simp only
    split_ifs
    · exact rlUrlEnd_step h hst hp
    · exact h.within
    · exact h.stay
  case rlSpBeforeVersion =>
    simp only
    split_ifs
    · exact h.stay
    · exact hletter _ _ hst (by decide)
  case rlVersionH => exact hletter _ _ hst (by decide)
  case rlVersionHT => exact hletter _ _ hst (by decide)
  case rlVersionHTT => exact hletter _ _ hst (by decide)
  case rlVersionHTTP =>
    simp only
    split_ifs
    · exact hfwd hst (by decide)
    · exact h.within
  case rlVersionHTTPSlash =>
    simp only
    split_ifs with hd
    · rw [h.major (by rw [hst]; rfl)]
      have hb := versionDigit_first hd
      exact ⟨fun hm => by (cases hm), fun hu => by (cases hu), fun hb => by (cases hb),
        ⟨hb.1, hb.2, hm0, hm9⟩, fun hb => by (cases hb), fun _ => h.minor (by rw [hst]; rfl)⟩
    · exact h.within
  case rlVersionMajor =>
    simp only
    split_ifs with hd hle
    · have hb := versionDigit_bounds hM0 hM9 hd
      exact ⟨hb.1, hb.2, hm0, by simp only; omega⟩
    · have hb := versionDigit_bounds hM0 hM9 hd
      exact ⟨fun hm => by (cases hm), fun hu => by (cases hu),
        fun hb => by (cases hb), ⟨hb.1, by simp only; omega, hm0, hm9⟩,
        fun hb => by (cases hb), fun _ => h.minor (by rw [hst]; rfl)⟩
    · exact hfwd hst (by decide)
    · exact h.within
  case rlVersionDot =>
    simp only
    split_ifs with hd
    · rw [h.minor (by rw [hst]; rfl)]
      have hb := versionDigit_first hd
      exact ⟨fun hm => by (cases hm), fun hu => by (cases hu), fun hb => by (cases hb),
        ⟨hM0, hM9, hb.1, hb.2⟩, fun hb => by (cases hb), fun hb => by (cases hb)⟩
    · exact h.within
  case rlVersionMinor =>
    simp only
    split_ifs with hd hle
    · have hb := versionDigit_bounds hm0 hm9 hd
      exact ⟨hM0, by simp only; omega, hb.1, hb.2⟩
    · have hb := versionDigit_bounds hm0 hm9 hd
      exact ⟨fun hm => by (cases hm), fun hu => by (cases hu),
        fun hb => by (cases hb), ⟨hM0, hM9, hb.1, by simp only; omega⟩,
        fun hb => by (cases hb), fun hb => by (cases hb)⟩
    · exact hfwd hst (by decide)
    · exact h.within
  case rlCrAfterVersion =>
    simp only
    split_ifs
    · exact h.within
    · exact h.within
  all_goals exact h.stay

/-! ## Locality -/

/-- `parse_method` looks at the bytes before its end only. -/
theorem parseMethod_congr {mem mem' : Mem} {b p : Nat} (hmem : mem.take p = mem'.take p) :
    parseMethod mem b p = parseMethod mem' b p := by
  have hword : (mem.drop b).take (p - b) = (mem'.drop b).take (p - b) := by
    rw [← List.drop_take, ← List.drop_take, hmem]
  unfold parseMethod
  rw [hword]

theorem getElem?_of_take_eq {mem mem' : Mem} {n : Nat} (h : mem.take n = mem'.take n) {i : Nat}
    (hi : i < n) : mem[i]? = mem'[i]? := by
  rw [← List.getElem?_take_of_lt hi, h, List.getElem?_take_of_lt hi]

/-- **A step looks at no byte behind its position.** -/
theorem rlBody_congr {mem mem' : Mem} {p : Nat} (ch : Byte) {ar : ParseArchive} (h : LineInv p ar)
    (hp : p < mem.length) (hmem : mem.take (p + 1) = mem'.take (p + 1)) :
    rlBody mem p ch ar = rlBody mem' p ch ar := by
  have htake : mem.take p = mem'.take p := by
    simpa [List.take_take] using congrArg (List.take p) hmem
  have hcase : ∀ ar, rlMethodCase mem p ch ar = rlMethodCase mem' p ch ar := by
    intro ar
    unfold rlMethodCase
    simp only [parseMethod_congr (b := _) htake]
  unfold rlBody
  cases hst : ar.state
  case rlBegin => simp only [hcase]
  case rlMethod => exact hcase ar
  case rlUrl =>
    obtain ⟨b, hb, hle⟩ := h.urlBegin hst
    have hurl := parseUrlFields_congr hle hp
      (fun i hi => getElem?_of_take_eq hmem (by omega)) (h.absPath (by rw [hst]; rfl))
    simp only [hb, rlUrlEnd, parseUrl, hurl]
  all_goals rfl

section Scan

variable {mem mem' : Mem} {p : Nat} {w : List Byte} {ar : ParseArchive}

/-- The invariant along a scan that stays inside the buffer. -/
theorem rlScan_sound (h : LineInv p ar) (hp : p + w.length ≤ mem.length) :
    (∀ ar', scanList (rlBody mem) p w ar = .next ar' → LineInv (p + w.length) ar') ∧
      ∀ x, scanList (rlBody mem) p w ar = .stop x → x.Sound := by
  refine scanList_invariant (I := LineInv) h ?_ ?_
  · intro q x s s' hq hI hs
    have := rlBody_step mem x hI (by omega)
    rw [hs] at this
    exact this
  · intro q x s r hq hI hs
    have := rlBody_step mem x hI (by omega)
    rw [hs] at this
    exact this

/-- A scan looks at no byte behind the bytes it scans. -/
theorem rlScan_congr (h : LineInv p ar) (hp : p + w.length ≤ mem.length)
    (hmem : mem.take (p + w.length) = mem'.take (p + w.length)) :
    scanList (rlBody mem) p w ar = scanList (rlBody mem') p w ar := by
  refine scanList_congr (I := LineInv) h ?_ ?_
  · intro q x s s' hq hI hs
    have := rlBody_step mem x hI (by omega)
    rw [hs] at this
    exact this
  · intro q x s hq hI
    refine rlBody_congr x hI (by omega) ?_
    have := congrArg (List.take (q + 1)) hmem
    rwa [List.take_take, List.take_take, min_eq_left (by omega)] at this

end Scan

end MWebServer
