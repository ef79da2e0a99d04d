import MWebServer.Web.HeaderLive

/-!
# Slices inside the parsed input

The parsers copy nothing: what they record of a message are slices of the bytes they
were given.  A message is fed to them in pieces (`Feeding`), first to
`parse_request_line` and then, line by line, to `parse_header_line`; the memory of a
call is what has come so far, so that a read behind it is a fault.

* `parseUrlFields_below` — the three slices of a URL.
* `LineInside`, `HeaderInside` — what holds between two bytes of a line.  Positions that are
  recorded in different states are combined at `done:`, also by an empty line that
  recorded none of them.
* `slices_inside` — no call faults, and every slice lies inside the input.
-/

namespace MWebServer

open Scan

/-! ## Slices that end in time -/

/-- An `ssstr` is unset, or a slice that ends at `n` at the latest. -/
def Ssstr.Below (n : Nat) (s : Ssstr) : Prop :=
  s = .init ∨ ∃ off len : Nat, s = .slice off len ∧ off + len ≤ n

theorem Ssstr.Below.mono {n n' : Nat} {s : Ssstr} (h : s.Below n) (hle : n ≤ n') : s.Below n' :=
  h.imp_right fun ⟨off, len, hs, hlen⟩ => ⟨off, len, hs, by omega⟩

theorem Ssstr.below_init {n : Nat} {s : Ssstr} (h : s = .init) : s.Below n := Or.inl h

/-- The slices of a URL end at `n` at the latest. -/
structure ReqUrl.Below (n : Nat) (url : ReqUrl) : Prop where
  absPath : url.absPath.Below n
  queryString : url.queryString.Below n
  mimeExtension : url.mimeExtension.Below n

/-! ## The URL -/

/-- No dot stands behind the path.  (The search for an extension begins there.) -/
def ReqUrl.NoDotBehind (mem : Mem) (url : ReqUrl) : Prop :=
  ∀ off len : Nat, url.absPath = .slice off len → mem[off + len]? ≠ some (chr '.')

/-- What the machine of `parse_url` has recorded when it stands at `p`. -/
structure UrlScan.Inside (mem : Mem) (p : Nat) (s : UrlScan) : Prop where
  start : s.start ≤ p
  absPath : s.url.absPath.Below (p - 1)
  queryString : s.url.queryString.Below (p - 1)
  mimeExtension : s.url.mimeExtension = .init
  noDot : s.url.NoDotBehind mem

/-- What the code behind `parse_extension:` is given. -/
structure ReqUrl.Split (mem : Mem) (e : Nat) (url : ReqUrl) : Prop where
  absPath : url.absPath.Below e
  queryString : url.queryString.Below e
  mimeExtension : url.mimeExtension = .init
  noDot : url.NoDotBehind mem

/-- How the loop of `parse_url` may be left. -/
def UrlExit.Inside (mem : Mem) (e : Nat) : UrlExit → Prop
  | .ret _ url => url.Below e
  | .parseExtension url => url.Split mem e
  | .fault _ => False

theorem UrlScan.Inside.split {mem : Mem} {p e : Nat} {s : UrlScan} (h : s.Inside mem p)
    (hp : p ≤ e + 1) : s.url.Split mem e :=
  ⟨h.absPath.mono (by omega), h.queryString.mono (by omega), h.mimeExtension, h.noDot⟩

/-- A slice that ends where a byte other than a dot stands. -/
theorem noDotBehind_slice {mem : Mem} {p b : Nat} {c : Byte} (hc : mem[p]? = some c)
    (hne : c ≠ chr '.') (hb : b ≤ p) {url : ReqUrl} (hurl : url.absPath = .slice b (p - b)) :
    url.NoDotBehind mem := by
  intro off len hslice
  rw [hurl] at hslice
  obtain ⟨hoff, hlen⟩ : b = off ∧ p - b = len := by simpa [Ssstr.slice] using hslice
  rw [← hoff, ← hlen, show b + (p - b) = p by omega, hc]
  exact fun h => hne (Option.some.inj h)

/-- One byte of a URL. -/
theorem urlBody_inside {mem : Mem} {p e : Nat} {c : Byte} {s : UrlScan} (hc : mem[p]? = some c)
    (hp : p ≤ e) (h : s.Inside mem p) :
    (∀ s', urlBody p c s = .next s' → s'.Inside mem (p + 1)) ∧
      ∀ x, urlBody p c s = .stop x → x.Inside mem e := by
  have hstart := h.start
  have hstay : ∀ st, UrlScan.Inside mem (p + 1) { s with currState := st } := fun st =>
    ⟨by simp only; omega, h.absPath.mono (by omega), h.queryString.mono (by omega),
      h.mimeExtension, h.noDot⟩
  have hpath : Ssstr.Below p (.slice s.start (p - s.start)) := Or.inr ⟨_, _, rfl, by omega⟩
  unfold urlBody
  split
  case h_1 =>
    constructor
    · intro s' hs
      split_ifs at hs
      cases hs
      exact hstay _
    · intro x hs
      split_ifs at hs
      cases hs
      exact ⟨h.absPath.mono (by omega), h.queryString.mono (by omega),
        Ssstr.below_init h.mimeExtension⟩
  case h_2 =>
    constructor
    · intro s' hs
      split_ifs at hs with hsp hq <;> cases hs
      · exact ⟨by simp only; omega, hpath, Or.inr ⟨p, 0, rfl, le_rfl⟩, h.mimeExtension,
          noDotBehind_slice hc (by rw [hsp]; decide) hstart rfl⟩
      · exact ⟨le_rfl, hpath, h.queryString.mono (by omega), h.mimeExtension,
          noDotBehind_slice hc (by rw [hq]; decide) hstart rfl⟩
      · exact hstay s.currState
    · intro x hs
      split_ifs at hs
  case h_3 =>
    constructor
    · intro s' hs
      split_ifs at hs <;> cases hs
      · exact ⟨by simp only; omega, h.absPath.mono (by omega), hpath, h.mimeExtension, h.noDot⟩
      · exact hstay s.currState
    · intro x hs
      split_ifs at hs
  case h_4 =>
    constructor
    · intro s' hs
      cases hs
    · intro x hs
      cases hs
      exact h.split (by omega)
  case h_5 =>
    constructor
    · intro s' hs
      cases hs
      exact hstay s.currState
    · intro x hs
      cases hs

/-- The extension is an end of the path. -/
theorem parseExtension_below {mem : Mem} {e : Nat} {url : ReqUrl} (he : e < mem.length)
    (h : url.Split mem e) {url' : ReqUrl} (hok : parseExtension mem url = .ok url') :
    url'.Below e := by
  obtain ⟨u, hu, hpath, hquery⟩ := parseExtension_spec he h.absPath
  obtain rfl := Run.ok_unique hu hok
  refine ⟨by rw [hpath]; exact h.absPath, by rw [hquery]; exact h.queryString, ?_⟩
  rcases h.absPath with hinit | ⟨off, len, hslice, hle⟩
  · rw [parseExtension, hinit] at hu
    rw [← Except.ok.inj hu]
    exact Ssstr.below_init h.mimeExtension
  · rw [parseExtension, hslice] at hu
    have hloop : extensionLoop mem off (off + len) len url = .ok u := by
      simpa [Ssstr.slice] using hu
    rcases extensionLoop_suffix le_rfl (h.noDot off len hslice) hloop with hsame | ⟨k, hk, hmime⟩
    · rw [hsame]
      exact Ssstr.below_init h.mimeExtension
    · exact Or.inr ⟨_, _, hmime, by omega⟩

/-- **The slices of a URL end in front of the byte that ends it.** -/
theorem parseUrlFields_below {mem : Mem} {b e : Nat} {r : Int × ReqUrl} (hbe : b ≤ e)
    (he : e < mem.length) (h : parseUrlFields mem b e ⟨.init, .init, .init⟩ = .ok r) :
    r.2.Below e := by
  have hbegin : UrlScan.Inside mem b ⟨.urlBegin, b, ⟨.init, .init, .init⟩⟩ :=
    ⟨le_rfl, Or.inl rfl, Or.inl rfl, rfl, fun off len h => by cases h⟩
  obtain ⟨hnext, hstop⟩ := @scan_invariant _ _ (reading mem (.fault .outOfBounds) urlBody)
    (UrlScan.Inside mem) (UrlExit.Inside mem e) b (e + 1 - b) _ hbegin
    (fun q s s' hq hI hs => by
      rw [reading_of_some (List.getElem?_eq_getElem (show q < mem.length by omega))] at hs
      exact (urlBody_inside (List.getElem?_eq_getElem _) (show q ≤ e by omega) hI).1 s' hs)
    (fun q s x hq hI hs => by
      rw [reading_of_some (List.getElem?_eq_getElem (show q < mem.length by omega))] at hs
      exact (urlBody_inside (List.getElem?_eq_getElem _) (show q ≤ e by omega) hI).2 x hs)
  unfold parseUrlFields at h
  split at h
  · next code url hs =>
    rw [← Except.ok.inj h]
    exact hstop _ hs
  · cases h
  · next url hs =>
    obtain ⟨url', hok, rfl⟩ := Run.map_eq_ok.1 h
    exact parseExtension_below he (hstop _ hs) hok
  · next s hs =>
    obtain ⟨url', hok, rfl⟩ := Run.map_eq_ok.1 h
    exact parseExtension_below he ((hnext s hs).split (by omega)) hok

/-! ## The request line -/

/-- The slices an archive records. -/
def ParseArchive.slices (ar : ParseArchive) : List Ssstr :=
  [ar.requestUrlString, ar.url.absPath, ar.url.queryString, ar.url.mimeExtension, ar.headerName,
    ar.headerVal]

/-- All of them end at `n` at the latest. -/
def ParseArchive.SlicesBelow (n : Nat) (ar : ParseArchive) : Prop := ∀ x ∈ ar.slices, x.Below n

theorem slicesBelow_iff {n : Nat} {ar : ParseArchive} : ar.SlicesBelow n ↔
    ar.requestUrlString.Below n ∧ ar.url.Below n ∧ ar.headerName.Below n ∧ ar.headerVal.Below n := by
  simp only [ParseArchive.SlicesBelow, ParseArchive.slices, List.forall_mem_cons,
    List.not_mem_nil, false_imp_iff, implies_true, and_true]
  constructor
  · rintro ⟨h1, h2, h3, h4, h5, h6⟩
    exact ⟨h1, ⟨h2, h3, h4⟩, h5, h6⟩
  · rintro ⟨h1, ⟨h2, h3, h4⟩, h5, h6⟩
    exact ⟨h1, h2, h3, h4, h5, h6⟩

theorem ParseArchive.SlicesBelow.mono {n n' : Nat} {ar ar' : ParseArchive} (h : ar.SlicesBelow n)
    (hle : n ≤ n') (hsame : ar'.slices = ar.slices) : ar'.SlicesBelow n' := fun x hx =>
  (h x (hsame ▸ hx)).mono hle

/-- A step at `p` that touches nothing of `f`, and leaves the loop at `p` if it leaves it by
`goto done`. -/
def Steady {α : Type} (f : ParseArchive → α) (p : Nat) (ar : ParseArchive) :
    Flow ParseArchive Exit → Prop
  | .next ar' => f ar' = f ar
  | .stop (.ret _ ar') => f ar' = f ar
  | .stop (.done q ar') => q = p ∧ f ar' = f ar
  | .stop (.fault _) => True

/-- The slices, with whether the URL is still to be handed to `parse_url`. -/
def ParseArchive.urlPart (ar : ParseArchive) : List Ssstr × Bool :=
  (ar.slices, ar.state.beforeUrlEnd)

/-- Every step of the request line is steady, but for the end of the URL. -/
theorem rlBody_steady {mem : Mem} {p : Nat} {ch : Byte} {ar : ParseArchive}
    (hurl : ¬ (ar.state = .rlUrl ∧ isBlank ch = true)) :
    Steady ParseArchive.urlPart p ar (rlBody mem p ch ar) := by
  have hmethod : ∀ ar' : ParseArchive, ar'.state = .rlMethod →
      Steady ParseArchive.urlPart p ar' (rlMethodCase mem p ch ar') := by
    intro ar' hst
    unfold rlMethodCase
    split_ifs
    · rfl
    · cases ar'.methodBegin with
      | none => trivial
      | some b =>
        simp only
        split_ifs
        · rfl
        · simp [Steady, ParseArchive.urlPart, ParseArchive.slices, hst, ParserState.beforeUrlEnd]
    · rfl
  unfold rlBody
  cases hst : ar.state
  case rlBegin =>
    simp only
    split_ifs
    · have h := hmethod { ar with methodBegin := some p, state := .rlMethod } rfl
      have hsame : ParseArchive.urlPart { ar with methodBegin := some p, state := .rlMethod } =
          ar.urlPart := by
        simp [ParseArchive.urlPart, ParseArchive.slices, hst, ParserState.beforeUrlEnd]
      revert h
      unfold Steady
      rw [hsame]
      exact id
    · rfl
  case rlMethod => exact hmethod ar hst
  case rlUrl =>
    have hblank : isBlank ch = false := by
      by_contra h
      exact hurl ⟨hst, by simpa using h⟩
    simp only [hblank, Bool.false_eq_true, if_false]
    split_ifs <;> rfl
  all_goals
    simp only [expectLetter]
    repeat' (first
      | rfl
      | (simp [Steady, ParseArchive.urlPart, ParseArchive.slices, hst, ParserState.beforeUrlEnd]; done)
      | split_ifs)

/-- What holds of the archive when the machine of the request line stands at `p`. -/
structure LineInside (p : Nat) (ar : ParseArchive) : Prop where
  line : LineInv p ar
  url : ar.state.beforeUrlEnd = true → ar.url = ⟨.init, .init, .init⟩
  slices : ar.SlicesBelow p

/-- How a line parser may leave its loop over `n` bytes. -/
def Exit.Inside (n : Nat) : Exit → Prop
  | .ret code ar => code = INVALID_REQUEST ∧ ar.SlicesBelow n
  | .done p ar => p < n ∧ ar.SlicesBelow p
  | .fault _ => False

/-- The end of the URL: all of its slices are recorded. -/
theorem rlUrlEnd_inside {mem : Mem} {p n : Nat} {ch : Byte} {ar : ParseArchive}
    (h : LineInside p ar) (hst : ar.state = .rlUrl) (hblank : isBlank ch = true)
    (hp : p < mem.length) (hn : p < n) :
    (∀ ar', rlBody mem p ch ar = .next ar' → LineInside (p + 1) ar') ∧
      ∀ x, rlBody mem p ch ar = .stop x → x.Inside n := by
  have hsound := rlBody_step mem ch h.line hp
  obtain ⟨b, hb, hle⟩ := h.line.urlBegin hst
  have hbefore : ar.state.beforeUrlEnd = true := by rw [hst]; rfl
  obtain ⟨r, hr⟩ := parseUrlFields_ok hle hp (h.line.absPath hbefore)
  have hbelow : r.2.Below p := by
    rw [h.url hbefore] at hr
    exact parseUrlFields_below hle hp hr
  have hslices := slicesBelow_iff.1 h.slices
  have hbody : rlBody mem p ch ar =
      if r.1 ≠ 0 then .stop (.ret r.1 { ar with
        state := .rlSpBeforeVersion, requestUrlString := .slice b (p - b), url := r.2 })
      else .next { ar with
        state := .rlSpBeforeVersion, requestUrlString := .slice b (p - b), url := r.2 } := by
    simp only [rlBody, hst, hblank, if_true, rlUrlEnd, hb, parseUrl, hr, Except.map,
      show ¬ p < b by omega, if_false]
  have hnew : ∀ m, p ≤ m → ParseArchive.SlicesBelow m { ar with
      state := .rlSpBeforeVersion, requestUrlString := .slice b (p - b), url := r.2 } := by
    intro m hm
    refine slicesBelow_iff.2 ⟨Or.inr ⟨_, _, rfl, by omega⟩, ?_, hslices.2.2.1.mono hm,
      hslices.2.2.2.mono hm⟩
    exact ⟨hbelow.absPath.mono hm, hbelow.queryString.mono hm, hbelow.mimeExtension.mono hm⟩
  rw [hbody] at hsound ⊢
  constructor
  · intro ar' hs
    split_ifs at hs hsound with hcode
    cases hs
    exact ⟨hsound, fun hfalse => by (cases hfalse), hnew _ (by omega)⟩
  · intro x hs
    split_ifs at hs with hcode
    cases hs
    exact ⟨rlBody_retInvalid (hbody.trans (if_pos hcode)), hnew n hn.le⟩

/-- One byte of the request line. -/
theorem rlBody_inside {mem : Mem} {p n : Nat} {ch : Byte} {ar : ParseArchive}
    (h : LineInside p ar) (hp : p < mem.length) (hn : p < n) :
    (∀ ar', rlBody mem p ch ar = .next ar' → LineInside (p + 1) ar') ∧
      ∀ x, rlBody mem p ch ar = .stop x → x.Inside n := by
  by_cases hurl : ar.state = .rlUrl ∧ isBlank ch = true
  · exact rlUrlEnd_inside h hurl.1 hurl.2 hp hn
  have hsteady := @rlBody_steady mem p ch ar hurl
  have hsound := rlBody_step mem ch h.line hp
  constructor
  · intro ar' hs
    rw [hs] at hsteady hsound
    obtain ⟨hslices, hbefore⟩ := Prod.mk.inj hsteady
    refine ⟨hsound, fun hst => ?_, h.slices.mono (by omega) hslices⟩
    have hsame : ar'.url = ar.url := by
      simp only [ParseArchive.slices, List.cons.injEq] at hslices
      obtain ⟨-, h1, h2, h3, -⟩ := hslices
      rw [show ar'.url = ⟨ar'.url.absPath, ar'.url.queryString, ar'.url.mimeExtension⟩ from rfl, h1, h2,
        h3]
    rw [hsame]
    exact h.url (hbefore ▸ hst)
  · intro x hs
    rw [hs] at hsteady hsound
    cases x with
    | ret code ar' =>
      exact ⟨rlBody_retInvalid hs, h.slices.mono hn.le (congrArg Prod.fst hsteady)⟩
    | done q ar' =>
      obtain ⟨rfl, hsame⟩ := hsteady
      exact ⟨hn, h.slices.mono le_rfl (congrArg Prod.fst hsame)⟩
    | fault f => exact hsound

/-! ## Header lines -/

/-- The two ends that are recorded lie at `p` at the latest. -/
def ParseArchive.EndsBelow (p : Nat) (ar : ParseArchive) : Prop :=
  (∀ q, ar.headerColonPos = some q → q ≤ p) ∧ ∀ q, ar.headerValEnd = some q → q ≤ p

/-- What holds of the archive when the machine of the header lines stands at `p`. -/
structure HeaderInside (p : Nat) (ar : ParseArchive) : Prop where
  header : HeaderInv p ar
  ends : ar.EndsBelow p
  slices : ar.SlicesBelow p

/-- The header machine records no slice before `done:`. -/
theorem hdBody_steady (p : Nat) (ch : Byte) (ar : ParseArchive) :
    Steady ParseArchive.slices p ar (hdBody p ch ar) := by
  unfold hdBody
  cases ar.state
  all_goals
    simp only
    repeat' (first | rfl | exact ⟨rfl, rfl⟩ | split_ifs)

/-- An end is recorded where the machine stands. -/
theorem hdBody_ends {p : Nat} {ch : Byte} {ar : ParseArchive} (h : ar.EndsBelow p) :
    (∀ ar', hdBody p ch ar = .next ar' → ar'.EndsBelow (p + 1)) ∧
      ∀ q ar', hdBody p ch ar = .stop (.done q ar') → ar'.EndsBelow p := by
  have hstay : ar.EndsBelow (p + 1) :=
    ⟨fun q hq => (h.1 q hq).trans (by omega), fun q hq => (h.2 q hq).trans (by omega)⟩
  have hhere : ∀ q, some p = some q → q ≤ p + 1 := fun q hq => by
    rw [← Option.some.inj hq]
    omega
  unfold hdBody
  constructor
  · intro ar' hs
    split at hs
    all_goals
      try split_ifs at hs
      all_goals cases hs
      all_goals first
        | exact hstay
        | exact ⟨hhere, hstay.2⟩
        | exact ⟨hstay.1, hhere⟩
  · intro q ar' hs
    split at hs
    all_goals
      try split_ifs at hs
      all_goals cases hs
    exact h

/-- One byte of a header line. -/
theorem hdBody_inside {p n : Nat} {ch : Byte} {ar : ParseArchive} (h : HeaderInside p ar)
    (hn : p < n) :
    (∀ ar', hdBody p ch ar = .next ar' → HeaderInside (p + 1) ar') ∧
      ∀ x, hdBody p ch ar = .stop x → x.Inside n ∧
        ∀ q ar', x = .done q ar' → ar'.MarksOk ∧ ar'.EndsBelow q := by
  have hsteady := hdBody_steady p ch ar
  obtain ⟨hinv, horder⟩ := @hdBody_step p ch ar h.header
  obtain ⟨hends, hdone⟩ := @hdBody_ends p ch ar h.ends
  constructor
  · intro ar' hs
    rw [hs] at hsteady
    exact ⟨hinv ar' hs, hends ar' hs, h.slices.mono (by omega) hsteady⟩
  · intro x hs
    have hx := horder x hs
    rw [hs] at hsteady
    cases x with
    | ret code ar' =>
      exact ⟨⟨hdBody_retInvalid hs, h.slices.mono hn.le hsteady⟩, fun q ar'' hx => by cases hx⟩
    | done q ar' =>
      obtain ⟨rfl, hsame⟩ := hsteady
      refine ⟨⟨hn, h.slices.mono le_rfl hsame⟩, fun q' ar'' heq => ?_⟩
      cases heq
      exact ⟨hx, hdone _ _ hs⟩
    | fault f => exact hx.elim

/-- `HEADER_SET` on positions in order. -/
theorem headerSet_below {b e : Option Nat} {n : Nat} {s : Ssstr} (hn : ∀ q, e = some q → q ≤ n)
    (h : headerSet b e = .ok s) : s.Below n := by
  unfold headerSet at h
  split at h
  · next b e =>
    split_ifs at h with hle
    rw [← Except.ok.inj h]
    have := hn e rfl
    exact Or.inr ⟨_, _, rfl, by omega⟩
  · cases h
  · rw [← Except.ok.inj h]
    exact Or.inl rfl
  · cases h

/-! ## A message that is fed -/

/-- A message that comes in pieces: first its request line is parsed, then its headers. -/
structure Feeding where
  headers : Bool
  fed : Fed

namespace Feeding

/-- Before the first call. -/
def fresh : Feeding := ⟨false, ⟨[], AGAIN, freshArchive 0⟩⟩

/-- The next call, on `chunk` more bytes; none is made after `INVALID_REQUEST` or
`CRLF_LINE`. -/
def step (s : Feeding) (chunk : List Byte) : Except Fault Feeding :=
  if s.fed.code = INVALID_REQUEST ∨ s.fed.code = CRLF_LINE then .ok s
  else if s.headers = true then (s.fed.call parseHeaderLine chunk).map fun fed => ⟨true, fed⟩
  else (s.fed.call parseRequestLine chunk).map fun fed => ⟨fed.code = OK, fed⟩

/-- Every slice lies in the bytes given so far, and in those that are parsed. -/
structure SlicesInside (s : Feeding) : Prop where
  given : s.fed.ar.SlicesBelow s.fed.seen.length
  parsed : s.fed.code ≠ INVALID_REQUEST → ∃ pos, s.fed.ar.nextParsePos = some pos ∧
    pos ≤ s.fed.seen.length ∧ s.fed.ar.SlicesBelow pos

/-- What holds between two calls. -/
structure Inv (s : Feeding) : Prop where
  given : s.fed.ar.SlicesBelow s.fed.seen.length
  ready : s.fed.code ≠ INVALID_REQUEST → ∃ pos, s.fed.ar.nextParsePos = some pos ∧
    pos ≤ s.fed.seen.length ∧
      if s.headers = true then HeaderInside pos s.fed.ar
      else LineInside pos s.fed.ar ∧ s.fed.ar.marks = (none, none, none, none)

theorem fresh_inv : fresh.Inv where
  given := slicesBelow_iff.2 ⟨Or.inl rfl, ⟨Or.inl rfl, Or.inl rfl, Or.inl rfl⟩, Or.inl rfl, Or.inl rfl⟩
  ready := fun _ => ⟨0, rfl, le_rfl, ⟨lineInv_fresh 0, fun _ => rfl, slicesBelow_iff.2
    ⟨Or.inl rfl, ⟨Or.inl rfl, Or.inl rfl, Or.inl rfl⟩, Or.inl rfl, Or.inl rfl⟩⟩, rfl⟩

theorem Inv.slicesInside {s : Feeding} (h : s.Inv) : s.SlicesInside := by
  refine ⟨h.given, fun hcode => ?_⟩
  obtain ⟨pos, hpos, hle, hready⟩ := h.ready hcode
  refine ⟨pos, hpos, hle, ?_⟩
  split_ifs at hready
  · exact hready.slices
  · exact hready.1.slices

/-- A call of `parse_request_line`. -/
theorem callRequestLine {s : Fed} {q : Nat} (hpos : s.ar.nextParsePos = some q)
    (hq : q ≤ s.seen.length) (h : LineInside q s.ar)
    (hmarks : s.ar.marks = (none, none, none, none)) (chunk : List Byte) :
    ∃ s', s.call parseRequestLine chunk = .ok s' ∧ Inv ⟨s'.code = OK, s'⟩ := by
  have hlen := Fed.length_unread hpos hq chunk
  obtain ⟨hnext, hstop⟩ := @scanList_invariant _ _ _ (rlBody (s.seen ++ chunk)) LineInside
    (Exit.Inside (s.seen ++ chunk).length) q (s.unread chunk) s.ar h
    (fun p c ar ar' hp hI hs => (rlBody_inside hI (hlen ▸ hp) (hlen ▸ hp)).1 ar' hs)
    (fun p c ar x hp hI hs => (rlBody_inside hI (hlen ▸ hp) (hlen ▸ hp)).2 x hs)
  have hcall := Fed.call_eq (show parseRequestLine (s.seen ++ chunk) =
    lineParser (rlBody (s.seen ++ chunk)) (fun ar => .ok (OK, ar)) (s.seen ++ chunk) from rfl) hpos hq
  have hkeep : ∀ s', s.call parseRequestLine chunk = .ok s' →
      s'.ar.marks = (none, none, none, none) := by
    intro s' hs'
    obtain ⟨r, hr, hs'⟩ := Run.bind_eq_ok.1 hs'
    rw [← Except.ok.inj hs', ← hmarks]
    exact parseRequestLine_marks hr
  cases hs : scanList (rlBody (s.seen ++ chunk)) q (s.unread chunk) s.ar with
  | next ar =>
    rw [hs] at hcall
    have hline := hnext ar hs
    rw [hlen] at hline
    refine ⟨_, hcall, hline.slices, fun _ => ⟨_, rfl, le_rfl, ?_⟩⟩
    simp only [AGAIN, OK, one_ne_zero, decide_false, Bool.false_eq_true, if_false]
    exact ⟨⟨⟨hline.line.methodBegin, hline.line.urlBegin, hline.line.absPath, hline.line.version,
      hline.line.major, hline.line.minor⟩, hline.url, hline.slices⟩, hkeep _ hcall⟩
  | stop x =>
    rw [hs] at hcall
    have hx := hstop x hs
    cases x with
    | fault f => exact hx.elim
    | ret code ar =>
      obtain ⟨rfl, hslices⟩ := hx
      exact ⟨_, hcall, hslices, fun hcode => absurd rfl hcode⟩
    | done p ar =>
      obtain ⟨hp, hslices⟩ := hx
      have hm := hkeep _ hcall
      refine ⟨_, hcall, hslices.mono hp.le rfl, fun _ => ⟨p + 1, rfl, hp, ?_⟩⟩
      simp only [decide_true, if_true]
      simp only [ParseArchive.marks, Prod.mk.injEq] at hm
      obtain ⟨h1, h2, h3, h4⟩ := hm
      refine ⟨(headerInv_hdBegin rfl).2 ?_, ⟨fun q hq => ?_, fun q hq => ?_⟩,
        hslices.mono (by omega) rfl⟩
      · simp only [ParseArchive.MarksOk, h1, h2, h3, h4]
        exact ⟨trivial, trivial⟩
      · rw [h2] at hq
        cases hq
      · rw [h4] at hq
        cases hq

/-- A call of `parse_header_line`. -/
theorem callHeaderLine {s : Fed} {q : Nat} (hpos : s.ar.nextParsePos = some q)
    (hq : q ≤ s.seen.length) (h : HeaderInside q s.ar) (chunk : List Byte) :
    ∃ s', s.call parseHeaderLine chunk = .ok s' ∧ Inv ⟨true, s'⟩ := by
  have hlen := Fed.length_unread hpos hq chunk
  obtain ⟨hnext, hstop⟩ := @scanList_invariant _ _ _ hdBody HeaderInside
    (fun x => x.Inside (s.seen ++ chunk).length ∧
      ∀ q ar', x = .done q ar' → ar'.MarksOk ∧ ar'.EndsBelow q) q (s.unread chunk) s.ar h
    (fun p c ar ar' hp hI hs => (hdBody_inside hI (hlen ▸ hp)).1 ar' hs)
    (fun p c ar x hp hI hs => (hdBody_inside hI (hlen ▸ hp)).2 x hs)
  have hcall := Fed.feedHeader_eq hpos hq chunk
  cases hs : scanList hdBody q (s.unread chunk) s.ar with
  | next ar =>
    rw [hs] at hcall
    have hline := hnext ar hs
    rw [hlen] at hline
    exact ⟨_, hcall, hline.slices, fun _ => ⟨_, rfl, le_rfl, ⟨hline.header.nameBegin,
      hline.header.name, hline.header.valBegin, hline.header.val⟩, hline.ends, hline.slices⟩⟩
  | stop x =>
    rw [hs] at hcall
    obtain ⟨hx, hmarks⟩ := hstop x hs
    cases x with
    | fault f => exact hx.elim
    | ret code ar =>
      obtain ⟨rfl, hslices⟩ := hx
      exact ⟨_, hcall, hslices, fun hcode => absurd rfl hcode⟩
    | done p ar =>
      obtain ⟨hp, hslices⟩ := hx
      obtain ⟨hok, hends⟩ := hmarks p ar rfl
      obtain ⟨name, val, hname, hval, hdone⟩ := headerDone_ok { ar with
        nextParsePos := some (p + 1), state := .hdBegin } hok
      simp only [hdone, Except.map] at hcall
      have hold := slicesBelow_iff.1 hslices
      have hnew : ∀ m, p ≤ m → ParseArchive.SlicesBelow m { ar with
          nextParsePos := some (p + 1), state := .hdBegin, numHeaders := ar.numHeaders + 1
          headerName := name, headerVal := val } := by
        intro m hm
        refine slicesBelow_iff.2 ⟨hold.1.mono hm, ?_, ?_, ?_⟩
        · exact ⟨hold.2.1.absPath.mono hm, hold.2.1.queryString.mono hm,
            hold.2.1.mimeExtension.mono hm⟩
        · exact (headerSet_below hends.1 hname).mono hm
        · exact (headerSet_below hends.2 hval).mono hm
      exact ⟨_, hcall, hnew _ hp.le, fun _ => ⟨p + 1, rfl, hp, (headerInv_hdBegin rfl).2 hok,
        ⟨fun q hq => (hends.1 q hq).trans (by omega), fun q hq => (hends.2 q hq).trans (by omega)⟩,
        hnew _ (by omega)⟩⟩

/-- **Slices stay inside the parsed input**, whatever the bytes are and however they are cut:
no call fails, so that no assert does and no byte behind those given is read, and after each of
them every slice is unset or lies inside. -/
theorem slices_inside (chunks : List (List Byte)) :
    Run.Safely step SlicesInside fresh chunks := by
  refine Run.safely_of_invariant (I := Inv) (fun s h => h.slicesInside) (fun s chunk h => ?_)
    fresh_inv chunks
  obtain ⟨headers, fed⟩ := s
  by_cases hdone : fed.code = INVALID_REQUEST ∨ fed.code = CRLF_LINE
  · exact ⟨_, if_pos hdone, h⟩
  obtain ⟨pos, hpos, hle, hready⟩ := h.ready fun hinvalid => hdone (Or.inl hinvalid)
  unfold step
  rw [if_neg hdone]
  cases headers with
  | true =>
    obtain ⟨fed', hcall, h'⟩ := callHeaderLine hpos hle (by simpa using hready) chunk
    exact ⟨_, by simp only [if_true, hcall, Except.map], h'⟩
  | false =>
    obtain ⟨hline, hmarks⟩ := (by simpa using hready :
      LineInside pos fed.ar ∧ fed.ar.marks = (none, none, none, none))
    obtain ⟨fed', hcall, h'⟩ := callRequestLine hpos hle hline hmarks chunk
    exact ⟨_, by simp only [Bool.false_eq_true, if_false, hcall, Except.map], h'⟩

end Feeding

end MWebServer
