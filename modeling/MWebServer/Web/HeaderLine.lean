import MWebServer.Web.Locality

/-!
# The language of header lines

`HeaderLine` is a header as a client writes it, and `blankLine` the line that ends
the header section.  `hdScan_iff` follows `parse_header_line` through its states:
from `S_HD_BEGIN` it reaches `done` on exactly these two, and `isCRLF_LINE` then
says on which.

The asserts at `done:` compare positions the archive holds, on an empty line those
of an earlier header.  `HeaderInv` is what keeps them in order from call to call
(`hdBody_step`, `parseRequestLine_marks`, `parseHeaderLine_headerInv`).
-/

namespace MWebServer

open Scan

/-! ## The grammar -/

/-- A header line, taken apart. -/
structure HeaderLine where
  /-- The blanks before the name. -/
  lead : List Byte
  name : List Byte
  /-- The blanks before the value. -/
  gap : List Byte
  val : List Byte
  lead_blank : ∀ c ∈ lead, isBlank c = true
  name_ne : name ≠ []
  name_chars : ∀ c ∈ name, isHeaderNameChar c = true
  gap_blank : ∀ c ∈ gap, isBlank c = true
  val_chars : ∀ c ∈ val, isNewline c = false
  val_head : ∃ c, val.head? = some c ∧ isBlank c = false

namespace HeaderLine

theorem blank_nil : ∀ c ∈ ([] : List Byte), isBlank c = true := by simp

theorem blank_space : ∀ c ∈ str " ", isBlank c = true := by decide +kernel

/-- The bytes of a header line. -/
def bytes (l : HeaderLine) : List Byte :=
  l.lead ++ (l.name ++ chr ':' :: (l.gap ++ (l.val ++ [chr '\r', chr '\n'])))

/-- How far into the line its value begins. -/
def valOffset (l : HeaderLine) : Nat := l.lead.length + l.name.length + 1 + l.gap.length

/-- The archive the machine holds at the end of the line, begun at `p` from `ar`. -/
def archive (l : HeaderLine) (p : Nat) (ar : ParseArchive) : ParseArchive :=
  { ar with
    state := .hdLfAfterVal
    headerLineBegin := some (p + l.lead.length)
    headerColonPos := some (p + l.lead.length + l.name.length)
    headerValBegin := some (p + l.valOffset)
    headerValEnd := some (p + l.valOffset + l.val.length)
    isCRLFLine := false }

theorem bytes_length (l : HeaderLine) : l.bytes.length = l.valOffset + l.val.length + 2 := by
  simp only [bytes, valOffset, List.length_append, List.length_cons, List.length_nil]
  omega

/-- The name of a line in a buffer. -/
theorem name_bytes (l : HeaderLine) (pre post : List Byte) :
    (Ssstr.slice (pre.length + l.lead.length) l.name.length).bytes (pre ++ (l.bytes ++ post)) =
      l.name := by
  have hsplit : pre ++ (l.bytes ++ post) = (pre ++ l.lead) ++ (l.name ++
      (chr ':' :: (l.gap ++ (l.val ++ [chr '\r', chr '\n'])) ++ post)) := by
    simp [bytes]
  rw [Ssstr.bytes_slice, hsplit, ← List.length_append, List.drop_left, List.take_left]

/-- The value of a line in a buffer. -/
theorem val_bytes (l : HeaderLine) (pre post : List Byte) :
    (Ssstr.slice (pre.length + l.valOffset) l.val.length).bytes (pre ++ (l.bytes ++ post)) =
      l.val := by
  have hsplit : pre ++ (l.bytes ++ post) = (pre ++ (l.lead ++ (l.name ++ chr ':' :: l.gap))) ++
      (l.val ++ ([chr '\r', chr '\n'] ++ post)) := by
    simp [bytes]
  have hlen : pre.length + l.valOffset =
      (pre ++ (l.lead ++ (l.name ++ chr ':' :: l.gap))).length := by
    simp only [valOffset, List.length_append, List.length_cons]
    omega
  rw [Ssstr.bytes_slice, hsplit, hlen, List.drop_left, List.take_left]

end HeaderLine

/-- The empty line after the headers. -/
def blankLine (ws : List Byte) : List Byte := ws ++ [chr '\r', chr '\n']

/-! ## The machine, state by state -/

theorem isNewline_iff {c : Byte} : isNewline c = true ↔ c = chr '\r' ∨ c = chr '\n' := by
  simp [isNewline]

theorem not_blank_of_isHeaderNameChar :
    ∀ {c : Byte}, isHeaderNameChar c = true → isBlank c = false ∧ c ≠ chr '\r' ∧ c ≠ chr ':' :=
  fun {c} => forall_byte (P := fun c => isHeaderNameChar c = true →
    isBlank c = false ∧ c ≠ chr '\r' ∧ c ≠ chr ':') (by decide +kernel) c

section States

variable {p q : Nat} {w : List Byte} {ar ar' : ParseArchive}

/-- A value that ends in a bare line feed is never finished. -/
theorem scan_hdLfAfterVal (p : Nat) (w : List Byte) (ar : ParseArchive) :
    scanList hdBody p w { ar with state := .hdLfAfterVal } =
      .next { ar with state := .hdLfAfterVal } := by
  have hloop : ∀ x ∈ w, ∀ q, hdBody q x { ar with state := .hdLfAfterVal } =
      .next { ar with state := .hdLfAfterVal } := fun _ _ _ => rfl
  have := scanList_skip hloop p []
  simpa using this

/-- The line feed behind the carriage return. -/
theorem hdCrAfterVal_iff (ar : ParseArchive) :
    scanList hdBody p w { ar with state := .hdCrAfterVal } = .stop (.done q ar') ↔
      ∃ rest, w = chr '\n' :: rest ∧ q = p ∧ ar' = { ar with state := .hdLfAfterVal } := by
  rw [scanList_eq_stop]
  constructor
  · rintro ⟨c, rest, rfl, hstop⟩
    simp only [hdBody] at hstop
    split_ifs at hstop with hc
    · cases hstop
      exact ⟨rest, by rw [hc], rfl, rfl⟩
    · cases hstop
  · rintro ⟨rest, rfl, rfl, rfl⟩
    exact ⟨chr '\n', rest, rfl, by simp [hdBody]⟩

/-- The rest of a value, up to the end of the line. -/
theorem hdVal_iff (ar : ParseArchive) :
    scanList hdBody p w { ar with state := .hdVal } = .stop (.done q ar') ↔
      ∃ v rest, w = v ++ chr '\r' :: chr '\n' :: rest ∧ (∀ c ∈ v, isNewline c = false) ∧
        q = p + v.length + 1 ∧
        ar' = { ar with headerValEnd := some (p + v.length), state := .hdLfAfterVal } := by
  have hloop : ∀ c, (!isNewline c) = true → ∀ p,
      hdBody p c { ar with state := .hdVal } = .next { ar with state := .hdVal } := by
    intro c hc p
    have hne : ¬ (c = chr '\r' ∨ c = chr '\n') := by
      rw [← isNewline_iff]
      simpa using hc
    simp [hdBody, not_or.1 hne]
  rw [scanList_loop_eq_stop (P := fun c => !isNewline c) hloop]
  constructor
  · rintro ⟨v, y, rest, rfl, hv, hy, hstop⟩
    rcases isNewline_iff.1 (by simpa using hy) with rfl | rfl
    · simp only [hdBody, if_true, Flow.andThen_next] at hstop
      obtain ⟨rest, rfl, rfl, rfl⟩ := (hdCrAfterVal_iff
        { ar with headerValEnd := some (p + v.length) }).1 hstop
      exact ⟨v, rest, rfl, fun c hc => by simpa using hv c hc, rfl, rfl⟩
    · have hne : chr '\n' ≠ chr '\r' := by decide
      simp only [hdBody, hne, if_false, if_true, Flow.andThen_next] at hstop
      rw [scan_hdLfAfterVal] at hstop
      cases hstop
  · rintro ⟨v, rest, rfl, hv, rfl, rfl⟩
    refine ⟨v, chr '\r', _, rfl, fun c hc => by simpa using hv c hc, by decide, ?_⟩
    simp only [hdBody, if_true, Flow.andThen_next]
    exact (hdCrAfterVal_iff { ar with headerValEnd := some (p + v.length) }).2
      ⟨rest, rfl, rfl, rfl⟩

/-- The blanks before a value, and the value: both states between the colon and it act alike
once a blank has been read. -/
theorem hdSpBeforeVal_iff (ar : ParseArchive) :
    scanList hdBody p w { ar with state := .hdSpBeforeVal } = .stop (.done q ar') ↔
      ∃ gap v rest, w = gap ++ (v ++ chr '\r' :: chr '\n' :: rest) ∧
        (∀ c ∈ gap, isBlank c = true) ∧ (∀ c ∈ v, isNewline c = false) ∧
        (∃ c, v.head? = some c ∧ isBlank c = false) ∧ q = p + gap.length + v.length + 1 ∧
        ar' = { ar with
          headerValBegin := some (p + gap.length)
          headerValEnd := some (p + gap.length + v.length)
          state := .hdLfAfterVal } := by
  have hloop : ∀ c, isBlank c = true → ∀ p,
      hdBody p c { ar with state := .hdSpBeforeVal } = .next { ar with state := .hdSpBeforeVal } := by
    intro c hc p
    simp only [hdBody, hc, if_true]
  rw [scanList_loop_eq_stop hloop]
  constructor
  · rintro ⟨gap, c, w', rfl, hgap, hc, hstop⟩
    simp only [hdBody, hc, Bool.false_eq_true, if_false] at hstop
    split_ifs at hstop with hnl
    · cases hstop
    · obtain ⟨v, rest, rfl, hv, rfl, rfl⟩ := (hdVal_iff
        { ar with headerValBegin := some (p + gap.length) }).1 hstop
      refine ⟨gap, c :: v, rest, rfl, hgap, ?_, ⟨c, rfl, hc⟩, ?_, ?_⟩
      · intro x hx
        rcases List.mem_cons.1 hx with rfl | hx
        · simpa using hnl
        · exact hv x hx
      · simp only [List.length_cons]
        omega
      · simp only [List.length_cons]
        rw [show p + gap.length + 1 + v.length = p + gap.length + (v.length + 1) by omega]
  · rintro ⟨gap, v, rest, rfl, hgap, hv, ⟨c, hhead, hc⟩, rfl, rfl⟩
    obtain ⟨v, rfl⟩ : ∃ v', v = c :: v' := by
      cases v with
      | nil => cases hhead
      | cons x v => exact ⟨v, by rw [Option.some.inj hhead]⟩
    have hnl : isNewline c = false := hv c (by simp)
    refine ⟨gap, c, v ++ chr '\r' :: chr '\n' :: rest, rfl, hgap, hc, ?_⟩
    simp only [hdBody, hc, hnl, Bool.false_eq_true, if_false, Flow.andThen_next]
    refine (hdVal_iff { ar with headerValBegin := some (p + gap.length) }).2
      ⟨v, rest, rfl, fun x hx => hv x (by simp [hx]), ?_, ?_⟩
    · simp only [List.length_cons]
      omega
    · simp only [List.length_cons]
      rw [show p + gap.length + (v.length + 1) = p + gap.length + 1 + v.length by omega]

/-- Behind the colon the machine takes the same value as behind a blank. -/
theorem hdColon_iff (ar : ParseArchive) :
    scanList hdBody p w { ar with state := .hdColon } = .stop (.done q ar') ↔
      scanList hdBody p w { ar with state := .hdSpBeforeVal } = .stop (.done q ar') := by
  cases w with
  | nil => simp
  | cons c w =>
    have hstep : hdBody p c { ar with state := .hdColon } =
          hdBody p c { ar with state := .hdSpBeforeVal } ∨
        ∃ a b, hdBody p c { ar with state := .hdColon } = .stop (.ret INVALID_REQUEST a) ∧
          hdBody p c { ar with state := .hdSpBeforeVal } = .stop (.ret INVALID_REQUEST b) := by
      simp only [hdBody]
      split_ifs
      · exact Or.inl rfl
      · exact Or.inr ⟨_, _, rfl, rfl⟩
      · exact Or.inl rfl
    rw [scanList_cons, scanList_cons]
    rcases hstep with heq | ⟨a, b, ha, hb⟩
    · rw [heq]
    · simp [ha, hb]

/-- A name and its colon. -/
theorem hdName_iff (ar : ParseArchive) :
    scanList hdBody p w { ar with state := .hdName } = .stop (.done q ar') ↔
      ∃ n rest, w = n ++ chr ':' :: rest ∧ (∀ c ∈ n, isHeaderNameChar c = true) ∧
        scanList hdBody (p + n.length + 1) rest
          { ar with headerColonPos := some (p + n.length), state := .hdColon } =
            .stop (.done q ar') := by
  have hloop : ∀ c, isHeaderNameChar c = true → ∀ p,
      hdBody p c { ar with state := .hdName } = .next { ar with state := .hdName } := by
    intro c hc p
    simp only [hdBody, hc, if_true]
  rw [scanList_loop_eq_stop hloop]
  constructor
  · rintro ⟨n, c, rest, rfl, hn, hc, hstop⟩
    simp only [hdBody, hc, Bool.false_eq_true, if_false] at hstop
    split_ifs at hstop with hcolon
    · exact ⟨n, rest, by rw [hcolon], hn, hstop⟩
    · cases hstop
  · rintro ⟨n, rest, rfl, hn, hstop⟩
    have hcolon : isHeaderNameChar (chr ':') = false := by decide
    refine ⟨n, chr ':', rest, rfl, hn, hcolon, ?_⟩
    simp only [hdBody, hcolon, Bool.false_eq_true, if_false, if_true, Flow.andThen_next]
    exact hstop

/-- **The machine accepts the header lines and the empty line.** -/
theorem hdScan_iff (hst : ar.state = .hdBegin) :
    scanList hdBody p w ar = .stop (.done q ar') ↔
      (∃ (l : HeaderLine) (rest : List Byte), w = l.bytes ++ rest ∧
        q + 1 = p + l.bytes.length ∧ ar' = l.archive p ar) ∨
      ∃ ws rest, w = blankLine ws ++ rest ∧ (∀ c ∈ ws, isBlank c = true) ∧
        q + 1 = p + (blankLine ws).length ∧
        ar' = { ar with isCRLFLine := true, state := .hdLfAfterVal } := by
  have har : ar = { ar with state := .hdBegin } := by
    cases ar
    cases hst
    rfl
  have hloop : ∀ c, isBlank c = true → ∀ p, hdBody p c ar = .next ar := by
    intro c hc p
    have hname : isHeaderNameChar c = false := by
      cases hn : isHeaderNameChar c with
      | false => rfl
      | true =>
        rw [(not_blank_of_isHeaderNameChar hn).1] at hc
        cases hc
    have hcr : c ≠ chr '\r' := by
      rintro rfl
      exact absurd hc (by decide)
    rw [har]
    simp only [hdBody, hname, hcr, hc, Bool.false_eq_true, if_false, if_true]
  rw [scanList_loop_eq_stop hloop]
  constructor
  · rintro ⟨lead, c, w1, rfl, hlead, hc, hstop⟩
    rw [har] at hstop
    simp only [hdBody, hc, Bool.false_eq_true, if_false] at hstop
    split_ifs at hstop with hname hcr
    · -- a name begins here
      left
      rw [Flow.andThen_next] at hstop
      obtain ⟨n, w2, rfl, hn, hstop⟩ := (hdName_iff { ar with
        headerLineBegin := some (p + lead.length), isCRLFLine := false }).1 hstop
      obtain ⟨gap, v, rest, rfl, hgap, hv, hhead, rfl, rfl⟩ := (hdSpBeforeVal_iff { ar with
        headerLineBegin := some (p + lead.length)
        headerColonPos := some (p + lead.length + 1 + n.length)
        isCRLFLine := false }).1 ((hdColon_iff _).1 hstop)
      refine ⟨⟨lead, c :: n, gap, v, hlead, by simp, ?_, hgap, hv, hhead⟩, rest, ?_, ?_, ?_⟩
      · intro x hx
        rcases List.mem_cons.1 hx with rfl | hx
        · exact hname
        · exact hn x hx
      · simp [HeaderLine.bytes]
      · simp only [HeaderLine.bytes_length, HeaderLine.valOffset, List.length_cons]
        omega
      · simp only [HeaderLine.archive, HeaderLine.valOffset, List.length_cons]
        rw [show p + (lead.length + (n.length + 1) + 1 + gap.length) =
            p + lead.length + 1 + n.length + 1 + gap.length by omega,
          show p + lead.length + (n.length + 1) = p + lead.length + 1 + n.length by omega]
    · -- the line is empty
      right
      subst hcr
      rw [Flow.andThen_next] at hstop
      obtain ⟨rest, rfl, rfl, rfl⟩ :=
        (hdCrAfterVal_iff { ar with isCRLFLine := true }).1 hstop
      refine ⟨lead, rest, by simp [blankLine], hlead, ?_, rfl⟩
      simp only [blankLine, List.length_append, List.length_cons, List.length_nil]
      omega
    · cases hstop
  · rintro (⟨l, rest, rfl, hq, rfl⟩ | ⟨ws, rest, rfl, hws, hq, rfl⟩)
    · obtain ⟨c, n, hname⟩ := List.exists_cons_of_ne_nil l.name_ne
      have hc : isHeaderNameChar c = true := l.name_chars c (by simp [hname])
      refine ⟨l.lead, c, n ++ chr ':' :: (l.gap ++ (l.val ++ chr '\r' :: chr '\n' :: rest)), ?_,
        l.lead_blank, (not_blank_of_isHeaderNameChar hc).1, ?_⟩
      · simp [HeaderLine.bytes, hname]
      rw [har]
      simp only [hdBody, hc, if_true, Flow.andThen_next]
      refine (hdName_iff { ar with
        headerLineBegin := some (p + l.lead.length), isCRLFLine := false }).2
        ⟨n, _, rfl, fun x hx => l.name_chars x (by simp [hname, hx]), ?_⟩
      refine (hdColon_iff { ar with
        headerLineBegin := some (p + l.lead.length)
        headerColonPos := some (p + l.lead.length + 1 + n.length)
        isCRLFLine := false }).2 ?_
      refine (hdSpBeforeVal_iff _).2
        ⟨l.gap, l.val, rest, rfl, l.gap_blank, l.val_chars, l.val_head, ?_, ?_⟩
      · simp only [HeaderLine.bytes_length, HeaderLine.valOffset, hname, List.length_cons] at hq
        omega
      · simp only [HeaderLine.archive, HeaderLine.valOffset, hname, List.length_cons]
        rw [show p + (l.lead.length + (n.length + 1) + 1 + l.gap.length) =
            p + l.lead.length + 1 + n.length + 1 + l.gap.length by omega,
          show p + l.lead.length + (n.length + 1) = p + l.lead.length + 1 + n.length by omega]
    · have hcr : isHeaderNameChar (chr '\r') = false := by decide
      refine ⟨ws, chr '\r', chr '\n' :: rest, by simp [blankLine], hws, by decide, ?_⟩
      rw [har]
      simp only [hdBody, hcr, Bool.false_eq_true, if_false, if_true, Flow.andThen_next]
      refine (hdCrAfterVal_iff { ar with isCRLFLine := true }).2 ⟨rest, rfl, ?_, rfl⟩
      simp only [blankLine, List.length_append, List.length_cons, List.length_nil] at hq
      omega

end States

/-! ## The asserts at `done:` -/

/-- What `HEADER_SET` asserts of two positions, and that a string between them has a
beginning. -/
def Ordered : Option Nat → Option Nat → Prop
  | some b, some e => b ≤ e
  | none, none => True
  | _, _ => False

theorem headerSet_ok {b e : Option Nat} (h : Ordered b e) : ∃ s, headerSet b e = .ok s := by
  cases b with
  | none =>
    cases e with
    | none => exact ⟨_, rfl⟩
    | some e => exact h.elim
  | some b =>
    cases e with
    | none => exact h.elim
    | some e => exact ⟨_, if_pos h⟩

/-- The two pairs of positions of the last header are in order. -/
def ParseArchive.MarksOk (ar : ParseArchive) : Prop :=
  Ordered ar.headerLineBegin ar.headerColonPos ∧ Ordered ar.headerValBegin ar.headerValEnd

/-- What holds of the archive when the machine stands at `p`: only the pair that is being read
may be out of order. -/
structure HeaderInv (p : Nat) (ar : ParseArchive) : Prop where
  nameBegin : ar.state = .hdName → ∃ b, ar.headerLineBegin = some b ∧ b ≤ p
  name : ar.state ≠ .hdName → Ordered ar.headerLineBegin ar.headerColonPos
  valBegin : ar.state = .hdVal → ∃ b, ar.headerValBegin = some b ∧ b ≤ p
  val : ar.state ≠ .hdVal → ar.state ≠ .hdLfAfterVal → Ordered ar.headerValBegin ar.headerValEnd

/-- Between two lines the invariant is that the last header is in order. -/
theorem headerInv_hdBegin {p : Nat} {ar : ParseArchive} (hst : ar.state = .hdBegin) :
    HeaderInv p ar ↔ ar.MarksOk := by
  constructor
  · intro h
    exact ⟨h.name (by rw [hst]; decide), h.val (by rw [hst]; decide) (by rw [hst]; decide)⟩
  · rintro ⟨hname, hval⟩
    exact ⟨fun h => by (rw [hst] at h; cases h), fun _ => hname,
      fun h => by (rw [hst] at h; cases h), fun _ _ => hval⟩

/-- How a step of the header machine may leave the loop. -/
def Exit.InOrder : Exit → Prop
  | .ret _ _ => True
  | .done _ ar => ar.MarksOk
  | .fault _ => False

/-- **A step keeps the invariant, and reaches `done` with both pairs in order.** -/
theorem hdBody_step {p : Nat} {ch : Byte} {ar : ParseArchive} (h : HeaderInv p ar) :
    (∀ ar', hdBody p ch ar = .next ar' → HeaderInv (p + 1) ar') ∧
      ∀ x, hdBody p ch ar = .stop x → x.InOrder := by
  have hstay : HeaderInv (p + 1) ar :=
    ⟨fun hs => (h.nameBegin hs).imp fun _ hb => ⟨hb.1, by omega⟩, h.name,
      fun hs => (h.valBegin hs).imp fun _ hb => ⟨hb.1, by omega⟩, h.val⟩
  unfold hdBody
  cases hst : ar.state
  case hdBegin =>
    have hmarks := (headerInv_hdBegin hst).1 h
    simp only
    constructor
    · intro ar' hs
      split_ifs at hs <;> cases hs
      · exact ⟨fun _ => ⟨p, rfl, by omega⟩, fun hne => absurd rfl hne, fun hs => by (cases hs),
          fun _ _ => hmarks.2⟩
      · exact ⟨fun hs => by (cases hs), fun _ => hmarks.1, fun hs => by (cases hs),
          fun _ _ => hmarks.2⟩
      · exact hstay
    · intro x hs
      split_ifs at hs
      cases hs
      trivial
  case hdName =>
    obtain ⟨b, hb, hle⟩ := h.nameBegin hst
    have hval := h.val (by rw [hst]; decide) (by rw [hst]; decide)
    simp only
    constructor
    · intro ar' hs
      split_ifs at hs <;> cases hs
      · exact hstay
      · refine ⟨fun hs => by (cases hs), fun _ => ?_, fun hs => by (cases hs), fun _ _ => hval⟩
        show Ordered ar.headerLineBegin (some p)
        rw [hb]
        exact hle
    · intro x hs
      split_ifs at hs
      cases hs
      trivial
  case hdVal =>
    obtain ⟨b, hb, hle⟩ := h.valBegin hst
    have hname := h.name (by rw [hst]; decide)
    simp only
    constructor
    · intro ar' hs
      split_ifs at hs <;> cases hs
      · refine ⟨fun hs => by (cases hs), fun _ => hname, fun hs => by (cases hs), fun _ _ => ?_⟩
        show Ordered ar.headerValBegin (some p)
        rw [hb]
        exact hle
      · exact ⟨fun hs => by (cases hs), fun _ => hname, fun hs => by (cases hs),
          fun _ hne => absurd rfl hne⟩
      · exact hstay
    · intro x hs
      split_ifs at hs
  case hdCrAfterVal =>
    have hname := h.name (by rw [hst]; decide)
    have hval := h.val (by rw [hst]; decide) (by rw [hst]; decide)
    simp only
    constructor
    · intro ar' hs
      split_ifs at hs
    · intro x hs
      split_ifs at hs <;> cases hs
      · exact ⟨hname, hval⟩
      · trivial
  case hdColon | hdSpBeforeVal =>
    have hname := h.name (by rw [hst]; decide)
    have hval := h.val (by rw [hst]; decide) (by rw [hst]; decide)
    simp only
    constructor
    · intro ar' hs
      split_ifs at hs <;> cases hs
      all_goals first
        | exact hstay
        | exact ⟨fun hs => by (cases hs), fun _ => hname, fun hs => by (cases hs), fun _ _ => hval⟩
        | exact ⟨fun hs => by (cases hs), fun _ => hname, fun _ => ⟨p, rfl, by omega⟩,
            fun hne _ => absurd rfl hne⟩
    · intro x hs
      split_ifs at hs
      cases hs
      trivial
  all_goals
    constructor
    · intro ar' hs
      cases hs
      exact hstay
    · intro x hs
      cases hs

/-- What `parse_header_line` adds at `done:` when the pairs are in order. -/
theorem headerDone_ok (ar : ParseArchive) (h : ar.MarksOk) :
    ∃ name val, headerSet ar.headerLineBegin ar.headerColonPos = .ok name ∧
      headerSet ar.headerValBegin ar.headerValEnd = .ok val ∧
      headerDone ar = .ok (if ar.isCRLFLine then CRLF_LINE else OK,
        { ar with numHeaders := ar.numHeaders + 1, headerName := name, headerVal := val }) := by
  obtain ⟨name, hname⟩ := headerSet_ok h.1
  obtain ⟨val, hval⟩ := headerSet_ok h.2
  refine ⟨name, val, hname, hval, ?_⟩
  simp [headerDone, hname, hval]

/-! ## `parse_header_line` -/

/-- A call is a scan of the bytes from `next_parse_pos` on. -/
theorem parseHeaderLine_eq (pre m post : List Byte) {msg : Nat} (hmsg : msg ≤ pre.length)
    {ar : ParseArchive} (hpos : ar.nextParsePos = some pre.length) :
    parseHeaderLine (pre ++ (m ++ post)) msg (pre.length - msg + m.length) ar =
      match scanList hdBody pre.length m ar with
      | .next ar =>
          .ok ⟨AGAIN, pre.length - msg + m.length, ar.setPos (some (pre.length + m.length))⟩
      | .stop (.ret code ar) => .ok ⟨code, pre.length - msg + m.length, ar⟩
      | .stop (.done p ar) =>
          (headerDone { ar with nextParsePos := some (p + 1), state := .hdBegin }).map
            fun r => ⟨r.1, p + 1 - msg, r.2⟩
      | .stop (.fault f) => .error f := by
  exact lineParser_eq hdBody headerDone pre m post hmsg hpos

theorem hdScan_inv {p : Nat} {w : List Byte} {ar : ParseArchive} (h : HeaderInv p ar) :
    (∀ ar', scanList hdBody p w ar = .next ar' → HeaderInv (p + w.length) ar') ∧
      ∀ x, scanList hdBody p w ar = .stop x → x.InOrder :=
  scanList_invariant (I := HeaderInv) h (fun _ _ _ s' _ hI hs => (hdBody_step hI).1 s' hs)
    (fun _ _ _ r _ hI hs => (hdBody_step hI).2 r hs)

theorem hdScan_ret {p : Nat} {w : List Byte} {ar ar' : ParseArchive} {code : Int}
    (h : scanList hdBody p w ar = .stop (.ret code ar')) : code = INVALID_REQUEST :=
  (scanList_invariant (I := fun _ _ => True) (Q := Exit.RetInvalid) trivial
    (fun _ _ _ _ _ _ _ => trivial) (fun _ _ _ _ _ _ hx => hdBody_retInvalid hx)).2 _ h

/-- What the end of a line leaves behind, whichever line it was. -/
structure LineEnd (msg pos len : Nat) (r : Parsed) : Prop where
  consumed : r.len = pos - msg + len
  nextParsePos : r.ar.nextParsePos = some (pos + len)
  state : r.ar.state = .hdBegin

/-- A header line at the beginning of the bytes is read, consumed exactly, and recorded. -/
theorem parseHeaderLine_header (pre post : List Byte) {m : List Byte} {l : HeaderLine}
    (hl : l.bytes <+: m) {msg : Nat} (hmsg : msg ≤ pre.length) {ar : ParseArchive}
    (hpos : ar.nextParsePos = some pre.length) (hst : ar.state = .hdBegin) :
    ∃ r, parseHeaderLine (pre ++ (m ++ post)) msg (pre.length - msg + m.length) ar = .ok r ∧
      r.code = OK ∧ LineEnd msg pre.length l.bytes.length r ∧
      r.ar = { l.archive pre.length ar with
        numHeaders := ar.numHeaders + 1
        headerName := .slice (pre.length + l.lead.length) l.name.length
        headerVal := .slice (pre.length + l.valOffset) l.val.length
        nextParsePos := some (pre.length + l.bytes.length)
        state := .hdBegin } := by
  obtain ⟨rest, rfl⟩ := hl
  have hlen := l.bytes_length
  have hscan := (hdScan_iff (p := pre.length) (q := pre.length + l.bytes.length - 1) hst).2
    (Or.inl ⟨l, rest, rfl, by omega, rfl⟩)
  have hmarks : (l.archive pre.length ar).MarksOk := by
    refine ⟨?_, ?_⟩
    · show pre.length + l.lead.length ≤ pre.length + l.lead.length + l.name.length
      omega
    · show pre.length + l.valOffset ≤ pre.length + l.valOffset + l.val.length
      omega
  obtain ⟨name, val, hname, hval, hdone⟩ := headerDone_ok { l.archive pre.length ar with
    nextParsePos := some (pre.length + l.bytes.length - 1 + 1), state := .hdBegin } hmarks
  rw [parseHeaderLine_eq pre _ post hmsg hpos, hscan]
  simp only
  rw [hdone]
  have hname' : name = .slice (pre.length + l.lead.length) l.name.length := by
    simp only [HeaderLine.archive, headerSet] at hname
    rw [if_pos (by omega)] at hname
    rw [← Except.ok.inj hname, show pre.length + l.lead.length + l.name.length -
      (pre.length + l.lead.length) = l.name.length by omega]
  have hval' : val = .slice (pre.length + l.valOffset) l.val.length := by
    simp only [HeaderLine.archive, headerSet] at hval
    rw [if_pos (by omega)] at hval
    rw [← Except.ok.inj hval, show pre.length + l.valOffset + l.val.length -
      (pre.length + l.valOffset) = l.val.length by omega]
  have hend : pre.length + l.bytes.length - 1 + 1 = pre.length + l.bytes.length := by omega
  refine ⟨_, rfl, rfl, ⟨?_, ?_, rfl⟩, ?_⟩
  · simp only
    omega
  · simp only [hend]
  · simp only [HeaderLine.archive, hname', hval', hend]

/-- The empty line is read and consumed exactly. -/
theorem parseHeaderLine_blank (pre post : List Byte) {m ws : List Byte}
    (hws : ∀ c ∈ ws, isBlank c = true) (hl : blankLine ws <+: m) {msg : Nat}
    (hmsg : msg ≤ pre.length) {ar : ParseArchive} (hpos : ar.nextParsePos = some pre.length)
    (hst : ar.state = .hdBegin) (hmarks : ar.MarksOk) :
    ∃ r, parseHeaderLine (pre ++ (m ++ post)) msg (pre.length - msg + m.length) ar = .ok r ∧
      r.code = CRLF_LINE ∧ LineEnd msg pre.length (blankLine ws).length r ∧
      r.ar.transferEncoding = ar.transferEncoding ∧ r.ar.reqHeaders = ar.reqHeaders := by
  obtain ⟨rest, rfl⟩ := hl
  have hlen : (blankLine ws).length = ws.length + 2 := by simp [blankLine]
  have hscan := (hdScan_iff (p := pre.length) (q := pre.length + (blankLine ws).length - 1) hst).2
    (Or.inr ⟨ws, rest, rfl, hws, by omega, rfl⟩)
  obtain ⟨name, val, -, -, hdone⟩ := headerDone_ok { ar with
    isCRLFLine := true
    nextParsePos := some (pre.length + (blankLine ws).length - 1 + 1)
    state := .hdBegin } hmarks
  rw [parseHeaderLine_eq pre _ post hmsg hpos, hscan]
  simp only
  rw [hdone]
  have hend : pre.length + (blankLine ws).length - 1 + 1 = pre.length + (blankLine ws).length := by
    omega
  refine ⟨_, rfl, rfl, ⟨?_, ?_, rfl⟩, rfl, rfl⟩
  · simp only
    omega
  · simp only [hend]

/-- A call returns, and what it answers `OK` or `CRLF_LINE` to begins with such a line. -/
theorem parseHeaderLine_sound (pre m post : List Byte) {msg : Nat} (hmsg : msg ≤ pre.length)
    {ar : ParseArchive} (hpos : ar.nextParsePos = some pre.length) (hst : ar.state = .hdBegin)
    (hmarks : ar.MarksOk) :
    ∃ r, parseHeaderLine (pre ++ (m ++ post)) msg (pre.length - msg + m.length) ar = .ok r ∧
      (r.code = OK → ∃ l : HeaderLine, l.bytes <+: m) ∧
      (r.code = CRLF_LINE → ∃ ws, (∀ c ∈ ws, isBlank c = true) ∧ blankLine ws <+: m) := by
  obtain ⟨-, hstop⟩ := hdScan_inv (w := m) ((headerInv_hdBegin (p := pre.length) hst).2 hmarks)
  rw [parseHeaderLine_eq pre m post hmsg hpos]
  cases hs : scanList hdBody pre.length m ar with
  | next ar' =>
    exact ⟨_, rfl, fun h => absurd (show AGAIN = OK from h) (by decide),
      fun h => absurd (show AGAIN = CRLF_LINE from h) (by decide)⟩
  | stop x =>
    cases x with
    | fault f => exact (hstop _ hs).elim
    | ret code ar' =>
      obtain rfl := hdScan_ret hs
      exact ⟨_, rfl, fun h => absurd (show INVALID_REQUEST = OK from h) (by decide),
        fun h => absurd (show INVALID_REQUEST = CRLF_LINE from h) (by decide)⟩
    | done p ar' =>
      obtain ⟨name, val, -, -, hdone⟩ := headerDone_ok { ar' with
        nextParsePos := some (p + 1), state := .hdBegin } (hstop _ hs)
      simp only
      rw [hdone]
      refine ⟨_, rfl, ?_, ?_⟩
      · intro hok
        rcases (hdScan_iff hst).1 hs with ⟨l, rest, hw, -, -⟩ | ⟨ws, rest, hw, hws, -, rfl⟩
        · exact ⟨l, rest, hw.symm⟩
        · exact absurd (show CRLF_LINE = OK from hok) (by decide)
      · intro hcrlf
        rcases (hdScan_iff hst).1 hs with ⟨l, rest, hw, -, rfl⟩ | ⟨ws, rest, hw, hws, -, -⟩
        · exact absurd (show OK = CRLF_LINE from hcrlf) (by decide)
        · exact ⟨ws, hws, rest, hw.symm⟩

/-- **The header-line language.**  The archive stands at the beginning of a line, and the
header it read last is in order, which `MarksOk` says and the parsers keep. -/
theorem parseHeaderLine_language (pre m post : List Byte) (msg : Nat) (hmsg : msg ≤ pre.length)
    (ar : ParseArchive) (hpos : ar.nextParsePos = some pre.length) (hst : ar.state = .hdBegin)
    (hmarks : ar.MarksOk) :
    let mem := pre ++ (m ++ post)
    ∃ r, parseHeaderLine mem msg (pre.length - msg + m.length) ar = .ok r ∧
      (r.code = OK ↔ ∃ l : HeaderLine, l.bytes <+: m) ∧
      (r.code = CRLF_LINE ↔ ∃ ws, (∀ c ∈ ws, isBlank c = true) ∧ blankLine ws <+: m) ∧
      (∀ l : HeaderLine, l.bytes <+: m → LineEnd msg pre.length l.bytes.length r ∧
        r.ar.headerName.bytes mem = l.name ∧ r.ar.headerVal.bytes mem = l.val ∧
        r.ar.headerName = .slice (pre.length + l.lead.length) l.name.length ∧
        r.ar.headerVal = .slice (pre.length + l.valOffset) l.val.length) ∧
      ∀ ws, (∀ c ∈ ws, isBlank c = true) → blankLine ws <+: m →
        LineEnd msg pre.length (blankLine ws).length r := by
  intro mem
  obtain ⟨r, hr, hok, hcrlf⟩ := parseHeaderLine_sound pre m post hmsg hpos hst hmarks
  have hheader : ∀ l : HeaderLine, l.bytes <+: m → _ := fun l hl =>
    parseHeaderLine_header pre post hl hmsg hpos hst
  have hblank : ∀ ws, (∀ c ∈ ws, isBlank c = true) → blankLine ws <+: m → _ := fun ws hws hl =>
    parseHeaderLine_blank pre post hws hl hmsg hpos hst hmarks
  refine ⟨r, hr, ⟨hok, ?_⟩, ⟨hcrlf, ?_⟩, ?_, ?_⟩
  · rintro ⟨l, hl⟩
    obtain ⟨t, ht, hcode, -⟩ := hheader l hl
    rwa [Run.ok_unique hr ht]
  · rintro ⟨ws, hws, hl⟩
    obtain ⟨t, ht, hcode, -⟩ := hblank ws hws hl
    rwa [Run.ok_unique hr ht]
  · intro l hl
    obtain ⟨t, ht, -, hend, har⟩ := hheader l hl
    obtain rfl := Run.ok_unique hr ht
    obtain ⟨rest, rfl⟩ := hl
    have hmem : mem = pre ++ (l.bytes ++ (rest ++ post)) := by simp [mem]
    refine ⟨hend, ?_, ?_, by rw [har], by rw [har]⟩
    · rw [har, hmem]
      exact l.name_bytes pre _
    · rw [har, hmem]
      exact l.val_bytes pre _
  · intro ws hws hl
    obtain ⟨t, ht, -, hend, -⟩ := hblank ws hws hl
    rwa [Run.ok_unique hr ht]

/-- A header with an empty line behind it, read from the start of a buffer. -/
theorem parseHeaderLine_language_host :
    ∃ r, parseHeaderLine (str "Host: a\r\n\r\n") 0 11
        { freshArchive 0 with state := .hdBegin } = .ok r ∧
      r.code = OK ∧ r.ar.headerName.bytes (str "Host: a\r\n\r\n") = str "Host" := by
  let l : HeaderLine := ⟨[], str "Host", str " ", str "a", by simp, by decide, by decide +kernel,
    by decide +kernel, by decide +kernel, ⟨chr 'a', by decide, by decide⟩⟩
  have hl : l.bytes <+: str "Host: a\r\n\r\n" := ⟨str "\r\n", by decide +kernel⟩
  obtain ⟨r, hr, hok, -, hline, -⟩ := parseHeaderLine_language [] (str "Host: a\r\n\r\n") [] 0
    le_rfl { freshArchive 0 with state := .hdBegin } rfl rfl ⟨trivial, trivial⟩
  have hlen : (str "Host: a\r\n\r\n").length = 11 := by decide
  simp only [List.nil_append, List.append_nil, List.length_nil, hlen] at hr hline
  exact ⟨r, by simpa using hr, hok.2 ⟨l, hl⟩, (hline l hl).2.1⟩

/-! ## Bytes that end too early -/

/-- The answers of a call, and how its scan has ended for each. -/
theorem parseHeaderLine_cases (pre m post : List Byte) {msg : Nat} (hmsg : msg ≤ pre.length)
    {ar : ParseArchive} (hpos : ar.nextParsePos = some pre.length) {r : Parsed}
    (h : parseHeaderLine (pre ++ (m ++ post)) msg (pre.length - msg + m.length) ar = .ok r) :
    (r.code = AGAIN ∧ ∃ ar', scanList hdBody pre.length m ar = .next ar') ∨
    (r.code = INVALID_REQUEST ∧ ∃ x, scanList hdBody pre.length m ar = .stop x) ∨
    ((r.code = CRLF_LINE ∨ r.code = OK) ∧ ∃ x, scanList hdBody pre.length m ar = .stop x) := by
  rw [parseHeaderLine_eq pre m post hmsg hpos] at h
  cases hs : scanList hdBody pre.length m ar with
  | next ar' =>
    rw [hs] at h
    rw [← Except.ok.inj h]
    exact Or.inl ⟨rfl, _, rfl⟩
  | stop x =>
    rw [hs] at h
    cases x with
    | fault f => cases h
    | ret code ar' =>
      obtain rfl := hdScan_ret hs
      rw [← Except.ok.inj h]
      exact Or.inr (Or.inl ⟨rfl, _, rfl⟩)
    | done p ar' =>
      obtain ⟨b, hdone, rfl⟩ := Run.map_eq_ok.1 h
      unfold headerDone at hdone
      obtain ⟨name, -, hdone⟩ := Run.bind_eq_ok.1 hdone
      obtain ⟨val, -, hdone⟩ := Run.bind_eq_ok.1 hdone
      rw [← Except.ok.inj hdone]
      refine Or.inr (Or.inr ⟨?_, _, rfl⟩)
      show (if ar'.isCRLFLine then CRLF_LINE else OK) = CRLF_LINE ∨ _
      split_ifs
      · exact Or.inl rfl
      · exact Or.inr rfl

/-- The codes of `parse_header_line`. -/
theorem parseHeaderLine_code (pre m post : List Byte) {msg : Nat} (hmsg : msg ≤ pre.length)
    {ar : ParseArchive} (hpos : ar.nextParsePos = some pre.length) {r : Parsed}
    (h : parseHeaderLine (pre ++ (m ++ post)) msg (pre.length - msg + m.length) ar = .ok r) :
    r.code = AGAIN ∨ r.code = INVALID_REQUEST ∨ r.code = CRLF_LINE ∨ r.code = OK := by
  rcases parseHeaderLine_cases pre m post hmsg hpos h with ⟨hcode, -⟩ | ⟨hcode, -⟩ | ⟨hcode, -⟩
  · exact Or.inl hcode
  · exact Or.inr (Or.inl hcode)
  · exact Or.inr (Or.inr hcode)

/-- The parser stands at `p`, between two lines. -/
structure AtStart (p : Nat) (ar : ParseArchive) : Prop where
  nextParsePos : ar.nextParsePos = some p
  state : ar.state = .hdBegin
  marks : ar.MarksOk

/-- `parse_header_line` asks for more behind the bytes `w`. -/
def HeaderUnfinished (w : List Byte) : Prop :=
  (parseHeaderLine w 0 w.length { freshArchive 0 with state := .hdBegin }).map Parsed.code = .ok AGAIN

instance (w : List Byte) : Decidable (HeaderUnfinished w) := inferInstanceAs (Decidable (_ = _))

/-- Whether the machine goes on, and in which state, depends on its state alone. -/
theorem hdBody_state (p q : Nat) (ch : Byte) (ar ar' : ParseArchive) (h : ar.state = ar'.state) :
    (hdBody p ch ar).map ParseArchive.state (fun _ => ()) =
      (hdBody q ch ar').map ParseArchive.state (fun _ => ()) := by
  have hstay : (Flow.next ar.state : Flow ParserState Unit) = .next ar'.state := congrArg Flow.next h
  unfold hdBody
  rw [h]
  cases ar'.state
  all_goals
    simp only
    repeat' (first | exact hstay | rfl | split_ifs)

/-- A call asks for more when the machine goes on to the end. -/
theorem parseHeaderLine_again (pre m post : List Byte) {msg : Nat} (hmsg : msg ≤ pre.length)
    {ar : ParseArchive} (hpos : ar.nextParsePos = some pre.length) {r : Parsed}
    (hr : parseHeaderLine (pre ++ (m ++ post)) msg (pre.length - msg + m.length) ar = .ok r) :
    r.code = AGAIN ↔ ∃ st, (scanList hdBody pre.length m ar).map ParseArchive.state (fun _ => ()) =
      .next st := by
  rcases parseHeaderLine_cases pre m post hmsg hpos hr with
    ⟨hcode, ar', hs⟩ | ⟨hcode, x, hs⟩ | ⟨hcode, x, hs⟩
  · rw [hs]
    exact iff_of_true hcode ⟨_, rfl⟩
  · rw [hs, hcode]
    exact iff_of_false (by decide) (by simp)
  · rw [hs]
    refine iff_of_false ?_ (by simp)
    rcases hcode with hcode | hcode <;> rw [hcode] <;> decide

/-- **Where a line stands does not matter**: a call asks for more behind these bytes, or it does
not. -/
theorem parseHeaderLine_again_iff (pre m post : List Byte) {msg : Nat} (hmsg : msg ≤ pre.length)
    {ar : ParseArchive} (h : AtStart pre.length ar) {r : Parsed}
    (hr : parseHeaderLine (pre ++ (m ++ post)) msg (pre.length - msg + m.length) ar = .ok r) :
    r.code = AGAIN ↔ HeaderUnfinished m := by
  let fresh : ParseArchive := { freshArchive 0 with state := .hdBegin }
  obtain ⟨t, ht, -⟩ := parseHeaderLine_sound [] m [] (le_refl 0) (show fresh.nextParsePos = some 0 from rfl)
    rfl ⟨trivial, trivial⟩
  have hagain := parseHeaderLine_again [] m [] (le_refl 0) rfl ht
  have hsame : HeaderUnfinished m ↔ t.code = AGAIN := by
    unfold HeaderUnfinished
    rw [List.nil_append, List.append_nil, List.length_nil, Nat.zero_sub, Nat.zero_add] at ht
    rw [ht]
    exact ⟨Except.ok.inj, congrArg Except.ok⟩
  have hshow : (scanList hdBody pre.length m ar).map ParseArchive.state (fun _ => ()) =
      (scanList hdBody 0 m fresh).map ParseArchive.state (fun _ => ()) :=
    scanList_map_congr hdBody_state h.state
  rw [hsame, hagain, parseHeaderLine_again pre m post hmsg h.nextParsePos hr, hshow]
  rfl

/-! ## The order of the marks from call to call -/

/-- The positions the header machine records. -/
def ParseArchive.marks (ar : ParseArchive) : Option Nat × Option Nat × Option Nat × Option Nat :=
  (ar.headerLineBegin, ar.headerColonPos, ar.headerValBegin, ar.headerValEnd)

theorem marksOk_of_marks {ar ar' : ParseArchive} (h : ar'.marks = ar.marks) (hok : ar.MarksOk) :
    ar'.MarksOk := by
  simp only [ParseArchive.marks, Prod.mk.injEq] at h
  obtain ⟨h1, h2, h3, h4⟩ := h
  unfold ParseArchive.MarksOk
  rw [h1, h2, h3, h4]
  exact hok

/-- The result of a step agrees with the archive it began with in `f`. -/
def Keeps {α : Type} (f : ParseArchive → α) (ar : ParseArchive) : Flow ParseArchive Exit → Prop
  | .next ar' => f ar' = f ar
  | .stop (.ret _ ar') => f ar' = f ar
  | .stop (.done _ ar') => f ar' = f ar
  | .stop (.fault _) => True

/-- What every step of a machine keeps, a call of its line parser keeps. -/
theorem lineParser_keeps {α : Type} {f : ParseArchive → α}
    {body : Nat → Byte → ParseArchive → Flow ParseArchive Exit}
    {finish : ParseArchive → Except Fault (Int × ParseArchive)}
    (hbody : ∀ p ch ar, Keeps f ar (body p ch ar))
    (hpos : ∀ ar q st, f { ar with nextParsePos := q, state := st } = f ar)
    (hfinish : ∀ ar r, finish ar = .ok r → f r.2 = f ar)
    {mem : Mem} {msg len : Nat} {ar : ParseArchive} {r : Parsed}
    (h : lineParser body finish mem msg len ar = .ok r) : f r.ar = f ar := by
  unfold lineParser at h
  cases hnext : ar.nextParsePos with
  | none =>
    rw [hnext] at h
    cases h
  | some p0 =>
    rw [hnext] at h
    simp only at h
    have hstep : ∀ p s, f s = f ar → Keeps f ar (reading mem (.fault .outOfBounds) body p s) := by
      intro p s hs
      unfold reading
      split
      · next ch _ =>
        have := hbody p ch s
        revert this
        cases body p ch s with
        | next s' => exact fun h => h.trans hs
        | stop x => cases x <;> first | exact fun h => h.trans hs | exact fun h => h
      · trivial
    have hinv := @scan_invariant _ _ (reading mem (.fault .outOfBounds) body)
      (fun _ s => f s = f ar) (fun x => Keeps f ar (.stop x)) p0 (msg + len - p0) ar rfl
      (fun p s s' _ hI hs => by have := hstep p s hI; rwa [hs] at this)
      (fun p s x _ hI hs => by have := hstep p s hI; rwa [hs] at this)
    split at h
    · next ar' hs =>
      cases h
      exact (hpos ar' (some (msg + len)) ar'.state).trans (hinv.1 ar' hs)
    · next code ar' hs =>
      cases h
      exact hinv.2 _ hs
    · next p ar' hs =>
      obtain ⟨x, hx, hr⟩ := Run.bind_eq_ok.1 h
      cases hr
      exact (hfinish _ _ hx).trans ((hpos ar' _ _).trans (hinv.2 _ hs))
    · cases h

theorem rlMethodCase_marks (mem : Mem) (p : Nat) (ch : Byte) (ar : ParseArchive) :
    Keeps ParseArchive.marks ar (rlMethodCase mem p ch ar) := by
  unfold rlMethodCase
  split_ifs
  · rfl
  · cases ar.methodBegin with
    | none => trivial
    | some b => simp only; split_ifs <;> rfl
  · rfl

theorem rlUrlEnd_marks (mem : Mem) (p : Nat) (ub : Option Nat) (ar : ParseArchive) :
    Keeps ParseArchive.marks ar (rlUrlEnd mem p ub ar) := by
  cases ub with
  | none => trivial
  | some b =>
    simp only [rlUrlEnd, parseUrl]
    split_ifs
    · trivial
    · cases parseUrlFields mem b p ar.url with
      | error f => trivial
      | ok r => simp only [Except.map]; split_ifs <;> rfl

/-- The request-line machine does not touch the marks. -/
theorem rlBody_marks (mem : Mem) (p : Nat) (ch : Byte) (ar : ParseArchive) :
    Keeps ParseArchive.marks ar (rlBody mem p ch ar) := by
  unfold rlBody
  cases ar.state
  case rlBegin =>
    simp only
    split_ifs
    · exact rlMethodCase_marks mem p ch { ar with methodBegin := some p, state := .rlMethod }
    · rfl
  case rlMethod => exact rlMethodCase_marks mem p ch ar
  case rlUrl =>
    simp only
    split_ifs
    · exact rlUrlEnd_marks mem p ar.urlBegin { ar with state := .rlSpBeforeVersion }
    · rfl
    · rfl
  all_goals
    simp only [expectLetter]
    repeat' (first | rfl | split_ifs)

/-- **`parse_request_line` leaves the marks alone**, however it is called. -/
theorem parseRequestLine_marks {mem : Mem} {msg len : Nat} {ar : ParseArchive} {r : Parsed}
    (h : parseRequestLine mem msg len ar = .ok r) : r.ar.marks = ar.marks :=
  lineParser_keeps (rlBody_marks mem) (fun _ _ _ => rfl)
    (fun _ _ hr => by rw [← Except.ok.inj hr]) h

/-- **`parse_header_line` keeps the invariant** of the header machine from call to call, so
that an assert at `done:` never fails. -/
theorem parseHeaderLine_headerInv (pre m post : List Byte) {msg : Nat} (hmsg : msg ≤ pre.length)
    {ar : ParseArchive} (hpos : ar.nextParsePos = some pre.length)
    (hinv : HeaderInv pre.length ar) :
    ∃ r, parseHeaderLine (pre ++ (m ++ post)) msg (pre.length - msg + m.length) ar = .ok r ∧
      (r.code ≠ INVALID_REQUEST → ∃ q, r.ar.nextParsePos = some q ∧ HeaderInv q r.ar) := by
  obtain ⟨hnext, hstop⟩ := hdScan_inv (w := m) hinv
  rw [parseHeaderLine_eq pre m post hmsg hpos]
  cases hs : scanList hdBody pre.length m ar with
  | next ar' =>
    have h := hnext ar' hs
    exact ⟨_, rfl, fun _ => ⟨_, rfl, h.nameBegin, h.name, h.valBegin, h.val⟩⟩
  | stop x =>
    cases x with
    | fault f => exact (hstop _ hs).elim
    | ret code ar' =>
      obtain rfl := hdScan_ret hs
      exact ⟨_, rfl, fun h => absurd rfl h⟩
    | done p ar' =>
      have hmarks : ar'.MarksOk := hstop _ hs
      obtain ⟨name, val, -, -, hdone⟩ := headerDone_ok { ar' with
        nextParsePos := some (p + 1), state := .hdBegin } hmarks
      simp only
      rw [hdone]
      exact ⟨_, rfl, fun _ => ⟨p + 1, rfl, (headerInv_hdBegin rfl).2 hmarks⟩⟩

end MWebServer
