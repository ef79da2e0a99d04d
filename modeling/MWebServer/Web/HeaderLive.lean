import MWebServer.Web.HeaderLine

/-!
# Where the header machine is stuck

`S_HD_VAL` answers a line feed with a state that has no case in the `switch`: a value
that is ended by a bare line feed leads the machine there, and from then on every byte
is swallowed.  `BareFrom` says which bytes lead there from which state
(`hdScan_stuck_iff`); from every other state two carriage returns are refused
(`hdScan_refused`).

A parser that is fed is called again and again on longer and longer bytes (`Fed`);
`answers_iff` is about all of its runs.
-/

namespace MWebServer

open Scan

/-! ## Bytes that lead there -/

/-- Behind elements of the kind `P` comes one that is as `Q` says. -/
def Past {β : Type} (P : β → Bool) (Q : β → List β → Prop) (w : List β) : Prop :=
  ∃ xs y ys, w = xs ++ y :: ys ∧ (∀ x ∈ xs, P x = true) ∧ Q y ys

section Past

variable {β : Type} {P : β → Bool} {Q : β → List β → Prop}

theorem not_past_nil : ¬ Past P Q [] := by
  rintro ⟨xs, y, ys, h, -⟩
  simp at h

theorem past_cons {c : β} {w : List β} :
    Past P Q (c :: w) ↔ Q c w ∨ (P c = true ∧ Past P Q w) := by
  constructor
  · rintro ⟨xs, y, ys, h, hxs, hQ⟩
    cases xs with
    | nil =>
      obtain ⟨rfl, rfl⟩ := List.cons.inj h
      exact Or.inl hQ
    | cons x xs =>
      obtain ⟨rfl, rfl⟩ := List.cons.inj h
      exact Or.inr ⟨hxs c (by simp), xs, y, ys, rfl, fun z hz => hxs z (by simp [hz]), hQ⟩
  · rintro (hQ | ⟨hc, xs, y, ys, rfl, hxs, hQ⟩)
    · exact ⟨[], c, w, rfl, by simp, hQ⟩
    · exact ⟨c :: xs, y, ys, rfl, by simpa [hc] using hxs, hQ⟩

end Past

/-- The rest of a value that is ended by a bare line feed. -/
def BareVal : List Byte → Prop := Past (fun c => !isNewline c) fun c _ => c = chr '\n'

/-- Blanks, and such a value behind them. -/
def BareGap : List Byte → Prop :=
  Past isBlank fun c w => isBlank c = false ∧ isNewline c = false ∧ BareVal w

/-- The rest of a name, its colon, and such a value. -/
def BareName : List Byte → Prop := Past isHeaderNameChar fun c w => c = chr ':' ∧ BareGap w

/-- A header line with such a value. -/
def BareLine : List Byte → Prop :=
  Past isBlank fun c w => isHeaderNameChar c = true ∧ BareName w

/-- From the state `st` on, the bytes lead to a bare line feed at the end of a value. -/
def BareFrom : ParserState → List Byte → Prop
  | .hdBegin => BareLine
  | .hdName => BareName
  | .hdColon | .hdSpBeforeVal => BareGap
  | .hdVal => BareVal
  | .hdLfAfterVal => fun _ => True
  | _ => fun _ => False

/-- A header line, but for the carriage return. -/
theorem bareLine_iff {w : List Byte} : BareLine w ↔ ∃ (l : HeaderLine) (rest : List Byte),
    w = l.lead ++ (l.name ++ chr ':' :: (l.gap ++ (l.val ++ chr '\n' :: rest))) := by
  constructor
  · rintro ⟨lead, c, w1, rfl, hlead, hc, n, d, w2, rfl, hn, rfl, gap, v, w3, rfl, hgap, hv, hv', vs, e,
      rest, rfl, hvs, rfl⟩
    refine ⟨⟨lead, c :: n, gap, v :: vs, hlead, by simp, ?_, hgap, ?_, ⟨v, rfl, hv⟩⟩, rest, by simp⟩
    · intro x hx
      rcases List.mem_cons.1 hx with rfl | hx
      · exact hc
      · exact hn x hx
    · intro x hx
      rcases List.mem_cons.1 hx with rfl | hx
      · exact hv'
      · simpa using hvs x hx
  · rintro ⟨l, rest, rfl⟩
    obtain ⟨c, n, hname⟩ := List.exists_cons_of_ne_nil l.name_ne
    obtain ⟨v, hhead, hv⟩ := l.val_head
    obtain ⟨vs, hval⟩ : ∃ vs, l.val = v :: vs := List.head?_eq_some_iff.1 hhead
    have hnames := l.name_chars
    have hvals := l.val_chars
    rw [hname] at hnames ⊢
    rw [hval] at hvals ⊢
    exact ⟨l.lead, c, _, rfl, l.lead_blank, hnames c (by simp), n, chr ':', _, rfl,
      fun x hx => hnames x (by simp [hx]), rfl, l.gap, v, _, rfl, l.gap_blank, hv, hvals v (by simp),
      vs, chr '\n', rest, rfl, fun x hx => by simpa using hvals x (by simp [hx]), rfl⟩

/-! ## The machine -/

/-- One byte on the way. -/
theorem bareFrom_cons {p : Nat} {c : Byte} {w : List Byte} {ar : ParseArchive} :
    BareFrom ar.state (c :: w) ↔ ∃ ar', hdBody p c ar = .next ar' ∧ BareFrom ar'.state w := by
  have hnewline : isNewline c = true ↔ c = chr '\r' ∨ c = chr '\n' := isNewline_iff
  cases hst : ar.state
  case hdBegin =>
    have hname := @not_blank_of_isHeaderNameChar c
    simp only [BareFrom, BareLine, past_cons, hdBody, hst]
    by_cases h1 : isHeaderNameChar c = true
    · simp [h1, hname h1]
    · by_cases h2 : c = chr '\r'
      · subst h2
        have hblank : isBlank (chr '\r') = false := by decide
        simp [h1, hblank]
      · by_cases h3 : isBlank c = true
        · simp [h1, h2, h3, hst]
        · simp [h1, h2, h3]
  case hdName =>
    simp only [BareFrom, BareName, past_cons, hdBody, hst]
    by_cases h1 : isHeaderNameChar c = true
    · simp [h1, (not_blank_of_isHeaderNameChar h1).2, hst]
    · by_cases h2 : c = chr ':'
      · subst h2
        simp [h1]
      · simp [h1, h2]
  case hdVal =>
    simp only [BareFrom, BareVal, past_cons, hdBody, hst]
    have hne : chr '\r' ≠ chr '\n' := by decide
    by_cases h1 : c = chr '\r'
    · subst h1
      simp [hne, hnewline.2 (Or.inl rfl)]
    · by_cases h2 : c = chr '\n'
      · subst h2
        simp [hne.symm]
      · have h3 : isNewline c = false := by simpa using fun h => (hnewline.1 h).elim h1 h2
        simp [h1, h2, h3, hst]
  case hdCrAfterVal =>
    by_cases h1 : c = chr '\n' <;> simp [BareFrom, hdBody, hst, h1]
  case hdColon | hdSpBeforeVal =>
    simp only [BareFrom, BareGap, past_cons, hdBody, hst]
    by_cases h1 : isBlank c = true
    · simp [h1, hst]
    · by_cases h2 : isNewline c = true
      · simp [h1, h2]
      · simp [h1, h2]
  all_goals simp [BareFrom, hdBody, hst]

/-- **Which bytes lead to the dead state.** -/
theorem hdScan_stuck_iff {p : Nat} {w : List Byte} {ar : ParseArchive} :
    (∃ ar', scanList hdBody p w ar = .next ar' ∧ ar'.state = .hdLfAfterVal) ↔
      BareFrom ar.state w := by
  induction w generalizing p ar with
  | nil =>
    have hnil : BareFrom ar.state [] ↔ ar.state = .hdLfAfterVal := by
      cases ar.state <;> simp [BareFrom, BareLine, BareName, BareGap, BareVal, not_past_nil]
    rw [hnil]
    constructor
    · rintro ⟨ar', h, hst⟩
      rwa [Flow.next.inj h]
    · intro hst
      exact ⟨ar, rfl, hst⟩
  | cons c w ih =>
    rw [bareFrom_cons (p := p), scanList_cons]
    cases hdBody p c ar with
    | stop x => simp
    | next ar' => simp [ih]

/-- The header states that have a case in the `switch`. -/
def ParserState.liveHeader : ParserState → Bool
  | .hdBegin | .hdName | .hdColon | .hdSpBeforeVal | .hdVal | .hdCrAfterVal => true
  | _ => false

/-- How a step that begins in such a state may end; it does not move `next_parse_pos`. -/
def LiveStep (p : Nat) (pos : Option Nat) : Flow ParseArchive Exit → Prop
  | .next ar' =>
      (ar'.state.liveHeader = true ∨ ar'.state = .hdLfAfterVal) ∧ ar'.nextParsePos = pos
  | .stop (.ret _ ar') => ar'.state.liveHeader = true ∧ ar'.nextParsePos = pos
  | .stop (.done q _) => q = p
  | .stop (.fault _) => False

theorem hdBody_live {p : Nat} {c : Byte} {ar : ParseArchive}
    (h : ar.state.liveHeader = true ∨ ar.state = .hdLfAfterVal) :
    LiveStep p ar.nextParsePos (hdBody p c ar) := by
  unfold hdBody
  cases hst : ar.state
  case hdLfAfterVal => exact ⟨Or.inr hst, rfl⟩
  all_goals
    simp only [hst] at h
    first
    | exact absurd h (by decide)
    | simp only
      split_ifs <;> simp [LiveStep, hst, ParserState.liveHeader]

/-- What a scan from a live state leaves. -/
theorem hdScan_live {p : Nat} {w : List Byte} {ar : ParseArchive}
    (h : ar.state.liveHeader = true) :
    (∀ ar', scanList hdBody p w ar = .next ar' →
      ar'.state.liveHeader = true ∨ ar'.state = .hdLfAfterVal) ∧
    (∀ code ar', scanList hdBody p w ar = .stop (.ret code ar') →
      ar'.state.liveHeader = true ∧ ar'.nextParsePos = ar.nextParsePos) ∧
    ∀ r ar', scanList hdBody p w ar = .stop (.done r ar') → r < p + w.length := by
  have hscan := @scanList_invariant _ _ _ hdBody
    (fun _ s => (s.state.liveHeader = true ∨ s.state = .hdLfAfterVal) ∧
      s.nextParsePos = ar.nextParsePos)
    (fun x => (∀ code ar', x = .ret code ar' →
      ar'.state.liveHeader = true ∧ ar'.nextParsePos = ar.nextParsePos) ∧
      ∀ r ar', x = .done r ar' → r < p + w.length) p w ar ⟨Or.inl h, rfl⟩
    (fun r c s s' _ hI hs => by
      have hstep := @hdBody_live r c s hI.1
      rw [hs, hI.2] at hstep
      exact hstep)
    (fun r c s x hr hI hs => by
      have hstep := @hdBody_live r c s hI.1
      rw [hs, hI.2] at hstep
      refine ⟨?_, ?_⟩
      · rintro code ar' rfl
        exact hstep
      · rintro r' ar' rfl
        obtain rfl : r' = r := hstep
        exact hr)
  exact ⟨fun ar' hs => (hscan.1 ar' hs).1, fun code ar' hs => (hscan.2 _ hs).1 code ar' rfl,
    fun r ar' hs => (hscan.2 _ hs).2 r ar' rfl⟩

/-- Two carriage returns are refused, whichever of these states they are read in. -/
theorem hdScan_refused {p : Nat} {ar : ParseArchive} (h : ar.state.liveHeader = true) :
    ∃ ar', scanList hdBody p [chr '\r', chr '\r'] ar = .stop (.ret INVALID_REQUEST ar') := by
  have hname : isHeaderNameChar (chr '\r') = false := by decide
  have hblank : isBlank (chr '\r') = false := by decide
  have hnewline : isNewline (chr '\r') = true := by decide
  have hcolon : chr '\r' ≠ chr ':' := by decide
  have hlf : chr '\r' ≠ chr '\n' := by decide
  cases hst : ar.state
  all_goals
    first
    | exact absurd h (by rw [hst]; decide)
    | simp [scanList_cons, hdBody, hst, hname, hblank, hnewline, hcolon, hlf]

/-- What the end of a line leaves. -/
theorem headerDone_eq {ar : ParseArchive} {r : Int × ParseArchive} (h : headerDone ar = .ok r) :
    (r.1 = OK ∨ r.1 = CRLF_LINE) ∧ r.2.state = ar.state ∧ r.2.nextParsePos = ar.nextParsePos := by
  unfold headerDone at h
  obtain ⟨name, -, h⟩ := Run.bind_eq_ok.1 h
  obtain ⟨val, -, h⟩ := Run.bind_eq_ok.1 h
  rw [← Except.ok.inj h]
  refine ⟨?_, rfl, rfl⟩
  cases ar.isCRLFLine <;> simp

/-! ## A parser that is fed -/

/-- A parser that is called again and again on the bytes that have come so far. -/
structure Fed where
  /-- The bytes it has been given. -/
  seen : List Byte
  /-- What its latest call answered. -/
  code : Int
  ar : ParseArchive

namespace Fed

/-- The next call, on `chunk` more bytes. -/
def call (parse : Mem → Nat → Nat → ParseArchive → Except Fault Parsed) (s : Fed)
    (chunk : List Byte) : Except Fault Fed := do
  let r ← parse (s.seen ++ chunk) 0 (s.seen ++ chunk).length s.ar
  pure ⟨s.seen ++ chunk, r.code, r.ar⟩

/-- A call of `parse_header_line`. -/
def feedHeader : Fed → List Byte → Except Fault Fed := call parseHeaderLine

/-- The bytes a call has before it. -/
def unread (s : Fed) (chunk : List Byte) : List Byte :=
  (s.seen ++ chunk).drop (s.ar.nextParsePos.getD 0)

/-- After `AGAIN`, some bytes are answered by something else. -/
def Answers (s : Fed) : Prop :=
  s.code = AGAIN → ∃ x t, s.feedHeader x = .ok t ∧
    (t.code = OK ∨ t.code = CRLF_LINE ∨ t.code = INVALID_REQUEST)

/-- The parser stands inside the bytes it has been given, and at their end after `AGAIN`. -/
def Placed (s : Fed) : Prop :=
  ∃ q, s.ar.nextParsePos = some q ∧ q ≤ s.seen.length ∧ (s.code = AGAIN → q = s.seen.length)

variable {s s' : Fed} {chunk : List Byte} {q : Nat}

/-- A call of a line parser is a scan of the bytes before it. -/
theorem call_eq {body : Nat → Byte → ParseArchive → Flow ParseArchive Exit}
    {finish : ParseArchive → Except Fault (Int × ParseArchive)}
    {parse : Mem → Nat → Nat → ParseArchive → Except Fault Parsed}
    (hparse : parse (s.seen ++ chunk) = lineParser body finish (s.seen ++ chunk))
    (hpos : s.ar.nextParsePos = some q) (hq : q ≤ s.seen.length) :
    s.call parse chunk = match scanList body q (s.unread chunk) s.ar with
      | .next ar => .ok ⟨s.seen ++ chunk, AGAIN, ar.setPos (some (s.seen ++ chunk).length)⟩
      | .stop (.ret code ar) => .ok ⟨s.seen ++ chunk, code, ar⟩
      | .stop (.done p ar) =>
          (finish { ar with nextParsePos := some (p + 1), state := .hdBegin }).map
            fun r => ⟨s.seen ++ chunk, r.1, r.2⟩
      | .stop (.fault f) => .error f := by
  have hpre : ((s.seen ++ chunk).take q).length = q := by simp; omega
  have hlen : q + ((s.seen ++ chunk).drop q).length = (s.seen ++ chunk).length := by simp; omega
  have hcall := lineParser_eq body finish ((s.seen ++ chunk).take q) ((s.seen ++ chunk).drop q) []
    (Nat.zero_le _) (show s.ar.nextParsePos = some _ by rw [hpos, hpre])
  rw [List.append_nil, List.take_append_drop, hpre, Nat.sub_zero, hlen] at hcall
  unfold call unread
  rw [hparse, hcall, hpos, Option.getD_some]
  cases scanList body q ((s.seen ++ chunk).drop q) s.ar with
  | next ar => rfl
  | stop x =>
    cases x with
    | ret code ar => rfl
    | fault f => rfl
    | done p ar =>
      simp only
      cases finish { ar with nextParsePos := some (p + 1), state := .hdBegin } <;> rfl

theorem length_unread (hpos : s.ar.nextParsePos = some q) (hq : q ≤ s.seen.length)
    (chunk : List Byte) :
    q + (s.unread chunk).length = (s.seen ++ chunk).length := by
  rw [unread, hpos, Option.getD_some, List.length_drop, List.length_append]
  omega

/-- A call of `parse_header_line` is a scan of the bytes before it. -/
theorem feedHeader_eq (hpos : s.ar.nextParsePos = some q) (hq : q ≤ s.seen.length)
    (chunk : List Byte) :
    s.feedHeader chunk = match scanList hdBody q (s.unread chunk) s.ar with
      | .next ar => .ok ⟨s.seen ++ chunk, AGAIN, ar.setPos (some (s.seen ++ chunk).length)⟩
      | .stop (.ret code ar) => .ok ⟨s.seen ++ chunk, code, ar⟩
      | .stop (.done p ar) =>
          (headerDone { ar with nextParsePos := some (p + 1), state := .hdBegin }).map
            fun r => ⟨s.seen ++ chunk, r.1, r.2⟩
      | .stop (.fault f) => .error f :=
  call_eq rfl hpos hq

/-- A call that does not get stuck leaves the parser in a live state. -/
theorem feedHeader_live (hlive : s.ar.state.liveHeader = true) (hplaced : s.Placed)
    (hbare : ¬ BareFrom s.ar.state (s.unread chunk)) (h : s.feedHeader chunk = .ok s') :
    s'.ar.state.liveHeader = true ∧ s'.Placed := by
  obtain ⟨q, hpos, hq, -⟩ := hplaced
  have hunread := length_unread hpos hq chunk
  obtain ⟨hnext, hret, hdone⟩ := @hdScan_live q (s.unread chunk) s.ar hlive
  rw [feedHeader_eq hpos hq] at h
  cases hs : scanList hdBody q (s.unread chunk) s.ar with
  | next ar =>
    rw [hs] at h
    rw [← Except.ok.inj h]
    have hnot : ar.state ≠ .hdLfAfterVal := fun hst => hbare (hdScan_stuck_iff.1 ⟨ar, hs, hst⟩)
    exact ⟨(hnext ar hs).resolve_right hnot, _, rfl, le_rfl, fun _ => rfl⟩
  | stop x =>
    rw [hs] at h
    cases x with
    | fault f => cases h
    | ret code ar =>
      obtain ⟨hst, hsame⟩ := hret code ar hs
      obtain rfl := hdScan_ret hs
      rw [← Except.ok.inj h]
      refine ⟨hst, q, hsame.trans hpos, ?_, fun hcode => ?_⟩
      · rw [List.length_append]
        omega
      · exact absurd (show INVALID_REQUEST = AGAIN from hcode) (by decide)
    | done p ar =>
      obtain ⟨r, hr, rfl⟩ := Run.map_eq_ok.1 h
      have hp := hdone p ar hs
      obtain ⟨hcode, har⟩ := headerDone_eq hr
      refine ⟨by rw [har.1]; rfl, p + 1, har.2, ?_, fun hagain => ?_⟩
      · show p + 1 ≤ (s.seen ++ chunk).length
        omega
      · exact absurd (hcode.imp (fun h => h.symm.trans hagain) fun h => h.symm.trans hagain)
          (by decide)

/-- A call that meets such a value is stuck. -/
theorem feedHeader_bare (hplaced : s.Placed) (hbare : BareFrom s.ar.state (s.unread chunk)) :
    ∃ s', s.feedHeader chunk = .ok s' ∧ s'.code = AGAIN ∧ s'.ar.state = .hdLfAfterVal ∧
      s'.ar.nextParsePos = some s'.seen.length := by
  obtain ⟨q, hpos, hq, -⟩ := hplaced
  obtain ⟨ar, hs, hst⟩ := hdScan_stuck_iff (p := q).2 hbare
  rw [feedHeader_eq hpos hq, hs]
  exact ⟨_, rfl, rfl, hst, rfl⟩

/-- **From the dead state, every call answers `AGAIN`.** -/
theorem not_answers (hcode : s.code = AGAIN) (hst : s.ar.state = .hdLfAfterVal)
    (hpos : s.ar.nextParsePos = some s.seen.length) : ¬ s.Answers := by
  intro h
  obtain ⟨x, t, ht, hother⟩ := h hcode
  obtain ⟨s', hs', hagain, -⟩ := @feedHeader_bare s x ⟨_, hpos, le_rfl, fun _ => rfl⟩
    (by rw [hst]; trivial)
  rw [Run.ok_unique ht hs', hagain] at hother
  exact absurd hother (by decide)

/-- From a live state, some call answers. -/
theorem answers_of_live (hlive : s.ar.state.liveHeader = true) (hplaced : s.Placed) : s.Answers := by
  intro hcode
  obtain ⟨q, hpos, hq, hend⟩ := hplaced
  have hunread : s.unread [chr '\r', chr '\r'] = [chr '\r', chr '\r'] := by
    rw [unread, hpos, Option.getD_some, hend hcode, List.drop_left]
  obtain ⟨ar, hs⟩ := @hdScan_refused q s.ar hlive
  refine ⟨[chr '\r', chr '\r'], ⟨s.seen ++ [chr '\r', chr '\r'], INVALID_REQUEST, ar⟩, ?_,
    Or.inr (Or.inr rfl)⟩
  rw [feedHeader_eq hpos hq, hunread, hs]

/-- **The header parser answers in the end, in every run of calls from a fresh header section,
exactly when no call meets a value that a bare line feed ends.** -/
theorem answers_iff (fresh : Fed) (hcode : fresh.code = OK) (hst : fresh.ar.state = .hdBegin)
    (q : Nat) (hpos : fresh.ar.nextParsePos = some q) (hq : q ≤ fresh.seen.length)
    (chunks : List (List Byte)) :
    Run.Always feedHeader Answers fresh chunks ↔
      Run.Meets feedHeader (fun s chunk => ¬ BareFrom s.ar.state (s.unread chunk)) fresh chunks := by
  refine Run.always_iff_meets (I := fun s => s.ar.state.liveHeader = true ∧ s.Placed)
    (fun s h => answers_of_live h.1 h.2) (fun s chunk s' h hbare hs => ?_)
    (fun s chunk h hbare => ?_) ⟨by rw [hst]; rfl, q, hpos, hq, fun h => ?_⟩ chunks
  · exact feedHeader_live h.1 h.2 hbare hs
  · obtain ⟨s', hs', hagain, hdead, hend⟩ := feedHeader_bare h.2 (not_not.1 hbare)
    exact ⟨s', hs', not_answers hagain hdead hend⟩
  · exact absurd (hcode.symm.trans h) (by decide)

/-- A header section that begins with its first byte. -/
def freshHeaders : Fed := ⟨[], OK, { freshArchive 0 with state := .hdBegin }⟩

/-- A header line, cut in its value. -/
theorem answers_iff_host : Run.Always feedHeader Answers freshHeaders [str "Host: a", str "b\r\n"] := by
  refine (answers_iff freshHeaders rfl rfl 0 rfl le_rfl _).2 ⟨fun h => ?_, fun s hs => ⟨fun h => ?_, ?_⟩⟩
  · obtain ⟨ar, hscan, hdead⟩ := hdScan_stuck_iff (p := 0).2 h
    obtain rfl := Flow.next.inj hscan
    cases hdead
  · obtain rfl := Except.ok.inj hs
    obtain ⟨ar, hscan, -⟩ := hdScan_stuck_iff (p := 0).2 h
    cases hscan
  · intro s' hs'
    trivial

/-- **A bare line feed behind a value**: whatever is sent after it, the parser asks for more. -/
theorem not_always_answers : ¬ ∀ (fresh : Fed), fresh.code = OK → fresh.ar.state = .hdBegin →
    fresh.ar.nextParsePos = some fresh.seen.length → ∀ chunks,
      Run.Always feedHeader Answers fresh chunks := by
  intro h
  have hbare : BareFrom freshHeaders.ar.state (freshHeaders.unread (str "A:b\n")) :=
    bareLine_iff.2 ⟨⟨[], str "A", [], str "b", by simp, by decide, by decide +kernel, by simp,
      by decide +kernel, chr 'b', rfl, rfl⟩, [], rfl⟩
  obtain ⟨s, hs, hagain, hdead, hend⟩ :=
    @feedHeader_bare freshHeaders _ ⟨0, rfl, le_rfl, fun _ => rfl⟩ hbare
  have halways := h freshHeaders rfl rfl rfl [str "A:b\n"]
  exact not_answers hagain hdead hend
    ((Run.always_nil s).1 (((Run.always_cons _ _ _).1 halways).2 s hs))

end Fed

end MWebServer
