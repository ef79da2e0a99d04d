import MWebServer.Web.HttpParser

/-!
# Resumable parsing

The line parsers keep all of their state in the archive, so that a line may arrive
in any number of pieces.  `resume` calls a line parser on longer and longer
prefixes with the same archive, the way the comment on `next_parse_pos` has it,
and `resume_agrees` compares the outcome with one call on all of the bytes.

The argument does not look at the characters at all.  A step of either machine
neither reads nor writes `next_parse_pos` (`rlBody_setPos`, `hdBody_setPos`), so
that a scan interrupted by `AGAIN` is the same scan (`Scan.scan_add`).
-/

namespace MWebServer

open Scan

/-- Change the archive a loop is left with. -/
def Exit.mapAr (f : ParseArchive → ParseArchive) : Exit → Exit
  | .ret code ar => .ret code (f ar)
  | .done p ar => .done p (f ar)
  | .fault e => .fault e

/-! ## The steps do not touch `next_parse_pos` -/

theorem parseUrl_setPos (mem : Mem) (b e : Nat) (q : Option Nat) (ar : ParseArchive) :
    parseUrl mem b e (ar.setPos q) =
      (parseUrl mem b e ar).map fun r => (r.1, r.2.setPos q) := by
  unfold parseUrl
  split_ifs with h
  · rfl
  · rw [show (ar.setPos q).url = ar.url from rfl]
    cases parseUrlFields mem b e ar.url <;> rfl

theorem rlMethodCase_setPos (mem : Mem) (p : Nat) (ch : Byte) (q : Option Nat)
    (ar : ParseArchive) :
    rlMethodCase mem p ch (ar.setPos q) =
      (rlMethodCase mem p ch ar).map (·.setPos q) (·.mapAr (·.setPos q)) := by
  have hm : (ar.setPos q).methodBegin = ar.methodBegin := rfl
  unfold rlMethodCase
  rw [hm]
  split_ifs with h1 h2
  · rfl
  · cases ar.methodBegin with
    | none => rfl
    | some b => simp only; split_ifs <;> rfl
  · rfl

theorem rlUrlEnd_setPos (mem : Mem) (p : Nat) (ub q : Option Nat) (ar : ParseArchive) :
    rlUrlEnd mem p ub (ar.setPos q) =
      (rlUrlEnd mem p ub ar).map (·.setPos q) (·.mapAr (·.setPos q)) := by
  cases ub with
  | none => rfl
  | some b =>
    simp only [rlUrlEnd, parseUrl_setPos]
    cases parseUrl mem b p ar with
    | error f => rfl
    | ok r => simp only [Except.map]; split_ifs <;> rfl

theorem rlBody_setPos (mem : Mem) (p : Nat) (ch : Byte) (q : Option Nat) (ar : ParseArchive) :
    rlBody mem p ch (ar.setPos q) =
      (rlBody mem p ch ar).map (·.setPos q) (·.mapAr (·.setPos q)) := by
  have hst : (ar.setPos q).state = ar.state := rfl
  have hv : (ar.setPos q).version = ar.version := rfl
  unfold rlBody
  rw [hst]
  cases ar.state
  case rlBegin =>
    simp only
    split_ifs with h
    · exact rlMethodCase_setPos mem p ch q { ar with methodBegin := some p, state := .rlMethod }
    · rfl
  case rlMethod => exact rlMethodCase_setPos mem p ch q ar
  case rlUrl =>
    simp only
    split_ifs with h1 h2
    · exact rlUrlEnd_setPos mem p ar.urlBegin q { ar with state := .rlSpBeforeVersion }
    · rfl
    · rfl
  all_goals
    simp only [expectLetter, hv]
    repeat' (first | rfl | split_ifs)

theorem hdBody_setPos (p : Nat) (ch : Byte) (q : Option Nat) (ar : ParseArchive) :
    hdBody p ch (ar.setPos q) =
      (hdBody p ch ar).map (·.setPos q) (·.mapAr (·.setPos q)) := by
  have hst : (ar.setPos q).state = ar.state := rfl
  unfold hdBody
  rw [hst]
  cases ar.state
  all_goals
    simp only
    repeat' (first | rfl | split_ifs)

/-! ## A line is refused with one code only -/

/-- The loop does not `return` anything but `INVALID_REQUEST`. -/
def Exit.RetInvalid : Exit → Prop
  | .ret code _ => code = INVALID_REQUEST
  | _ => True

/-- The loop of `parse_url` does not `return` anything but `ERROR`. -/
def UrlExit.RetError : UrlExit → Prop
  | .ret code _ => code = ERROR
  | _ => True

theorem urlBody_retError {mem : Mem} {p : Nat} {s : UrlScan} {x : UrlExit}
    (h : reading mem (.fault .outOfBounds) urlBody p s = .stop x) : x.RetError := by
  unfold reading at h
  split at h
  · unfold urlBody at h
    split at h
    all_goals
      try split_ifs at h
      all_goals cases h
      all_goals first | rfl | trivial
  · cases h
    trivial

/-- `parse_url` returns `OK` or `ERROR`. -/
theorem parseUrlFields_code {mem : Mem} {b e : Nat} {url : ReqUrl} {r : Int × ReqUrl}
    (h : parseUrlFields mem b e url = .ok r) : r.1 = OK ∨ r.1 = ERROR := by
  have hret : ∀ x, scan (reading mem (.fault .outOfBounds) urlBody) b (e + 1 - b)
      ⟨.urlBegin, b, url⟩ = .stop x → x.RetError :=
    (scan_invariant (I := fun _ _ => True) trivial (fun _ _ _ _ _ _ => trivial)
      (fun _ _ _ _ _ hx => urlBody_retError hx)).2
  unfold parseUrlFields at h
  split at h
  · next code u hs =>
    cases h
    exact Or.inr (hret _ hs)
  · cases h
  · next u _ =>
    cases hp : parseExtension mem u <;> rw [hp] at h <;> cases h
    exact Or.inl rfl
  · next s _ =>
    cases hp : parseExtension mem s.url <;> rw [hp] at h <;> cases h
    exact Or.inl rfl

theorem rlMethodCase_retInvalid {mem : Mem} {p : Nat} {ch : Byte} {ar : ParseArchive} {x : Exit}
    (h : rlMethodCase mem p ch ar = .stop x) : x.RetInvalid := by
  unfold rlMethodCase at h
  split_ifs at h
  · split at h
    · cases h
      trivial
    · simp only at h
      split_ifs at h
      cases h
      rfl
  · cases h
    rfl

theorem rlUrlEnd_retInvalid {mem : Mem} {p : Nat} {ub : Option Nat} {ar : ParseArchive} {x : Exit}
    (h : rlUrlEnd mem p ub ar = .stop x) : x.RetInvalid := by
  cases ub with
  | none =>
    cases h
    trivial
  | some b =>
    unfold rlUrlEnd parseUrl at h
    simp only at h
    split_ifs at h
    · cases h
      trivial
    · cases hf : parseUrlFields mem b p ar.url with
      | error f =>
        rw [hf] at h
        cases h
        trivial
      | ok r =>
        rw [hf] at h
        simp only [Except.map] at h
        split_ifs at h with hne
        cases h
        exact (parseUrlFields_code hf).resolve_left hne

theorem rlBody_retInvalid {mem : Mem} {p : Nat} {ch : Byte} {ar : ParseArchive} {x : Exit}
    (h : rlBody mem p ch ar = .stop x) : x.RetInvalid := by
  unfold rlBody at h
  cases hst : ar.state <;> rw [hst] at h
  case rlBegin =>
    simp only at h
    split_ifs at h
    · exact rlMethodCase_retInvalid h
    · cases h
      rfl
  case rlMethod => exact rlMethodCase_retInvalid h
  case rlUrl =>
    simp only at h
    split_ifs at h
    · exact rlUrlEnd_retInvalid h
    · cases h
      rfl
  all_goals
    simp only [expectLetter] at h
    try split_ifs at h
    all_goals cases h
    all_goals first | rfl | trivial

theorem hdBody_retInvalid {p : Nat} {ch : Byte} {ar : ParseArchive} {x : Exit}
    (h : hdBody p ch ar = .stop x) : x.RetInvalid := by
  unfold hdBody at h
  cases hst : ar.state <;> rw [hst] at h
  all_goals
    simp only at h
    try split_ifs at h
    all_goals cases h
    all_goals first | rfl | trivial

/-! ## One call or many -/

/-- Calls of a line parser on longer and longer prefixes (given by the successive values of
`*len`) with the same archive, until one of them answers something other than `AGAIN`. -/
def resume (parse : Nat → ParseArchive → Except Fault Parsed) :
    Nat → List Nat → ParseArchive → Except Fault Parsed
  | len, [], ar => parse len ar
  | len, len' :: lens, ar => do
      let r ← parse len ar
      if r.code = AGAIN then resume parse len' lens r.ar else pure r

/-- Two outcomes that agree: the same code, and the same `*len` and archive, except that a
refused line may leave another `next_parse_pos` behind. -/
def Agree : Except Fault Parsed → Except Fault Parsed → Prop
  | .ok r, .ok t =>
      r.code = t.code ∧
        if r.code = INVALID_REQUEST then t.ar = r.ar.setPos t.ar.nextParsePos else t = r
  | .error f, .error g => f = g
  | _, _ => False

theorem Agree.refl (x : Except Fault Parsed) : Agree x x := by
  cases x with
  | error f => rfl
  | ok r =>
    refine ⟨rfl, ?_⟩
    split_ifs <;> rfl

theorem Agree.trans {x y z : Except Fault Parsed} (hxy : Agree x y) (hyz : Agree y z) :
    Agree x z := by
  cases x with
  | error f =>
    cases y with
    | ok t => exact hxy.elim
    | error g =>
      cases z with
      | ok u => exact hyz.elim
      | error h => exact Eq.trans hxy hyz
  | ok r =>
    cases y with
    | error g => exact hxy.elim
    | ok t =>
      cases z with
      | error h => exact hyz.elim
      | ok u =>
        obtain ⟨hc, hr⟩ := hxy
        obtain ⟨hc', ht⟩ := hyz
        refine ⟨hc.trans hc', ?_⟩
        rw [← hc] at ht
        split_ifs at hr ht ⊢
        · rw [ht, hr]
          rfl
        · rw [ht, hr]

section LineParser

variable {body : Nat → Byte → ParseArchive → Flow ParseArchive Exit}
  {finish : ParseArchive → Except Fault (Int × ParseArchive)}

/-- What resuming needs of a line parser: its step ignores `next_parse_pos` and refuses with
one code, and its last step never answers `AGAIN`. -/
structure Resumable (body : Nat → Byte → ParseArchive → Flow ParseArchive Exit)
    (finish : ParseArchive → Except Fault (Int × ParseArchive)) : Prop where
  setPos : ∀ p ch q ar, body p ch (ar.setPos q) = (body p ch ar).map (·.setPos q) (·.mapAr (·.setPos q))
  invalid : ∀ p ch ar x, body p ch ar = .stop x → x.RetInvalid
  finished : ∀ ar r, finish ar = .ok r → r.1 = OK ∨ r.1 = CRLF_LINE

theorem Resumable.scan_setPos (h : Resumable body finish) (mem : Mem) (q : Option Nat) (p n : Nat)
    (ar : ParseArchive) :
    scan (reading mem (.fault .outOfBounds) body) p n (ar.setPos q) =
      (scan (reading mem (.fault .outOfBounds) body) p n ar).map (·.setPos q)
        (·.mapAr (·.setPos q)) := by
  refine scan_map _ _ ?_ p n ar
  intro p ar
  unfold reading
  split
  · exact h.setPos _ _ _ _
  · rfl

theorem Resumable.scan_invalid (h : Resumable body finish) {mem : Mem} {p n : Nat}
    {ar : ParseArchive} {x : Exit}
    (hs : scan (reading mem (.fault .outOfBounds) body) p n ar = .stop x) : x.RetInvalid := by
  refine (scan_invariant (I := fun _ _ => True) trivial (fun _ _ _ _ _ _ => trivial) ?_).2 x hs
  intro p ar x _ _ hx
  unfold reading at hx
  split at hx
  · exact h.invalid _ _ _ _ hx
  · cases hx
    trivial

/-- Giving up at an earlier end and taking up again from there makes no difference. -/
theorem Resumable.agree_step (h : Resumable body finish) (mem : Mem) {msg p0 len len' : Nat}
    (hp0 : p0 ≤ msg + len) (hlen : len ≤ len') {ar ar' : ParseArchive}
    (hpos : ar.nextParsePos = some p0)
    (hnext : scan (reading mem (.fault .outOfBounds) body) p0 (msg + len - p0) ar = .next ar') :
    Agree (lineParser body finish mem msg len' (ar'.setPos (some (msg + len))))
      (lineParser body finish mem msg len' ar) := by
  have hsplit : scan (reading mem (.fault .outOfBounds) body) p0 (msg + len' - p0) ar =
      scan (reading mem (.fault .outOfBounds) body) (msg + len) (len' - len) ar' := by
    rw [show msg + len' - p0 = (msg + len - p0) + (len' - len) by omega, scan_add, hnext,
      Flow.andThen_next, show p0 + (msg + len - p0) = msg + len by omega]
  have hrest := h.scan_setPos mem (some (msg + len)) (msg + len) (len' - len) ar'
  unfold lineParser
  rw [hpos, ParseArchive.setPos_nextParsePos]
  simp only
  rw [hsplit, show msg + len' - (msg + len) = len' - len by omega, hrest]
  cases hx : scan (reading mem (.fault .outOfBounds) body) (msg + len) (len' - len) ar' with
  | next ar'' => exact Agree.refl _
  | stop x =>
    cases x with
    | ret code ar'' =>
      have hcode : code = INVALID_REQUEST := h.scan_invalid hx
      refine ⟨rfl, ?_⟩
      rw [if_pos hcode]
      rfl
    | done p ar'' => exact Agree.refl _
    | fault f => rfl

/-- A call that does not answer `AGAIN` answers the same on any longer prefix. -/
theorem Resumable.agree_stop (h : Resumable body finish) (mem : Mem) {msg p0 len len' : Nat}
    (hp0 : p0 ≤ msg + len) (hlen : len ≤ len') {ar : ParseArchive} {x : Exit}
    (hpos : ar.nextParsePos = some p0)
    (hstop : scan (reading mem (.fault .outOfBounds) body) p0 (msg + len - p0) ar = .stop x) :
    Agree (lineParser body finish mem msg len ar) (lineParser body finish mem msg len' ar) ∧
      ∀ r, lineParser body finish mem msg len ar = .ok r → r.code ≠ AGAIN := by
  have hlonger : scan (reading mem (.fault .outOfBounds) body) p0 (msg + len' - p0) ar = .stop x := by
    rw [show msg + len' - p0 = (msg + len - p0) + (len' - len) by omega, scan_add, hstop,
      Flow.andThen_stop]
  unfold lineParser
  rw [hpos]
  simp only
  rw [hstop, hlonger]
  cases x with
  | ret code ar' =>
    have hcode : code = INVALID_REQUEST := h.scan_invalid hstop
    subst hcode
    refine ⟨⟨rfl, rfl⟩, ?_⟩
    intro r hr
    cases hr
    show INVALID_REQUEST ≠ AGAIN
    decide
  | done p ar' =>
    refine ⟨Agree.refl _, ?_⟩
    intro r hr
    obtain ⟨t, ht, hr⟩ := Run.bind_eq_ok.1 hr
    cases hr
    rcases h.finished _ t ht with hc | hc
    all_goals
      simp only [hc]
      decide
  | fault f =>
    refine ⟨rfl, ?_⟩
    intro r hr
    cases hr

/-- **However a line arrives, the outcome agrees with that of one call.** -/
theorem Resumable.resume_lineParser (h : Resumable body finish) (mem : Mem) (msg : Nat) :
    ∀ (lens : List Nat) (len last p0 : Nat) (ar : ParseArchive), ar.nextParsePos = some p0 →
      p0 ≤ msg + len → (len :: lens).Pairwise (· < ·) → (len :: lens).getLast? = some last →
      Agree (resume (lineParser body finish mem msg) len lens ar)
        (lineParser body finish mem msg last ar) := by
  intro lens
  induction lens with
  | nil =>
    intro len last p0 ar _ _ _ hlast
    cases hlast
    exact Agree.refl _
  | cons len' lens ih =>
    intro len last p0 ar hpos hp0 hinc hlast
    have hinc' : (len' :: lens).Pairwise (· < ·) := (List.pairwise_cons.1 hinc).2
    have hlast' : (len' :: lens).getLast? = some last := by simpa using hlast
    have hlt : len < len' := (List.pairwise_cons.1 hinc).1 len' (by simp)
    have hle : len ≤ last :=
      ((List.pairwise_cons.1 hinc).1 last (List.mem_of_getLast? hlast')).le
    cases hs : scan (reading mem (.fault .outOfBounds) body) p0 (msg + len - p0) ar with
    | next ar' =>
      have hcall : lineParser body finish mem msg len ar =
          .ok ⟨AGAIN, len, ar'.setPos (some (msg + len))⟩ := by
        unfold lineParser
        rw [hpos]
        simp only
        rw [hs]
        rfl
      rw [resume, hcall, Run.ok_bind]
      simp only [if_true]
      exact (ih len' last (msg + len) _ rfl (by omega) hinc' hlast').trans
        (h.agree_step mem hp0 hle hpos hs)
    | stop x =>
      obtain ⟨hagree, hcode⟩ := h.agree_stop mem hp0 hle hpos hs
      cases hcall : lineParser body finish mem msg len ar with
      | error f =>
        rw [hcall] at hagree
        rw [resume, hcall, Run.error_bind]
        exact hagree
      | ok r =>
        rw [hcall] at hagree
        rw [resume, hcall, Run.ok_bind, if_neg (hcode r hcall)]
        exact hagree

end LineParser

theorem rl_resumable (mem : Mem) : Resumable (rlBody mem) (fun ar => .ok (OK, ar)) where
  setPos := rlBody_setPos mem
  invalid := fun _ _ _ _ h => rlBody_retInvalid h
  finished := by
    intro ar r hr
    cases hr
    exact Or.inl rfl

theorem hd_resumable : Resumable hdBody headerDone where
  setPos := hdBody_setPos
  invalid := fun _ _ _ _ h => hdBody_retInvalid h
  finished := by
    intro ar r hr
    obtain ⟨name, -, hr⟩ := Run.bind_eq_ok.1 hr
    obtain ⟨val, -, hr⟩ := Run.bind_eq_ok.1 hr
    cases hr
    cases ar.isCRLFLine <;> simp

/-- **Resumable parsing agrees with one-shot parsing.**  The bytes `m` stand in the buffer
from `next_parse_pos` on, and the calls see the prefixes of `m` of lengths `k`, `ks`, the
last of which is all of `m`. -/
theorem resume_agrees (pre m post : List Byte) (msg : Nat) (hmsg : msg ≤ pre.length)
    (ar : ParseArchive) (hpos : ar.nextParsePos = some pre.length) (k : Nat) (ks : List Nat)
    (hinc : (k :: ks).Pairwise (· < ·)) (hlast : (k :: ks).getLast? = some m.length) :
    let mem := pre ++ (m ++ post)
    let len := fun k => pre.length - msg + k
    Agree (resume (parseRequestLine mem msg) (len k) (ks.map len) ar)
        (parseRequestLine mem msg (len m.length) ar) ∧
      Agree (resume (parseHeaderLine mem msg) (len k) (ks.map len) ar)
        (parseHeaderLine mem msg (len m.length) ar) := by
  intro mem len
  have hlens : (len k :: ks.map len).Pairwise (· < ·) := by
    rw [← List.map_cons, List.pairwise_map]
    exact hinc.imp fun h => Nat.add_lt_add_left h _
  have hend : (len k :: ks.map len).getLast? = some (len m.length) := by
    rw [← List.map_cons, List.getLast?_map, hlast]
    rfl
  have hp0 : pre.length ≤ msg + len k := by
    show pre.length ≤ msg + (pre.length - msg + k)
    omega
  exact ⟨(rl_resumable mem).resume_lineParser mem msg _ _ _ _ ar hpos hp0 hlens hend,
    hd_resumable.resume_lineParser mem msg _ _ _ _ ar hpos hp0 hlens hend⟩

/-- A request line cut in the middle of its version. -/
theorem resume_agrees_cut :
    let m := str "GET / HTTP/1.1\r\n"
    Agree (resume (parseRequestLine m 0) 11 [16] (parseArchiveInit.setPos (some 0)))
        (parseRequestLine m 0 16 (parseArchiveInit.setPos (some 0))) ∧
      Agree (resume (parseHeaderLine m 0) 11 [16] (parseArchiveInit.setPos (some 0)))
        (parseHeaderLine m 0 16 (parseArchiveInit.setPos (some 0))) := by
  have hlen : (str "GET / HTTP/1.1\r\n").length = 16 := by decide
  have h := resume_agrees [] (str "GET / HTTP/1.1\r\n") [] 0 (by decide)
    (parseArchiveInit.setPos (some 0)) rfl 11 [16] (by decide) (by decide)
  rw [hlen] at h
  simpa using h

end MWebServer
