import MWebServer.Web.BodyCount

/-!
# The value of `Content-Length`

`request_handle_hd_content_length` hands the beginning of the value to `atoi`, which
knows nothing of its length: it skips white space, carriage returns and line feeds
included, reads a number with a sign and stops at the first other byte.  `strtol` ends
at the largest and smallest `long`, and the conversion to `int` keeps 32 bits.  Not even
the end of the block stops it: a block that holds nothing but white space from the value
on, or a number up to its end, is read beyond its end.

* `leadingNumber` — what `strtol` reads, as a sign and a number.
* `atoi_pos_iff` — when `atoi` is positive.
* `StopsInside`, `leadingNumber_append` — when what lies beyond the block does not matter.
* `readsExactly_iff` — the values whose length is read as it should be.
-/

namespace MWebServer

/-! ## `atoi` -/

/-- The number at the beginning of a string, behind white space and a sign. -/
def leadingNumber (s : List Byte) : Bool × Nat :=
  match s.dropWhile isSpace with
  | [] => (false, 0)
  | c :: cs =>
      if c = chr '-' then (true, leadingNat 0 cs)
      else if c = chr '+' then (false, leadingNat 0 cs)
      else (false, leadingNat 0 (c :: cs))

theorem strtol_eq (s : List Byte) : strtol s =
    if (leadingNumber s).1 then max (-((leadingNumber s).2 : Int)) (-2 ^ 63)
    else min ((leadingNumber s).2 : Int) (2 ^ 63 - 1) := by
  unfold strtol leadingNumber
  cases s.dropWhile isSpace with
  | nil => rfl
  | cons c cs =>
    by_cases hminus : c = chr '-'
    · simp only [if_pos hminus, if_true]
    · by_cases hplus : c = chr '+'
      · simp only [if_neg hminus, if_pos hplus, Bool.false_eq_true, if_false]
      · simp only [if_neg hminus, if_neg hplus, Bool.false_eq_true, if_false]

/-- A number that fits a `long`, and whose 32 low bits, with its sign, are a positive `int`. -/
def WrapsPositive (number : Bool × Nat) : Prop :=
  number.2 < 2 ^ 63 ∧
    if number.1 then 2 ^ 31 < number.2 % 2 ^ 32
    else 0 < number.2 % 2 ^ 32 ∧ number.2 % 2 ^ 32 < 2 ^ 31

instance (number : Bool × Nat) : Decidable (WrapsPositive number) := by
  unfold WrapsPositive
  infer_instance

theorem toInt_pos_iff (x : Int) : 0 < toInt x ↔ 0 < x % 2 ^ 32 ∧ x % 2 ^ 32 < 2 ^ 31 := by
  unfold toInt Int.bmod
  simp only
  split_ifs <;> omega

/-- **When `atoi` is positive.** -/
theorem atoi_pos_iff (s : List Byte) : 0 < atoi s ↔ WrapsPositive (leadingNumber s) := by
  unfold atoi WrapsPositive
  rw [toInt_pos_iff, strtol_eq]
  generalize leadingNumber s = number
  obtain ⟨neg, n⟩ := number
  cases neg with
  | false =>
    simp only [Bool.false_eq_true, if_false]
    omega
  | true =>
    simp only [if_true]
    omega

/-! ## The end of the block -/

/-- `strtol` stops inside `s`: behind white space and a sign, something is no digit. -/
def StopsInside (s : List Byte) : Prop :=
  match s.dropWhile isSpace with
  | [] => False
  | c :: cs => ∃ d ∈ if c = chr '-' ∨ c = chr '+' then cs else c :: cs, isDigit d = false

instance (s : List Byte) : Decidable (StopsInside s) := by
  unfold StopsInside
  split
  · exact instDecidableFalse
  · infer_instance

theorem leadingNat_append {s : List Byte} (h : ∃ d ∈ s, isDigit d = false) (x : List Byte)
    (acc : Nat) : leadingNat acc (s ++ x) = leadingNat acc s := by
  induction s generalizing acc with
  | nil =>
    obtain ⟨d, hd, -⟩ := h
    cases hd
  | cons c cs ih =>
    simp only [List.cons_append, leadingNat]
    split_ifs with hc
    · -- the byte that stops it comes later
      obtain ⟨d, hd, hdigit⟩ := h
      rcases List.mem_cons.1 hd with rfl | hd
      · exact Bool.noConfusion (hc.symm.trans hdigit)
      · exact ih ⟨d, hd, hdigit⟩ _
    · rfl

/-- **What follows does not matter** to a read that stops before it. -/
theorem leadingNumber_append {s : List Byte} (h : StopsInside s) (x : List Byte) :
    leadingNumber (s ++ x) = leadingNumber s := by
  unfold StopsInside at h
  unfold leadingNumber
  rw [List.dropWhile_append]
  cases hs : s.dropWhile isSpace with
  | nil =>
    rw [hs] at h
    exact h.elim
  | cons c cs =>
    rw [hs] at h
    simp only [List.isEmpty_cons, Bool.false_eq_true, if_false, List.cons_append]
    by_cases hsign : c = chr '-' ∨ c = chr '+'
    · simp only [if_pos hsign] at h
      rw [leadingNat_append h]
      rcases hsign with rfl | rfl
      · simp
      · simp
    · simp only [if_neg hsign] at h
      obtain ⟨hminus, hplus⟩ := not_or.1 hsign
      have hall : leadingNat 0 (c :: (cs ++ x)) = leadingNat 0 (c :: cs) := leadingNat_append h x 0
      simp only [if_neg hminus, if_neg hplus, hall]

/-! ## Numerals -/

theorem leadingNat_digits {ds : List Byte} (hds : ∀ d ∈ ds, isDigit d = true) {c : Byte}
    (hc : isDigit c = false) (rest : List Byte) (acc : Nat) :
    (leadingNat acc (ds ++ c :: rest) : Int) = decimalFrom acc ds := by
  induction ds generalizing acc with
  | nil => simp [leadingNat, hc, decimalFrom]
  | cons d ds ih =>
    have hd := hds d (by simp)
    have hbounds := digitVal_bounds hd
    have hval : ((acc * 10 + (d.toNat - 48) : Nat) : Int) = acc * 10 + digitVal d := by
      unfold digitVal at hbounds ⊢
      omega
    rw [List.cons_append, leadingNat, if_pos hd, ih fun x hx => hds x (by simp [hx]), hval]
    rfl

/-- The value is a decimal numeral. -/
def Numeral (val : List Byte) (n : Int) : Prop :=
  (∀ d ∈ val, isDigit d = true) ∧ decimal val = n

instance (val : List Byte) (n : Int) : Decidable (Numeral val n) :=
  inferInstanceAs (Decidable (_ ∧ _))

/-- A digit is neither white space nor a sign. -/
theorem not_space_of_isDigit : ∀ {c : Byte}, isDigit c = true →
    isSpace c = false ∧ c ≠ chr '-' ∧ c ≠ chr '+' :=
  fun {c} => forall_byte (P := fun c => isDigit c = true →
    isSpace c = false ∧ c ≠ chr '-' ∧ c ≠ chr '+') (by decide +kernel) c

/-- What is read from a numeral that a carriage return ends. -/
theorem leadingNumber_numeral {val : List Byte} {n : Int} (hne : val ≠ []) (h : Numeral val n)
    (rest : List Byte) : (leadingNumber (val ++ (crlf ++ rest))).1 = false ∧
      ((leadingNumber (val ++ (crlf ++ rest))).2 : Int) = n := by
  obtain ⟨c, cs, rfl⟩ := List.exists_cons_of_ne_nil hne
  obtain ⟨hspace, hminus, hplus⟩ := not_space_of_isDigit (h.1 c (by simp))
  have hdrop : (c :: cs ++ (crlf ++ rest)).dropWhile isSpace =
      c :: (cs ++ (crlf ++ rest)) := by
    rw [List.cons_append, List.dropWhile_cons_of_neg (by simp [hspace])]
  have hdigits := leadingNat_digits h.1 (c := chr '\r') (by decide) (chr '\n' :: rest) 0
  unfold leadingNumber
  rw [hdrop]
  simp only [if_neg hminus, if_neg hplus, true_and]
  exact hdigits.trans h.2

/-- A numeral is read inside the block: its line has an end. -/
theorem stopsInside_numeral {val : List Byte} {n : Int} (hne : val ≠ []) (h : Numeral val n)
    (rest : List Byte) : StopsInside (val ++ (crlf ++ rest)) := by
  obtain ⟨c, cs, rfl⟩ := List.exists_cons_of_ne_nil hne
  obtain ⟨hspace, hminus, hplus⟩ := not_space_of_isDigit (h.1 c (by simp))
  unfold StopsInside
  rw [List.cons_append, List.dropWhile_cons_of_neg (by simp [hspace])]
  simp only [if_neg (not_or.2 ⟨hminus, hplus⟩)]
  exact ⟨chr '\r', by simp [crlf], by decide⟩

/-! ## The handler -/

/-- What `request_handle_hd_content_length` computes from the text the value begins. -/
theorem requestHandleHdContentLength_eq {beyond : List Byte} {mem : Mem} {hf : HeaderFunc}
    (hmem : hf ∈ hfList) (hfunc : hf.func = .contentLength) {ar : ParseArchive} {off len : Nat}
    (hval : ar.headerVal = .slice off len) :
    requestHandleHdContentLength beyond mem hf ar =
      .ok (if WrapsPositive (leadingNumber (mem.drop off ++ beyond)) then
        (OK, { requestHandleHdBase hf ar with contentLength := atoi (mem.drop off ++ beyond) })
      else (400, requestHandleHdBase hf ar)) := by
  have hslot : (requestHandleHdBase hf ar).reqHeaders .contentLength = .slice off len := by
    rw [← (hfList_offset hf hmem).2.2.1 hfunc]
    simp [requestHandleHdBase, hval]
  simp only [requestHandleHdContentLength, hslot, Ssstr.slice, CharPtr.tail, Run.ok_bind,
    ← atoi_pos_iff]
  by_cases hpos : 0 < atoi (mem.drop off ++ beyond)
  · rw [if_neg (by omega), if_pos hpos]
    rfl
  · rw [if_pos (by omega), if_neg hpos]
    rfl

/-- A length that is announced, and that an `int` holds. -/
def Announces (val : List Byte) (n : Int) : Prop := Numeral val n ∧ 0 < n ∧ n ≤ intMax

/-- The value is read exactly, and inside its block: it is stored if it is the numeral of a positive
`int`, and refused with nothing stored if it is anything else, whatever lies beyond the block. -/
structure ReadsExactly (mem : Mem) (hf : HeaderFunc) (ar : ParseArchive) (val : List Byte) : Prop where
  inside : ∀ s, ar.headerVal.str.tail mem = .ok s → StopsInside s
  stored : ∀ beyond n, (∃ ar', requestHandleHdContentLength beyond mem hf ar = .ok (OK, ar') ∧
    ar'.contentLength = n) ↔ Announces val n
  refused : ∀ beyond, (∀ n, ¬ Announces val n) → ∃ ar',
    requestHandleHdContentLength beyond mem hf ar = .ok (400, ar') ∧
      ar'.contentLength = ar.contentLength

/-- A numeral of an `int` is read as it is. -/
theorem atoi_numeral {val rest : List Byte} {n : Int} (hne : val ≠ []) (h : Numeral val n)
    (hn : n ≤ intMax) : atoi (val ++ (crlf ++ rest)) = n := by
  obtain ⟨hneg, hval⟩ := leadingNumber_numeral hne h rest
  have h0 : 0 ≤ n := by omega
  unfold atoi
  rw [strtol_eq, hneg, hval]
  simp only [Bool.false_eq_true, if_false]
  rw [min_eq_left (by unfold intMax at hn; omega)]
  exact toInt_of_le h0 hn

/-- **The length is read exactly** if and only if the whole value is a numeral of at most
`INT_MAX`, or `atoi` stops before the end of the block, at a number that, as it takes it, is not
positive. -/
theorem readsExactly_iff {hf : HeaderFunc} (hmem : hf ∈ hfList) (hfunc : hf.func = .contentLength)
    (l : HeaderLine) (pre rest : List Byte) {ar : ParseArchive}
    (hval : ar.headerVal = .slice pre.length l.val.length) :
    ReadsExactly (pre ++ (l.val ++ (crlf ++ rest))) hf ar l.val ↔
      (∃ n, Numeral l.val n ∧ n ≤ intMax) ∨
        (StopsInside (l.val ++ (crlf ++ rest)) ∧
          ¬ WrapsPositive (leadingNumber (l.val ++ (crlf ++ rest)))) := by
  have hne : l.val ≠ [] := by
    obtain ⟨c, hc, -⟩ := l.val_head
    rintro hnil
    rw [hnil] at hc
    cases hc
  have htail : ar.headerVal.str.tail (pre ++ (l.val ++ (crlf ++ rest))) =
      .ok (l.val ++ (crlf ++ rest)) := by
    rw [hval]
    exact congrArg Except.ok (@List.drop_left _ pre _)
  have hcall : ∀ beyond, StopsInside (l.val ++ (crlf ++ rest)) →
      requestHandleHdContentLength beyond (pre ++ (l.val ++ (crlf ++ rest))) hf ar =
        .ok (if WrapsPositive (leadingNumber (l.val ++ (crlf ++ rest))) then
          (OK, { requestHandleHdBase hf ar with
            contentLength := atoi (l.val ++ (crlf ++ rest) ++ beyond) })
        else (400, requestHandleHdBase hf ar)) := by
    intro beyond hstops
    rw [requestHandleHdContentLength_eq hmem hfunc hval, List.drop_left, leadingNumber_append hstops]
  have hbad : ¬ (400 : Int) = OK := by decide
  constructor
  · intro h
    have hstops := h.inside _ htail
    by_contra hcon
    obtain ⟨hbig, hwraps⟩ := not_or.1 hcon
    have hstored := hcall [] hstops
    rw [if_pos (not_not.1 fun hno => hwraps ⟨hstops, hno⟩)] at hstored
    obtain ⟨hnum, -, hle⟩ := (h.stored [] _).1 ⟨_, hstored, rfl⟩
    exact hbig ⟨_, hnum, hle⟩
  · intro hor
    have hstops : StopsInside (l.val ++ (crlf ++ rest)) := by
      rcases hor with ⟨n, hnum, -⟩ | ⟨hstops, -⟩
      · exact stopsInside_numeral hne hnum rest
      · exact hstops
    have hinside : ∀ s, ar.headerVal.str.tail (pre ++ (l.val ++ (crlf ++ rest))) = .ok s →
        StopsInside s := by
      intro s hs
      rwa [← Except.ok.inj (htail.symm.trans hs)]
    by_cases hwraps : WrapsPositive (leadingNumber (l.val ++ (crlf ++ rest)))
    · -- the value is the numeral of an `int`, and positive
      obtain ⟨n, hnum, hle⟩ := hor.resolve_right fun h => h.2 hwraps
      have hpos : 0 < n := (@atoi_numeral _ rest _ hne hnum hle) ▸ (atoi_pos_iff _).2 hwraps
      have hread : ∀ beyond, atoi (l.val ++ (crlf ++ rest) ++ beyond) = n := by
        intro beyond
        rw [List.append_assoc, List.append_assoc]
        exact atoi_numeral hne hnum hle
      simp only [hread, if_pos hwraps] at hcall
      refine ⟨hinside, fun beyond k => ?_, fun _ hnone => absurd ⟨hnum, hpos, hle⟩ (hnone n)⟩
      constructor
      · rintro ⟨ar', hok, hk⟩
        obtain rfl : _ = ar' := congrArg Prod.snd (Run.ok_unique (hcall beyond hstops) hok)
        obtain rfl : n = k := hk
        exact ⟨hnum, hpos, hle⟩
      · rintro ⟨hk, -, -⟩
        exact ⟨_, hcall beyond hstops, hnum.2.symm.trans hk.2⟩
    · simp only [if_neg hwraps] at hcall
      have hnone : ∀ n, ¬ Announces l.val n := by
        rintro n ⟨hnum, hpos, hle⟩
        exact hwraps ((atoi_pos_iff _).1 (by rw [atoi_numeral hne hnum hle]; exact hpos))
      refine ⟨hinside, fun beyond n => iff_of_false ?_ (hnone n),
        fun beyond _ => ⟨_, hcall beyond hstops, rfl⟩⟩
      rintro ⟨ar', hok, -⟩
      exact hbad (congrArg Prod.fst (Run.ok_unique (hcall beyond hstops) hok))

/-- `Content-Length: 5` -/
theorem readsExactly_five : ∃ ar, ReadsExactly (str "5\r\n\r\n")
    ⟨"content-length", .contentLength, .contentLength⟩ ar (str "5") :=
  ⟨{ parseArchiveInit with headerVal := .slice 0 1 },
    (readsExactly_iff (by decide +kernel) rfl HeaderLine.contentLengthFive [] (str "\r\n") rfl).2
      (Or.inl ⟨5, by decide +kernel, by decide⟩)⟩

/-- `Content-Length: 5x` -/
def HeaderLine.contentLengthFiveX : HeaderLine :=
  { HeaderLine.contentLengthFive with
    val := str "5x"
    val_chars := by decide +kernel
    val_head := ⟨chr '5', rfl, by decide⟩ }

/-- **A value that goes on behind its digits** is taken for them. -/
theorem not_readsExactly : ¬ ∀ (l : HeaderLine) (pre rest : List Byte) (hf : HeaderFunc)
    (ar : ParseArchive), hf ∈ hfList → hf.func = .contentLength →
      ar.headerVal = .slice pre.length l.val.length →
      ReadsExactly (pre ++ (l.val ++ (crlf ++ rest))) hf ar l.val := by
  intro h
  have hmem : (⟨"content-length", .contentLength, .contentLength⟩ : HeaderFunc) ∈ hfList := by
    decide +kernel
  have hexact := h HeaderLine.contentLengthFiveX [] (str "\r\n") _
    { parseArchiveInit with headerVal := .slice 0 2 } hmem rfl rfl
  have hcall := @requestHandleHdContentLength_eq [] (str "5x\r\n\r\n") _ hmem rfl
    { parseArchiveInit with headerVal := .slice 0 2 } 0 2 rfl
  rw [if_pos (by decide +kernel)] at hcall
  obtain ⟨⟨hdigits, -⟩, -⟩ := (hexact.stored [] _).1 ⟨_, hcall, rfl⟩
  exact absurd (hdigits (chr 'x') (by decide +kernel)) (by decide)

end MWebServer
