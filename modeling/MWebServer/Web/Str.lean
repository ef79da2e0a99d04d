import MWebServer.Lib.ThreeWay
import MWebServer.Base

/-!
# Static strings (`web/str.c`, `web/str.h`)

An `ssstr` is a pointer and a length; it copies nothing.  The pointer leads into
the read buffer (`CharPtr.buf`), to a string literal (`CharPtr.lit`) or nowhere
(`CharPtr.null`), so that what an `ssstr` stands for depends on the contents of
the buffer at the moment it is read.

`ssstr_cmp` is the three-way comparison of a linear order (`cmp_eq_answer`): the unset
string comes first, and the others stand in the lexicographic order of their bytes as
signed characters (`rank`).  The shortcuts of the source over equal pointers and its
tie break over the lengths are no more than this order.
-/

namespace MWebServer

/-- A `char *` held in an `ssstr`. -/
inductive CharPtr where
  | null
  /-- An offset into the block of the read buffer. -/
  | buf (off : Nat)
  /-- The first byte of a string literal. -/
  | lit (s : List Byte)
  deriving DecidableEq, Repr

/-- The bytes from a pointer to the end of its block, the `NUL` of a literal included. -/
def CharPtr.tail (mem : Mem) : CharPtr → Except Fault (List Byte)
  | .null => .error .nullDeref
  | .buf off => .ok (mem.drop off)
  | .lit s => .ok (s ++ [0])

/-- `ssstr`. -/
structure Ssstr where
  str : CharPtr
  len : Int
  deriving DecidableEq, Repr

namespace Ssstr

/-- `ssstr_init`: the unset string. -/
def init : Ssstr := ⟨.null, 0⟩

/-- `SSSTR(cstr)` and `ssstr_set(s, cstr)` for a literal. -/
def ofLit (s : String) : Ssstr := ⟨.lit (MWebServer.str s), (MWebServer.str s).length⟩

/-- A slice of the read buffer. -/
def slice (off len : Nat) : Ssstr := ⟨.buf off, len⟩

/-- The bytes an `ssstr` denotes. -/
def bytes (mem : Mem) (s : Ssstr) : List Byte :=
  match s.str with
  | .null => []
  | .buf off => (mem.drop off).take s.len.toNat
  | .lit l => l.take s.len.toNat

/-- `ssstr_tolower`: lower-cases the bytes of a slice in place. -/
def tolower (mem : Mem) (s : Ssstr) : Except Fault Mem :=
  match s.str with
  | .buf off => memcpy mem off ((s.bytes mem).map toLower)
  | .null => if s.len ≤ 0 then .ok mem else .error .nullDeref
  | .lit _ => if s.len ≤ 0 then .ok mem else .error .outOfBounds

/-- The loop of `ssstr_cmp` over the common length; `none` when it runs to its end. -/
def cmpLoop : List Byte → List Byte → Option Int
  | a :: l, b :: r =>
      if signedChar a < signedChar b then some (-1)
      else if signedChar a > signedChar b then some 1
      else cmpLoop l r
  | _, _ => none

/-- `ssstr_cmp`; the test `l == r` is subsumed by the comparison of the two fields. -/
def cmp (mem : Mem) (l r : Ssstr) : Int :=
  if l.str = r.str ∧ l.len = r.len then 0
  else if l.str = .null then -1
  else if r.str = .null then 1
  else
    match cmpLoop (l.bytes mem) (r.bytes mem) with
    | some d => d
    | none => if r.len = l.len then 0 else if l.len < r.len then -1 else 1

end Ssstr

/-- `strncasecmp`, on the bytes that follow its two pointers. -/
def strncasecmp : List Byte → List Byte → Nat → Except Fault Int
  | _, _, 0 => .ok 0
  | a :: l, b :: r, n + 1 =>
      if toLower a ≠ toLower b then .ok ((toLower a).toNat - (toLower b).toNat)
      else if a = 0 then .ok 0
      else strncasecmp l r n
  | _, _, _ => .error .outOfBounds

/-- `ssstr_caseequal(s, cstr)`. -/
def Ssstr.caseequal (mem : Mem) (s : Ssstr) (cstr : List Byte) : Except Fault Bool := do
  let tail ← s.str.tail mem
  let d ← strncasecmp tail (cstr ++ [0]) cstr.length
  pure (d = 0)

/-! ## What the operations compute -/

theorem signedChar_injective {a b : Byte} (h : signedChar a = signedChar b) : a = b := by
  unfold signedChar at h
  have h8 : a.toInt8 = b.toInt8 := Int8.toInt_inj.1 h
  simpa using congrArg Int8.toUInt8 h8

namespace Ssstr

open ThreeWay

@[simp] theorem bytes_slice (mem : Mem) (off len : Nat) :
    (slice off len).bytes mem = (mem.drop off).take len := by
  simp [slice, bytes]

@[simp] theorem bytes_ofLit (mem : Mem) (s : String) : (ofLit s).bytes mem = MWebServer.str s := by
  simp [ofLit, bytes]

/-- A slice is well placed when it is unset or lies inside the buffer. -/
def InRange (mem : Mem) (s : Ssstr) : Prop :=
  match s.str with
  | .null => s.len = 0
  | .buf off => 0 ≤ s.len ∧ off + s.len ≤ mem.length
  | .lit l => s.len = l.length

theorem length_bytes {mem : Mem} {s : Ssstr} (h : s.InRange mem) : (s.bytes mem).length = s.len := by
  cases s with
  | mk p n =>
    cases p with
    | null => simpa [InRange, bytes] using h.symm
    | buf off =>
      obtain ⟨h0, h1⟩ := h
      simp only [bytes, List.length_take, List.length_drop]
      simp only at h0 h1
      omega
    | lit l =>
      simp only [InRange] at h
      simp [bytes, h]

/-- A slice of the buffer ends at `e` at the latest. -/
def Within (e : Nat) (s : Ssstr) : Prop :=
  match s.str with
  | .buf off => off + s.len.toNat ≤ e
  | _ => True

/-- What stands behind a slice is not read. -/
theorem Within.bytes_append {mem : Mem} {s : Ssstr} (h : s.Within mem.length) (x : List Byte) :
    s.bytes (mem ++ x) = s.bytes mem := by
  cases s with
  | mk p n =>
    cases p with
    | null => rfl
    | buf off =>
      simp only [Within] at h
      simp only [bytes]
      rw [List.drop_append_of_le_length (by omega), List.take_append_of_le_length (by simp; omega)]
    | lit l => rfl

/-- A comparison depends on the memory through the bytes of the two strings only. -/
theorem cmp_congr {mem mem' : Mem} {l r : Ssstr} (hl : l.bytes mem = l.bytes mem')
    (hr : r.bytes mem = r.bytes mem') : cmp mem l r = cmp mem' l r := by
  unfold cmp
  rw [hl, hr]

/-! ## The order of strings -/

/-- The bytes of a slice are all there; at `NULL` there are none. -/
def Readable (mem : Mem) (s : Ssstr) : Prop := ((s.bytes mem).length : Int) = s.len

instance (mem : Mem) (s : Ssstr) : Decidable (s.Readable mem) :=
  inferInstanceAs (Decidable (_ = _))

theorem Readable.len_of_null {mem : Mem} {s : Ssstr} (h : s.Readable mem) (hs : s.str = .null) :
    s.len = 0 := by
  rw [← h, bytes, hs]
  rfl

/-- The place of a string: the unset one comes first, the others are ordered by their bytes. -/
def rank (mem : Mem) (s : Ssstr) : WithBot (List Int) :=
  if s.str = .null then ⊥ else ((s.bytes mem).map signedChar : List Int)

theorem rank_null {mem : Mem} {s : Ssstr} (hs : s.str = .null) : s.rank mem = ⊥ :=
  if_pos hs

theorem rank_of_ne_null {mem : Mem} {s : Ssstr} (hs : s.str ≠ .null) :
    s.rank mem = ((s.bytes mem).map signedChar : List Int) :=
  if_neg hs

/-- Strings of one place are both unset, or hold the same bytes. -/
theorem rank_inj {mem : Mem} {l r : Ssstr} : l.rank mem = r.rank mem ↔
    (l.str = .null ∧ r.str = .null) ∨
      (l.str ≠ .null ∧ r.str ≠ .null ∧ l.bytes mem = r.bytes mem) := by
  have hinj : Function.Injective signedChar := fun _ _ => signedChar_injective
  by_cases hl : l.str = .null
  · by_cases hr : r.str = .null
    · simp [rank_null, hl, hr]
    · simp [rank_null, rank_of_ne_null, hl, hr]
  · by_cases hr : r.str = .null
    · simp [rank_null, rank_of_ne_null, hl, hr]
    · rw [rank_of_ne_null hl, rank_of_ne_null hr, WithBot.coe_inj,
        (List.map_injective_iff.2 hinj).eq_iff]
      simp [hl, hr]

/-- The loop of `ssstr_cmp` and the tie break behind it compare two lists of bytes. -/
theorem cmpLoop_eq_answer (l r : List Byte) :
    (cmpLoop l r).getD (if (r.length : Int) = l.length then 0
      else if (l.length : Int) < r.length then -1 else 1) =
    answer (l.map signedChar) (r.map signedChar) := by
  induction l generalizing r with
  | nil =>
    cases r with
    | nil => rfl
    | cons b r =>
      have hloop : cmpLoop [] (b :: r) = none := rfl
      have hlen : (([] : List Byte).length : Int) < (b :: r).length := Int.ofNat_lt.2 (by simp)
      rw [hloop, Option.getD_none, if_neg hlen.ne', if_pos hlen]
      exact (answer_nil_cons _ _).symm
  | cons a l ih =>
    cases r with
    | nil =>
      have hloop : cmpLoop (a :: l) [] = none := rfl
      have hlen : (([] : List Byte).length : Int) < (a :: l).length := Int.ofNat_lt.2 (by simp)
      rw [hloop, Option.getD_none, if_neg hlen.ne, if_neg hlen.not_gt]
      exact (answer_cons_nil _ _).symm
    | cons b r =>
      rw [List.map_cons, List.map_cons, answer_cons, ← ih r, cmpLoop]
      by_cases hlt : signedChar a < signedChar b
      · simp [hlt]
      · by_cases hgt : signedChar a > signedChar b
        · simp [hlt, hgt]
        · simp [hlt, hgt]

/-- **`ssstr_cmp` answers as the order of the places does.** -/
theorem cmp_eq_answer {mem : Mem} {l r : Ssstr} (hl : l.Readable mem) (hr : r.Readable mem) :
    cmp mem l r = answer (l.rank mem) (r.rank mem) := by
  unfold cmp
  by_cases hsame : l.str = r.str ∧ l.len = r.len
  · have hlr : l = r := by
      cases l
      cases r
      simpa using hsame
    rw [if_pos hsame, hlr, answer_self]
  · rw [if_neg hsame]
    by_cases hln : l.str = .null
    · -- two unset strings have one length, and are caught by the first test
      have hrn : r.str ≠ .null := fun hrn =>
        hsame ⟨hln.trans hrn.symm, (hl.len_of_null hln).trans (hr.len_of_null hrn).symm⟩
      rw [if_pos hln, rank_null hln, rank_of_ne_null hrn, answer_of_lt (WithBot.bot_lt_coe _)]
    · rw [if_neg hln]
      by_cases hrn : r.str = .null
      · rw [if_pos hrn, rank_of_ne_null hln, rank_null hrn, answer_of_gt (WithBot.bot_lt_coe _)]
      · rw [if_neg hrn, rank_of_ne_null hln, rank_of_ne_null hrn, answer_map WithBot.coe_strictMono,
          ← cmpLoop_eq_answer, hl, hr]
        cases cmpLoop (l.bytes mem) (r.bytes mem) <;> rfl

/-- Two set strings compare equal exactly when they hold the same bytes. -/
theorem cmp_eq_zero {mem : Mem} {l r : Ssstr} (hl : l.InRange mem) (hr : r.InRange mem)
    (hln : l.str ≠ .null) (hrn : r.str ≠ .null) :
    cmp mem l r = 0 ↔ l.bytes mem = r.bytes mem := by
  rw [cmp_eq_answer (length_bytes hl) (length_bytes hr), answer_eq_zero, rank_inj]
  simp [hln, hrn]

/-- **`ssstr_cmp` is a total order** of the strings that can be read. -/
theorem cmp_totalOrder {mem : Mem} {a b c : Ssstr} (ha : a.Readable mem) (hb : b.Readable mem)
    (hc : c.Readable mem) :
    (cmp mem a b = 0 ↔ (a.str = .null ∧ b.str = .null) ∨
      (a.str ≠ .null ∧ b.str ≠ .null ∧ a.bytes mem = b.bytes mem)) ∧
    cmp mem a b = -cmp mem b a ∧
    (cmp mem a b ≤ 0 → cmp mem b c ≤ 0 → cmp mem a c ≤ 0) ∧
    (cmp mem a b = -1 ∨ cmp mem a b = 0 ∨ cmp mem a b = 1) ∧
    (cmp mem a b ≤ 0 ↔ a.rank mem ≤ b.rank mem) := by
  rw [cmp_eq_answer ha hb, cmp_eq_answer hb ha, cmp_eq_answer hb hc, cmp_eq_answer ha hc]
  exact ⟨answer_eq_zero.trans rank_inj, answer_swap _ _, answer_trans, answer_cases _ _,
    answer_nonpos⟩

/-- A byte above 127 comes before every letter, and a string before its continuations. -/
theorem cmp_totalOrder_highByte :
    let mem : Mem := 0xE4 :: MWebServer.str "ab"
    cmp mem (.slice 0 1) (.slice 1 2) ≤ 0 ∧ cmp mem (.ofLit "a") (.slice 0 1) = 1 := by
  intro mem
  obtain ⟨-, hswap, htrans, -, -⟩ := @cmp_totalOrder mem (.slice 0 1) (.ofLit "a") (.slice 1 2)
    (by decide +kernel) (by decide +kernel) (by decide +kernel)
  refine ⟨htrans (by decide +kernel) (by decide +kernel), ?_⟩
  have hlow : cmp mem (.slice 0 1) (.ofLit "a") = -1 := by decide +kernel
  omega

end Ssstr

/-- A comparison ends at a byte that no byte of the other string is equal to. -/
theorem strncasecmp_ok {l r : List Byte} {n : Nat} {c : Byte} (hn : n ≤ r.length) (hc : c ∈ l)
    (hne : ∀ d ∈ r.take n, toLower c ≠ toLower d) : ∃ d, strncasecmp l r n = .ok d := by
  induction n generalizing l r with
  | zero =>
    cases l <;> cases r <;> exact ⟨0, rfl⟩
  | succ n ih =>
    cases l with
    | nil => simp at hc
    | cons a l =>
      cases r with
      | nil => simp at hn
      | cons b r =>
        rw [strncasecmp]
        by_cases hab : toLower a = toLower b
        · by_cases h0 : a = 0
          · exact ⟨0, by rw [if_neg (not_not_intro hab), if_pos h0]⟩
          · have hcl : c ∈ l := by
              rcases List.mem_cons.1 hc with rfl | hcl
              · exact absurd hab (hne b (by simp))
              · exact hcl
            obtain ⟨d, hd⟩ := ih (by simpa using hn) hcl fun d hd => hne d (by simp [hd])
            exact ⟨d, by rw [if_neg (not_not_intro hab), if_neg h0, hd]⟩
        · exact ⟨_, if_pos hab⟩

/-- `ssstr_caseequal` on a slice that a carriage return ends. -/
theorem Ssstr.caseequal_ok {mem : Mem} {off : Nat} (len : Nat) (hcr : chr '\r' ∈ mem.drop off)
    {cstr : List Byte} (hcstr : ∀ d ∈ cstr, toLower (chr '\r') ≠ toLower d) :
    ∃ b, (slice off len).caseequal mem cstr = .ok b := by
  obtain ⟨d, hd⟩ := strncasecmp_ok (l := mem.drop off) (r := cstr ++ [0]) (n := cstr.length)
    (by simp) hcr (by rw [List.take_left]; exact hcstr)
  refine ⟨decide (d = 0), ?_⟩
  simp [caseequal, slice, CharPtr.tail, hd]

end MWebServer
