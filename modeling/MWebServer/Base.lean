import MWebServer.Lib.Run

/-!
# Bytes, C integers and memory

The vocabulary the translation of the C sources shares.  A block of memory is the
list of its bytes, and a pointer into the read buffer is an offset into that block
(`none` for `NULL`).  An operation that would touch memory outside its block, read
through `NULL` or break an `assert` ends the run with a `Fault`.

Integers are exact; where the source narrows a value the narrowing is written out
(`toShort`, `toInt`, `toSizeT`).
-/

namespace MWebServer

/-- A `char` of the source, seen as an unsigned byte. -/
abbrev Byte := UInt8

/-- The byte of a character literal. -/
def chr (c : Char) : Byte := c.toUInt8

/-- The bytes of a string literal, without its terminating `NUL`. -/
def str (s : String) : List Byte := s.toList.map chr

/-- A byte as the signed `char` it is on the target. -/
def signedChar (c : Byte) : Int := c.toInt8.toInt

/-- `'A' ... 'Z'` or `'a' ... 'z'`. -/
def isAlpha (c : Byte) : Bool :=
  (chr 'a' ≤ c && c ≤ chr 'z') || (chr 'A' ≤ c && c ≤ chr 'Z')

/-- `'0' ... '9'`. -/
def isDigit (c : Byte) : Bool := chr '0' ≤ c && c ≤ chr '9'

/-- A space or a tab. -/
def isBlank (c : Byte) : Bool := c == chr ' ' || c == chr '\t'

/-- A carriage return or a line feed. -/
def isNewline (c : Byte) : Bool := c == chr '\r' || c == chr '\n'

/-- `tolower` in the C locale. -/
def toLower (c : Byte) : Byte := if chr 'A' ≤ c && c ≤ chr 'Z' then c + 32 else c

/-- A property of bytes may be checked byte by byte. -/
theorem forall_byte {P : Byte → Prop} (h : ∀ n : Fin 256, P (UInt8.ofNat n.val)) (c : Byte) :
    P c := by
  have := h ⟨c.toNat, c.toNat_lt⟩
  simpa using this

/-! ## C integers -/

/-- Conversion to `short`. -/
def toShort (x : Int) : Int := Int.bmod x (2 ^ 16)

/-- Conversion to `int`. -/
def toInt (x : Int) : Int := Int.bmod x (2 ^ 32)

/-- Conversion of an `int` to `size_t`. -/
def toSizeT (x : Int) : Nat := (x % 2 ^ 64).toNat

/-- The largest `int`. -/
def intMax : Int := 2 ^ 31 - 1

theorem toShort_of_le {x : Int} (h0 : 0 ≤ x) (h1 : x ≤ 99) : toShort x = x := by
  unfold toShort
  exact Int.bmod_eq_of_le (by omega) (by omega)

theorem toInt_of_le {x : Int} (h0 : 0 ≤ x) (h1 : x ≤ intMax) : toInt x = x := by
  unfold toInt
  unfold intMax at h1
  exact Int.bmod_eq_of_le (by omega) (by omega)

theorem toSizeT_of_le {x : Int} (h0 : 0 ≤ x) (h1 : x ≤ intMax) : toSizeT x = x.toNat := by
  unfold toSizeT
  unfold intMax at h1
  rw [Int.emod_eq_of_lt h0 (by omega)]

/-! ## Memory -/

/-- How a run of the C code can go wrong. -/
inductive Fault where
  /-- An `assert` does not hold. -/
  | assertFailed
  /-- A read or write through a null pointer. -/
  | nullDeref
  /-- An access outside the block it belongs to. -/
  | outOfBounds
  /-- An access to a block that has been freed. -/
  | useAfterFree
  /-- A loop of the model ran out of its bound. -/
  | noFuel
  deriving DecidableEq, Repr

/-- The bytes of one allocated block. -/
abbrev Mem := List Byte

/-- The `n` bytes of a block that begin at `off`. -/
def readSlice (m : Mem) (off n : Int) : Except Fault (List Byte) :=
  if 0 ≤ off ∧ 0 ≤ n ∧ off + n ≤ m.length then
    .ok ((m.drop off.toNat).take n.toNat)
  else
    .error .outOfBounds

/-- `memcpy(m + off, src, size)`, with `src` the `size` bytes to be written. -/
def memcpy (m : Mem) (off : Int) (src : List Byte) : Except Fault Mem :=
  if 0 ≤ off ∧ off + src.length ≤ m.length then
    .ok (m.take off.toNat ++ (src ++ m.drop (off.toNat + src.length)))
  else
    .error .outOfBounds

/-- `memmove(m + dst, m + src, n)` inside one block. -/
def memmove (m : Mem) (dst src n : Int) : Except Fault Mem :=
  readSlice m src n >>= memcpy m dst

/-- `memset(m + off, 0, n)`. -/
def memzero (m : Mem) (off n : Int) : Except Fault Mem :=
  if 0 ≤ n then memcpy m off (List.replicate n.toNat 0) else .error .outOfBounds

/-- `mu_malloc`: a block of `n` bytes.  What it holds is nothing the C code can rely on, and so
`fresh` is arbitrary. -/
def muMalloc (fresh : Nat → Byte) (n : Int) : Mem := (List.range n.toNat).map fresh

/-- A block to which nothing has been written yet, for examples. -/
def stale : Nat → Byte := fun _ => chr '?'

@[simp] theorem length_muMalloc (fresh : Nat → Byte) (n : Int) :
    (muMalloc fresh n).length = n.toNat := by
  simp [muMalloc]

theorem readSlice_eq_ok {m : Mem} {off n : Int} {xs : List Byte} :
    readSlice m off n = .ok xs ↔
      0 ≤ off ∧ 0 ≤ n ∧ off + n ≤ m.length ∧ xs = (m.drop off.toNat).take n.toNat := by
  unfold readSlice
  split
  · next h => simp [h, eq_comm]
  · next h =>
    constructor
    · intro hc
      cases hc
    · rintro ⟨h0, h1, h2, -⟩
      exact absurd ⟨h0, h1, h2⟩ h

theorem memcpy_eq_ok {m m' : Mem} {off : Int} {src : List Byte} :
    memcpy m off src = .ok m' ↔
      0 ≤ off ∧ off + src.length ≤ m.length ∧
        m' = m.take off.toNat ++ (src ++ m.drop (off.toNat + src.length)) := by
  unfold memcpy
  split
  · next h => simp [h, eq_comm]
  · next h =>
    constructor
    · intro hc
      cases hc
    · rintro ⟨h0, h1, -⟩
      exact absurd ⟨h0, h1⟩ h

/-- A copy leaves the size of its block alone. -/
theorem length_of_memcpy {m m' : Mem} {off : Int} {src : List Byte}
    (h : memcpy m off src = .ok m') : m'.length = m.length := by
  obtain ⟨h0, h1, rfl⟩ := memcpy_eq_ok.1 h
  simp only [List.length_append, List.length_take, List.length_drop]
  omega

end MWebServer
