import MWebServer.Mevent.RingBuffer

/-!
# The memory of a ring buffer

A push that does not find enough room allocates a block of twice the size, and as much again as
is pushed; nothing ever takes a smaller block.  How large the blocks become depends on how much
has waited in the buffer at a time, and not on how much has gone through it.

* `pushData_cap`, `releaseBytes_cap` — the block behind an operation.
* `Metered` — a buffer with a record of its blocks.
* `frugal_run` — over whole runs, the blocks are few and not too large, as long as the sizes
  are `int`s.
-/

namespace MWebServer

namespace RingBuffer

variable {fresh : Nat → Byte} {rb rb' : RingBuffer}

/-! ## One operation -/

/-- **The block behind a push** is the old one, or one of more than twice its size where the bytes
that wait do not fit into the old one. -/
theorem pushData_cap (h : rb.Inv) {data : List Byte} (hok : rb.pushData fresh data = .ok rb') :
    (rb'.cap = rb.cap ∧ rb'.readableBytes ≤ rb.cap) ∨
      (rb'.cap = rb.cap * 2 + data.length ∧ (0 : Int) < data.length ∧ rb.cap < rb'.readableBytes ∧
        data.length ≤ rb'.readableBytes) := by
  obtain ⟨hinv, hcontent⟩ := pushData_content h hok
  have hlen : rb'.readableBytes = rb.readableBytes + data.length := by
    rw [← length_content hinv, ← length_content h, hcontent, List.length_append]
    exact Int.natCast_add _ _
  have hused : rb.end_ - rb.start = rb.readableBytes := rfl
  have hnonneg : 0 ≤ rb.readableBytes := by
    rw [← length_content h]
    exact Int.natCast_nonneg _
  have hle : rb.readableBytes ≤ rb.cap := by
    have h0 := h.start_nonneg
    have hend := h.end_le_cap
    omega
  by_cases hfull : rb.cap - (rb.end_ - rb.start) < data.length
  · rw [pushData_grown h hfull] at hok
    refine Or.inr ⟨?_, by omega, by omega, by omega⟩
    rw [← Except.ok.inj hok]
    rfl
  · have hfits := (pushData_ok_iff h).1 ⟨rb', hok⟩
    obtain ⟨rb₁, hok₁, -, hcap, -⟩ := pushData_append h hfull (hfits (by omega))
    obtain rfl := Run.ok_unique hok₁ hok
    exact Or.inl ⟨hcap, by omega⟩

/-- A release keeps the block, and leaves fewer bytes in it. -/
theorem releaseBytes_cap (h : rb.Inv) {size : Int} (hlegal : rb.Legal (.release size))
    (hok : rb.releaseBytes size = .ok rb') :
    rb'.Inv ∧ rb'.cap = rb.cap ∧ rb'.readableBytes ≤ rb.readableBytes := by
  obtain ⟨rb₁, hok₁, hinv, hcap, hcontent⟩ := releaseBytes_spec h hlegal.1 hlegal.2
  obtain rfl := Run.ok_unique hok₁ hok
  refine ⟨hinv, hcap, ?_⟩
  rw [← length_content hinv, ← length_content h, hcontent, List.length_drop]
  omega

/-! ## A run -/

/-- A buffer with the sizes of the blocks that were allocated for it, the latest first, and the
largest number of bytes that have waited in it. -/
structure Metered where
  buffer : RingBuffer
  blocks : List Int
  peak : Int
  deriving DecidableEq

namespace Metered

/-- `ring_buffer_new` -/
def new : Metered := ⟨.new, [], 0⟩

/-- One operation; only a new block has a new size. -/
def step (s : Metered) (op : Op) : Except Fault Metered := do
  let rb ← s.buffer.step op
  pure {
    buffer := rb
    blocks := if rb.cap = s.buffer.cap then s.blocks else rb.cap :: s.blocks
    peak := max s.peak rb.readableBytes }

/-- **The blocks are few and not too large**: the one in use is at most three times as large as what
has waited in it, all of them together have at most twice its size, their number grows with the
logarithm of it, and every size that was computed is an `int`. -/
structure Frugal (s : Metered) : Prop where
  cap : s.buffer.cap ≤ 3 * s.peak
  blocks : s.blocks.sum ≤ 2 * s.buffer.cap
  count : 2 ^ s.blocks.length ≤ s.buffer.cap + 1
  ints : s.buffer.cap ≤ intMax ∧ ∀ size ∈ s.blocks, size ≤ intMax

/-- What every operation keeps. -/
structure Inv (s : Metered) : Prop where
  buffer : s.buffer.Inv
  peak : s.buffer.readableBytes ≤ s.peak
  cap : s.buffer.cap ≤ 3 * s.peak
  blocks : s.blocks.sum ≤ 2 * s.buffer.cap
  count : 2 ^ s.blocks.length ≤ s.buffer.cap + 1
  largest : ∀ size ∈ s.blocks, size ≤ s.buffer.cap

theorem new_inv : Metered.new.Inv :=
  ⟨RingBuffer.new_inv, le_rfl, le_rfl, le_rfl, le_rfl, fun _ h => by cases h⟩

variable {s s' : Metered}

/-- No size has been larger than the block in use, and this one is small enough. -/
theorem Inv.frugal (h : s.Inv) (hpeak : 3 * s.peak ≤ intMax) : s.Frugal where
  cap := h.cap
  blocks := h.blocks
  count := h.count
  ints := ⟨h.cap.trans hpeak, fun size hsize => (h.largest size hsize).trans (h.cap.trans hpeak)⟩

/-- An operation that needs no other block. -/
theorem Inv.same (h : s.Inv) (hinv : rb.Inv) (hcap : rb.cap = s.buffer.cap) :
    Inv { buffer := rb
          blocks := if rb.cap = s.buffer.cap then s.blocks else rb.cap :: s.blocks
          peak := max s.peak rb.readableBytes } := by
  rw [if_pos hcap]
  refine ⟨hinv, le_max_right _ _, ?_, ?_, ?_, ?_⟩
  · have hle := h.cap
    have hmax := le_max_left s.peak rb.readableBytes
    show rb.cap ≤ 3 * max s.peak rb.readableBytes
    omega
  · show s.blocks.sum ≤ 2 * rb.cap
    rw [hcap]
    exact h.blocks
  · show 2 ^ s.blocks.length ≤ rb.cap + 1
    rw [hcap]
    exact h.count
  · intro size hsize
    show size ≤ rb.cap
    rw [hcap]
    exact h.largest size hsize

/-- A block of more than twice the size. -/
theorem Inv.doubled (h : s.Inv) (hinv : rb.Inv) {size : Int}
    (hcap : rb.cap = s.buffer.cap * 2 + size) (hpos : 0 < size)
    (hfull : s.buffer.cap < rb.readableBytes) (hsize : size ≤ rb.readableBytes) :
    Inv { buffer := rb
          blocks := if rb.cap = s.buffer.cap then s.blocks else rb.cap :: s.blocks
          peak := max s.peak rb.readableBytes } := by
  have hnonneg : 0 ≤ s.buffer.cap :=
    h.buffer.start_nonneg.trans (h.buffer.start_le_end.trans h.buffer.end_le_cap)
  rw [if_neg (by omega)]
  refine ⟨hinv, le_max_right _ _, ?_, ?_, ?_, ?_⟩
  · have hmax := le_max_right s.peak rb.readableBytes
    show rb.cap ≤ 3 * max s.peak rb.readableBytes
    omega
  · have hsum := h.blocks
    show (rb.cap :: s.blocks).sum ≤ 2 * rb.cap
    rw [List.sum_cons]
    omega
  · have hcount := h.count
    show 2 ^ (rb.cap :: s.blocks).length ≤ rb.cap + 1
    rw [List.length_cons, pow_succ]
    omega
  · intro size hsize
    show size ≤ rb.cap
    rcases List.mem_cons.1 hsize with rfl | hold
    · exact le_rfl
    · have hle := h.largest size hold
      omega

/-- **One operation.** -/
theorem step_inv {op : Op} (h : s.Inv) (hlegal : s.buffer.Legal op) (hok : s.step op = .ok s') :
    s'.Inv := by
  obtain ⟨rb, hrb, hs'⟩ := Run.bind_eq_ok.1 hok
  rw [← Except.ok.inj hs']
  cases op with
  | push data fresh =>
    obtain ⟨hinv, -⟩ := pushData_content h.buffer hrb
    rcases pushData_cap h.buffer hrb with ⟨hcap, -⟩ | ⟨hcap, hpos, hfull, hsize⟩
    · exact h.same hinv hcap
    · exact h.doubled hinv hcap hpos hfull hsize
  | release size =>
    obtain ⟨hinv, hcap, -⟩ := releaseBytes_cap h.buffer hlegal hrb
    exact h.same hinv hcap

/-- **A ring buffer is frugal with memory.**  In every state of a run of pushes and legal releases,
as long as three times the most that has waited in it at a time is an `int`, the block is at most
that large, all blocks that were ever allocated have at most twice its size together, their number
is logarithmic in it, and none of their sizes has overflowed. -/
theorem frugal_run (ops : List Op)
    (hlegal : Run.Meets step (fun s op => s.buffer.Legal op) Metered.new ops) :
    Run.Always step (fun s => 3 * s.peak ≤ intMax → s.Frugal) Metered.new ops :=
  Run.always_of_meets (I := Inv) (fun _ h => h.frugal) (fun _ _ _ h hlegal hok => step_inv h hlegal hok)
    new_inv hlegal

/-- Blocks of three and of ten bytes, for five that wait. -/
theorem frugal_run_growing : ∃ s, Run.run step Metered.new growing = .ok s ∧ s.blocks = [10, 3] ∧
    s.peak = 5 ∧ s.Frugal := by
  have hblocks : (Run.run step Metered.new growing).map (fun s => (s.blocks, s.peak)) =
      .ok ([10, 3], 5) := by decide +kernel
  have hwaits : (Metered.new.step (.push (str "abc") stale)).map
      (fun s => s.buffer.readableBytes) = .ok 3 := by decide +kernel
  have hlegal : Run.Meets step (fun s op => s.buffer.Legal op) Metered.new growing := by
    refine ⟨trivial, fun s hs => ⟨?_, fun _ _ => ⟨trivial, fun _ _ => trivial⟩⟩⟩
    rw [hs] at hwaits
    have hreadable : s.buffer.readableBytes = 3 := Except.ok.inj hwaits
    exact ⟨by decide, by rw [hreadable]; decide⟩
  obtain ⟨s, hs, hmeter⟩ := Run.map_eq_ok.1 hblocks
  obtain ⟨hlist, hpeak⟩ := Prod.mk.inj hmeter
  have hlow : 3 * s.peak ≤ intMax := by
    rw [hpeak]
    decide
  exact ⟨s, hs, hlist, hpeak, frugal_run growing hlegal growing (List.prefix_refl _) s hs hlow⟩

end Metered

end RingBuffer

end MWebServer
