import MWebServer.Base

/-!
# Ring buffers (`mevent/ring_buffer.c`)

A ring buffer is a block `msg` of `cap` bytes, of which `[start, end)` are waiting to be
read.  It stands for the queue of those bytes (`content`): a push appends to it, a
release drops from its front (`pushData_spec`, `releaseBytes_spec`).

* `pushData_compact_unreachable` — the branch that moves the bytes to the front is
  never taken.
* `pushData_ok_iff` — a push stays inside the block exactly when the room it has
  found is at the end of the block.
* `safely_iff_tailFits` — over whole runs, that condition is all the bounds need.
* `fifo` — and under it the bytes leave in the order in which they came.
* `pushData_overflow` — four bytes in, two out, two in: the last push finds room for
  two bytes and writes them behind the block.
-/

namespace MWebServer

/-- `ring_buffer`; an empty `msg` is `NULL`. -/
structure RingBuffer where
  start : Int
  end_ : Int
  cap : Int
  msg : Mem
  deriving DecidableEq, Repr

namespace RingBuffer

variable {fresh : Nat → Byte}

/-- `ring_buffer_new` -/
def new : RingBuffer := ⟨0, 0, 0, []⟩

/-- What a ring buffer has on the heap. -/
structure Heap where
  /-- Its block, if `msg` is not `NULL`, is allocated. -/
  block : Bool
  /-- The `ring_buffer` itself is allocated. -/
  object : Bool
  deriving DecidableEq, Repr

/-- What `ring_buffer_new` leaves on the heap. -/
def Heap.new : Heap := ⟨true, true⟩

/-- `ring_buffer_free`: the block is freed, and the `ring_buffer` is not. -/
def Heap.free (heap : Heap) : Heap := { heap with block := false }

/-- `if (used > 0) memcpy(new_msg, rb->msg + rb->start, used)` -/
def copyUsed (rb : RingBuffer) (newMsg : Mem) (used : Int) : Except Fault Mem :=
  if used > 0 then readSlice rb.msg rb.start used >>= memcpy newMsg 0 else pure newMsg

/-- `ring_buffer_push_data`, where a block that is allocated holds `fresh`. -/
def pushData (rb : RingBuffer) (fresh : Nat → Byte) (data : List Byte) : Except Fault RingBuffer :=
  let size : Int := data.length
  let used := rb.end_ - rb.start
  let available := rb.cap - used
  if available < size then
    if rb.start > size then do
      let msg ← memmove rb.msg 0 rb.start used
      let msg ← memcpy msg used data
      pure { rb with start := 0, end_ := used + size, msg := msg }
    else do
      let cap := rb.cap * 2 + size
      let newMsg ← rb.copyUsed (muMalloc fresh cap) used
      let newMsg ← memcpy newMsg used data
      pure ⟨0, size + used, cap, newMsg⟩
  else do
    let msg ← memcpy rb.msg rb.end_ data
    pure { rb with end_ := rb.end_ + size, msg := msg }

/-- `ring_buffer_readable_start`, as an offset into `msg`. -/
def readableStart (rb : RingBuffer) : Int := rb.start

/-- `ring_buffer_readable_bytes` -/
def readableBytes (rb : RingBuffer) : Int := rb.end_ - rb.start

/-- `ring_buffer_get_msg`: the offset of the first byte, unless there is none, and `*len`. -/
def getMsg (rb : RingBuffer) : Option Int × Int :=
  (if rb.end_ = rb.start then none else some rb.start, rb.end_ - rb.start)

/-- `ring_buffer_available_bytes` -/
def availableBytes (rb : RingBuffer) : Int := rb.cap - rb.end_

/-- `ring_buffer_release_bytes` -/
def releaseBytes (rb : RingBuffer) (size : Int) : Except Fault RingBuffer := do
  let msg ← memzero rb.msg rb.start size
  let start := rb.start + size
  if start = rb.end_ then pure { rb with start := 0, end_ := 0, msg := msg }
  else pure { rb with start := start, msg := msg }

/-! ## The queue a buffer stands for -/

/-- The bytes waiting to be read. -/
def content (rb : RingBuffer) : List Byte :=
  (rb.msg.drop rb.start.toNat).take (rb.end_ - rb.start).toNat

/-- The positions are in order and the block has the size it is said to have. -/
structure Inv (rb : RingBuffer) : Prop where
  start_nonneg : 0 ≤ rb.start
  start_le_end : rb.start ≤ rb.end_
  end_le_cap : rb.end_ ≤ rb.cap
  length_msg : (rb.msg.length : Int) = rb.cap

theorem new_inv : new.Inv := ⟨le_rfl, le_rfl, le_rfl, rfl⟩

@[simp] theorem new_content : new.content = [] := rfl

/-- A buffer whose positions are natural numbers. -/
theorem Inv.exists_nat {rb : RingBuffer} (h : rb.Inv) : ∃ s e : Nat, rb.start = s ∧ rb.end_ = e ∧
    rb.cap = rb.msg.length ∧ s ≤ e ∧ e ≤ rb.msg.length := by
  obtain ⟨h1, h2, h3, h4⟩ := h
  exact ⟨rb.start.toNat, rb.end_.toNat, by omega, by omega, h4.symm, by omega, by omega⟩

theorem content_eq {rb : RingBuffer} {s e : Nat} (hs : rb.start = s) (he : rb.end_ = e) :
    rb.content = (rb.msg.drop s).take (e - s) := by
  unfold content
  rw [hs, he, Int.toNat_natCast, show ((e : Int) - s).toNat = e - s by omega]

theorem length_content {rb : RingBuffer} (h : rb.Inv) :
    (rb.content.length : Int) = rb.readableBytes := by
  obtain ⟨s, e, hs, he, -, hse, hem⟩ := h.exists_nat
  rw [content_eq hs he, List.length_take, List.length_drop, min_eq_left (by omega), readableBytes,
    hs, he]
  omega

/-- A block is what lies in front of the waiting bytes, these bytes, and what lies behind. -/
theorem Inv.split {rb : RingBuffer} (h : rb.Inv) : ∃ pre post : List Byte,
    rb.msg = pre ++ (rb.content ++ post) ∧ rb.start = pre.length ∧
      rb.end_ = pre.length + rb.content.length := by
  obtain ⟨s, e, hs, he, -, hse, hem⟩ := h.exists_nat
  have hlen : (rb.msg.take s).length = s := by
    rw [List.length_take, min_eq_left (by omega)]
  have hcontent : rb.content.length = e - s := by
    rw [content_eq hs he, List.length_take, List.length_drop, min_eq_left (by omega)]
  refine ⟨rb.msg.take s, (rb.msg.drop s).drop (e - s), ?_, by rw [hlen, hs], ?_⟩
  · rw [content_eq hs he, List.take_append_drop, List.take_append_drop]
  · rw [hlen, hcontent, he]
    omega

/-! ## Release -/

/-- What is left after zeroing `n` bytes at `s` and passing them. -/
theorem drop_after_zero {m : Mem} {s n e : Nat} (hn : s + n ≤ e) (he : e ≤ m.length) :
    ((m.take s ++ (List.replicate n 0 ++ m.drop (s + n))).drop (s + n)).take (e - (s + n)) =
      ((m.drop s).take (e - s)).drop n := by
  have hlen : (m.take s ++ List.replicate n (0 : Byte)).length = s + n := by
    simp only [List.length_append, List.length_take, List.length_replicate]
    omega
  rw [← List.append_assoc, List.drop_left' hlen, List.drop_take, List.drop_drop,
    show e - s - n = e - (s + n) by omega]

/-- **A release drops bytes from the front of the queue.** -/
theorem releaseBytes_spec {rb : RingBuffer} (h : rb.Inv) {size : Int} (h0 : 0 ≤ size)
    (hsize : size ≤ rb.readableBytes) :
    ∃ rb', rb.releaseBytes size = .ok rb' ∧ rb'.Inv ∧ rb'.cap = rb.cap ∧
      rb'.content = rb.content.drop size.toNat := by
  obtain ⟨s, e, hs, he, hcap, hse, hem⟩ := h.exists_nat
  obtain ⟨n, rfl⟩ := Int.eq_ofNat_of_zero_le h0
  have hn : s + n ≤ e := by
    unfold readableBytes at hsize
    omega
  have hzero : memzero rb.msg rb.start n = .ok (rb.msg.take s ++
      (List.replicate n 0 ++ rb.msg.drop (s + n))) := by
    rw [memzero, if_pos h0, memcpy_eq_ok, hs]
    simp only [Int.toNat_natCast, List.length_replicate]
    exact ⟨by omega, by omega, trivial⟩
  have hlen : (rb.msg.take s ++ (List.replicate n 0 ++ rb.msg.drop (s + n))).length =
      rb.msg.length := by
    simp only [List.length_append, List.length_take, List.length_replicate, List.length_drop]
    omega
  rw [releaseBytes, hzero, content_eq hs he]
  simp only [Run.ok_bind, Int.toNat_natCast]
  by_cases hend : rb.start + (n : Int) = rb.end_
  · rw [if_pos hend]
    refine ⟨_, rfl, ⟨le_rfl, le_rfl, ?_, ?_⟩, rfl, ?_⟩
    · simp only
      omega
    · simp only [hlen, hcap]
    · have hdrop : ((rb.msg.drop s).take (e - s)).drop n = [] :=
        List.drop_eq_nil_of_le (by rw [List.length_take]; omega)
      rw [hdrop]
      simp [content]
  · rw [if_neg hend]
    refine ⟨_, rfl, ⟨?_, ?_, ?_, ?_⟩, rfl, ?_⟩
    · simp only
      omega
    · simp only
      omega
    · simp only
      omega
    · simp only [hlen, hcap]
    · rw [← drop_after_zero hn hem]
      exact content_eq (s := s + n) (by simp [hs]) he

/-- Releasing everything puts the positions back to the beginning. -/
theorem releaseBytes_all {rb rb' : RingBuffer} (hok : rb.releaseBytes rb.readableBytes = .ok rb') :
    rb'.start = 0 ∧ rb'.end_ = 0 := by
  unfold releaseBytes at hok
  obtain ⟨msg, -, hok⟩ := Run.bind_eq_ok.1 hok
  have hend : rb.start + rb.readableBytes = rb.end_ := by
    unfold readableBytes
    omega
  rw [if_pos hend] at hok
  obtain rfl := Except.ok.inj hok
  exact ⟨rfl, rfl⟩

/-- A release that leaves nothing puts the positions back to the beginning. -/
theorem releaseBytes_start {rb rb' : RingBuffer} {size : Int} (hok : rb.releaseBytes size = .ok rb')
    (hinv : rb'.Inv) (hempty : rb'.content = []) : rb'.start = 0 := by
  have hlen := length_content hinv
  rw [hempty, List.length_nil, readableBytes] at hlen
  unfold releaseBytes at hok
  obtain ⟨msg, -, hok⟩ := Run.bind_eq_ok.1 hok
  simp only at hok
  split_ifs at hok with hend
  · rw [← Except.ok.inj hok]
  · -- otherwise something is left
    obtain rfl := Except.ok.inj hok
    simp only at hlen
    omega

/-! ## Push -/

/-- The room at the end of the block suffices if there is enough room at all. -/
def TailFits (rb : RingBuffer) (size : Int) : Prop :=
  size ≤ rb.cap - rb.readableBytes → rb.end_ + size ≤ rb.cap

instance (rb : RingBuffer) (size : Int) : Decidable (rb.TailFits size) :=
  inferInstanceAs (Decidable (_ → _))

/-- **The branch that moves the bytes to the front is never taken**: where `start` exceeds the
size to be pushed, there is that much room in front alone. -/
theorem pushData_compact_unreachable {rb : RingBuffer} (h : rb.Inv) {size : Int}
    (hfull : rb.cap - (rb.end_ - rb.start) < size) : ¬ rb.start > size := by
  have := h.end_le_cap
  omega

/-- Reading back a block into which `data` was copied behind the bytes that wait in it. -/
theorem content_after_copy {m : Mem} {s e : Nat} (data rest : List Byte) (hse : s ≤ e)
    (he : e ≤ m.length) :
    ((m.take e ++ (data ++ rest)).drop s).take (e + data.length - s) =
      (m.drop s).take (e - s) ++ data := by
  have hlen : ((m.take e).drop s).length = e - s := by
    simp only [List.length_drop, List.length_take]
    omega
  rw [List.drop_append_of_le_length (by simp only [List.length_take]; omega), List.drop_take,
    ← List.append_assoc, List.take_left']
  simp only [List.length_append, List.length_take, List.length_drop]
  omega

/-- The block `ring_buffer_push_data` allocates when there is not enough room. -/
def grown (rb : RingBuffer) (fresh : Nat → Byte) (data : List Byte) : RingBuffer :=
  ⟨0, data.length + (rb.end_ - rb.start), rb.cap * 2 + data.length, rb.content ++ (data ++
    (muMalloc fresh (rb.cap * 2 + data.length)).drop (rb.content.length + data.length))⟩

/-- Pushing into a buffer without enough room: a larger block, filled from its start. -/
theorem pushData_grown {rb : RingBuffer} (h : rb.Inv) {data : List Byte}
    (hfull : rb.cap - (rb.end_ - rb.start) < data.length) :
    rb.pushData fresh data = .ok (rb.grown fresh data) := by
  have hcompact := pushData_compact_unreachable h hfull
  have hlen := length_content h
  obtain ⟨s, e, hs, he, hcap, hse, hem⟩ := h.exists_nat
  have hslice : readSlice rb.msg rb.start (rb.end_ - rb.start) = .ok rb.content :=
    readSlice_eq_ok.2 ⟨by omega, by omega, by omega, rfl⟩
  have hused : rb.end_ - rb.start = (rb.content.length : Int) := hlen.symm
  have hblock : (muMalloc fresh (rb.cap * 2 + data.length)).length =
      2 * rb.msg.length + data.length := by
    rw [length_muMalloc]
    omega
  have hle : rb.content.length + data.length ≤ 2 * rb.msg.length + data.length := by
    have : (rb.content.length : Int) ≤ rb.msg.length := by omega
    omega
  -- the old bytes are copied to the front of the new block, if there are any
  have hcopy : rb.copyUsed (muMalloc fresh (rb.cap * 2 + data.length)) (rb.end_ - rb.start) =
      .ok (rb.content ++ (muMalloc fresh (rb.cap * 2 + data.length)).drop rb.content.length) := by
    unfold copyUsed
    split_ifs with hpos
    · rw [hslice, Run.ok_bind, memcpy_eq_ok]
      exact ⟨le_rfl, by omega, by simp⟩
    · have hnil : rb.content = [] := List.eq_nil_of_length_eq_zero (by omega)
      rw [hnil]
      rfl
  have hput : memcpy (rb.content ++ (muMalloc fresh (rb.cap * 2 + data.length)).drop rb.content.length)
      (rb.end_ - rb.start) data = .ok (rb.content ++ (data ++
        (muMalloc fresh (rb.cap * 2 + data.length)).drop (rb.content.length + data.length))) := by
    rw [memcpy_eq_ok, hused]
    refine ⟨by omega, ?_, ?_⟩
    · simp only [List.length_append, List.length_drop, hblock]
      omega
    · rw [Int.toNat_natCast, List.take_left' rfl, List.drop_append, List.drop_drop]
      simp
  simp only [pushData, hfull, if_true, hcompact, if_false]
  rw [hcopy, Run.ok_bind, hput]
  rfl

theorem grown_spec {rb : RingBuffer} (h : rb.Inv) (fresh : Nat → Byte) (data : List Byte) :
    (rb.grown fresh data).Inv ∧ (rb.grown fresh data).content = rb.content ++ data := by
  have hlen := length_content h
  obtain ⟨s, e, hs, he, hcap, hse, hem⟩ := h.exists_nat
  have hused : rb.end_ - rb.start = (rb.content.length : Int) := hlen.symm
  unfold grown
  refine ⟨⟨le_rfl, ?_, ?_, ?_⟩, ?_⟩
  · simp only
    omega
  · simp only
    omega
  · simp only [length_muMalloc, List.length_append, List.length_drop]
    omega
  · rw [content_eq (s := 0) (e := rb.content.length + data.length) rfl (by simp only; omega),
      ← List.append_assoc, List.drop_zero]
    exact List.take_left' (by rw [List.length_append]; omega)

/-- Pushing into a buffer with room at its end: the bytes go behind those that wait. -/
theorem pushData_append {rb : RingBuffer} (h : rb.Inv) {data : List Byte}
    (hroom : ¬ rb.cap - (rb.end_ - rb.start) < data.length)
    (htail : rb.end_ + data.length ≤ rb.cap) :
    ∃ rb', rb.pushData fresh data = .ok rb' ∧ rb'.Inv ∧ rb'.cap = rb.cap ∧
      rb'.content = rb.content ++ data := by
  obtain ⟨s, e, hs, he, hcap, hse, hem⟩ := h.exists_nat
  have hput : memcpy rb.msg rb.end_ data =
      .ok (rb.msg.take e ++ (data ++ rb.msg.drop (e + data.length))) := by
    rw [memcpy_eq_ok, he]
    exact ⟨by omega, by omega, by simp⟩
  refine ⟨{ rb with
    end_ := rb.end_ + data.length
    msg := rb.msg.take e ++ (data ++ rb.msg.drop (e + data.length)) }, ?_,
    ⟨h.start_nonneg, ?_, htail, ?_⟩, rfl, ?_⟩
  · simp only [pushData, hroom, if_false]
    rw [hput]
    rfl
  · simp only
    omega
  · rw [length_of_memcpy hput]
    exact h.length_msg
  · rw [content_eq hs he, ← content_after_copy data (rb.msg.drop (e + data.length)) hse hem]
    exact content_eq (e := e + data.length) hs
      (by simp [he])

/-- **A push appends to the queue**, when the room it finds is at the end of the block. -/
theorem pushData_spec {rb : RingBuffer} (h : rb.Inv) {data : List Byte}
    (hfits : rb.TailFits data.length) :
    ∃ rb', rb.pushData fresh data = .ok rb' ∧ rb'.Inv ∧ rb'.content = rb.content ++ data := by
  by_cases hfull : rb.cap - (rb.end_ - rb.start) < data.length
  · obtain ⟨hinv, hcont⟩ := grown_spec h fresh data
    exact ⟨_, pushData_grown h hfull, hinv, hcont⟩
  · obtain ⟨rb', hok, hinv, -, hcont⟩ :=
      pushData_append h hfull (hfits (by unfold readableBytes; omega))
    exact ⟨rb', hok, hinv, hcont⟩

/-- **A push stays inside the block exactly when the room it finds is at its end.** -/
theorem pushData_ok_iff {rb : RingBuffer} (h : rb.Inv) {data : List Byte} :
    (∃ rb', rb.pushData fresh data = .ok rb') ↔ rb.TailFits data.length := by
  constructor
  · rintro ⟨rb', hok⟩ hroom
    have hnot : ¬ rb.cap - (rb.end_ - rb.start) < data.length := by
      unfold readableBytes at hroom
      omega
    simp only [pushData, hnot, if_false] at hok
    obtain ⟨msg, hput, -⟩ := Run.bind_eq_ok.1 hok
    obtain ⟨-, hle, -⟩ := memcpy_eq_ok.1 hput
    have := h.length_msg
    omega
  · intro hfits
    obtain ⟨rb', hok, -, -⟩ := pushData_spec h hfits
    exact ⟨rb', hok⟩

/-- A push that stays inside the block has appended. -/
theorem pushData_content {rb rb' : RingBuffer} (h : rb.Inv) {data : List Byte}
    (hok : rb.pushData fresh data = .ok rb') : rb'.Inv ∧ rb'.content = rb.content ++ data := by
  obtain ⟨t, ht, hinv, hcont⟩ := pushData_spec h ((pushData_ok_iff h).1 ⟨rb', hok⟩)
  obtain rfl := Run.ok_unique hok ht
  exact ⟨hinv, hcont⟩

/-- A push opens no gap in front. -/
theorem pushData_start {rb rb' : RingBuffer} {data : List Byte} (hok : rb.pushData fresh data = .ok rb')
    (h : rb.start = 0) : rb'.start = 0 := by
  unfold pushData at hok
  simp only at hok
  split_ifs at hok
  · obtain ⟨m1, -, hok⟩ := Run.bind_eq_ok.1 hok
    obtain ⟨m2, -, hok⟩ := Run.bind_eq_ok.1 hok
    rw [← Except.ok.inj hok]
  · obtain ⟨m1, -, hok⟩ := Run.bind_eq_ok.1 hok
    obtain ⟨m2, -, hok⟩ := Run.bind_eq_ok.1 hok
    rw [← Except.ok.inj hok]
  · obtain ⟨m1, -, hok⟩ := Run.bind_eq_ok.1 hok
    rw [← Except.ok.inj hok]
    exact h

/-- A push of nothing does nothing. -/
theorem pushData_nil {rb : RingBuffer} (h : rb.Inv) (fresh : Nat → Byte) :
    rb.pushData fresh [] = .ok rb := by
  obtain ⟨hstart, hle, hcap, hlen⟩ := h
  have hroom : ¬ rb.cap - (rb.end_ - rb.start) < (([] : List Byte).length : Int) := by
    rw [List.length_nil]
    omega
  have hput : memcpy rb.msg rb.end_ [] = .ok rb.msg := by
    refine memcpy_eq_ok.2 ⟨by omega, ?_, by simp⟩
    rw [List.length_nil]
    omega
  simp only [pushData, hroom, if_false, hput]
  simp only [Run.ok_bind, List.length_nil, Nat.cast_zero, add_zero]
  rfl

/-- A buffer without a gap in front of its bytes takes any push. -/
theorem tailFits_of_start_eq_zero {rb : RingBuffer} (h : rb.start = 0) (size : Int) :
    rb.TailFits size := by
  intro hroom
  unfold readableBytes at hroom
  omega

/-! ## Runs -/

/-- An operation on a buffer. -/
inductive Op where
  /-- A push; a block that it allocates holds `fresh`. -/
  | push (data : List Byte) (fresh : Nat → Byte)
  | release (size : Int)

/-- One operation. -/
def step (rb : RingBuffer) : Op → Except Fault RingBuffer
  | .push data fresh => rb.pushData fresh data
  | .release size => rb.releaseBytes size

/-- No more is released than there is to read. -/
def Legal (rb : RingBuffer) : Op → Prop
  | .push _ _ => True
  | .release size => 0 ≤ size ∧ size ≤ rb.readableBytes

/-- The bounds of a buffer and of its block. -/
def Bounds (rb : RingBuffer) : Prop :=
  0 ≤ rb.start ∧ rb.start ≤ rb.end_ ∧ rb.end_ ≤ rb.cap ∧ (rb.msg.length : Int) = rb.cap

/-- A push that finds room in the buffer finds it at the end of the block. -/
def OpFits (rb : RingBuffer) : Op → Prop
  | .push data _ => rb.TailFits data.length
  | .release _ => True

theorem step_spec {rb : RingBuffer} {op : Op} (h : rb.Inv) (hlegal : rb.Legal op)
    (hfits : rb.OpFits op) : ∃ rb', rb.step op = .ok rb' ∧ rb'.Inv := by
  cases op with
  | push data fresh =>
    obtain ⟨rb', hok, hinv, -⟩ := pushData_spec h hfits
    exact ⟨rb', hok, hinv⟩
  | release size =>
    obtain ⟨rb', hok, hinv, -, -⟩ := releaseBytes_spec h hlegal.1 hlegal.2
    exact ⟨rb', hok, hinv⟩

/-- **Ring buffer bounds.**  In a run of pushes and legal releases from `ring_buffer_new` the
positions stay in order and every copy inside its block, `memcpy` being checked against the
block it writes to, if and only if no push finds its room in front of the waiting bytes. -/
theorem safely_iff_tailFits (ops : List Op) (hlegal : Run.Meets step Legal new ops) :
    Run.Safely step Bounds new ops ↔ Run.Meets step OpFits new ops := by
  refine Run.safely_iff_meets ?_ ?_ ?_ new_inv hlegal
  · intro rb h
    exact ⟨h.start_nonneg, h.start_le_end, h.end_le_cap, h.length_msg⟩
  · intro rb op h hl hf
    exact step_spec h hl hf
  · intro rb op rb' h _ hok
    cases op with
    | push data fresh => exact (pushData_ok_iff h).1 ⟨rb', hok⟩
    | release size => trivial

/-- Three bytes in, two out, four in: the block grows with a gap in front of the last byte. -/
def growing : List Op := [.push (str "abc") stale, .release 2, .push (str "defg") stale]

theorem growing_meets : Run.Meets step Legal new growing ∧ Run.Meets step OpFits new growing := by
  have h1 : step new (.push (str "abc") stale) = .ok ⟨0, 3, 3, str "abc"⟩ := by decide +kernel
  have h2 : step ⟨0, 3, 3, str "abc"⟩ (.release 2) = .ok ⟨2, 3, 3, [0, 0] ++ str "c"⟩ := by
    decide +kernel
  refine ⟨⟨trivial, fun s1 hs1 => ⟨?_, fun s2 _ => ⟨trivial, fun _ _ => trivial⟩⟩⟩,
    ⟨show new.TailFits 3 by decide, fun s1 hs1 => ⟨trivial, fun s2 hs2 => ⟨?_, fun _ _ => trivial⟩⟩⟩⟩
  · obtain rfl := Run.ok_unique h1 hs1
    exact ⟨by decide, by decide⟩
  · obtain rfl := Run.ok_unique h1 hs1
    obtain rfl := Run.ok_unique h2 hs2
    exact (show TailFits ⟨2, 3, 3, [0, 0] ++ str "c"⟩ 4 by decide)

/-- A run with a release, and a push that has to make room behind the gap it leaves. -/
theorem safely_growing : Run.Safely step Bounds new growing :=
  (safely_iff_tailFits growing growing_meets.1).2 growing_meets.2

/-- **Four bytes in, two out, two in**: the buffer has two free bytes, both in front, and the
last push writes its two behind the block. -/
theorem pushData_overflow :
    let ops : List Op := [.push (str "abcd") stale, .release 2, .push (str "ef") stale]
    Run.Meets step Legal new ops ∧ ¬ Run.Safely step Bounds new ops := by
  intro ops
  have h1 : step new (.push (str "abcd") stale) = .ok ⟨0, 4, 4, str "abcd"⟩ := by decide +kernel
  have h2 : step ⟨0, 4, 4, str "abcd"⟩ (.release 2) = .ok ⟨2, 4, 4, [0, 0] ++ str "cd"⟩ := by
    decide +kernel
  have h3 : step ⟨2, 4, 4, [0, 0] ++ str "cd"⟩ (.push (str "ef") stale) = .error .outOfBounds := by
    decide +kernel
  constructor
  · refine ⟨trivial, fun s1 hs1 => ⟨?_, fun s2 _ => ⟨trivial, fun s3 _ => trivial⟩⟩⟩
    obtain rfl := Run.ok_unique h1 hs1
    exact ⟨by decide, by decide⟩
  · intro hsafe
    obtain ⟨rb, hrun, -⟩ := hsafe ops (List.prefix_refl _)
    simp only [ops, Run.run_cons, h1, h2, h3, Run.ok_bind, Run.error_bind] at hrun
    cases hrun

/-! ## First in, first out -/

/-- All bytes that are pushed. -/
def pushed : List Op → List Byte
  | [] => []
  | .push data _ :: ops => data ++ pushed ops
  | .release _ :: ops => pushed ops

/-- How many bytes are released. -/
def released : List Op → Nat
  | [] => 0
  | .push _ _ :: ops => released ops
  | .release size :: ops => size.toNat + released ops

/-- What a run makes of a buffer: the bytes that waited and those that are pushed, without those
that are released. -/
theorem run_content {rb : RingBuffer} (h : rb.Inv) (ops : List Op)
    (hlegal : Run.Meets step Legal rb ops) (hfits : Run.Meets step OpFits rb ops) :
    ∃ rb', Run.run step rb ops = .ok rb' ∧ rb'.Inv ∧
      released ops ≤ (rb.content ++ pushed ops).length ∧
        rb'.content = (rb.content ++ pushed ops).drop (released ops) := by
  induction ops generalizing rb with
  | nil => exact ⟨rb, rfl, h, Nat.zero_le _, by simp [pushed, released]⟩
  | cons op ops ih =>
    cases op with
    | push data fresh =>
      obtain ⟨t, ht, hinv, hcont⟩ := pushData_spec h hfits.1
      obtain ⟨rb', hrun, hinv', hle, hcont'⟩ := ih hinv (hlegal.2 t ht) (hfits.2 t ht)
      rw [hcont, List.append_assoc] at hle hcont'
      exact ⟨rb', by rw [Run.run_cons, step, ht, Run.ok_bind, hrun], hinv', hle, hcont'⟩
    | release size =>
      obtain ⟨t, ht, hinv, -, hcont⟩ := releaseBytes_spec h hlegal.1.1 hlegal.1.2
      obtain ⟨rb', hrun, hinv', hle, hcont'⟩ := ih hinv (hlegal.2 t ht) (hfits.2 t ht)
      have hsize : size.toNat ≤ rb.content.length := by
        have hlen := length_content h
        have hbound := hlegal.1.2
        omega
      -- nothing of what is pushed later is released here
      rw [hcont, ← List.drop_append_of_le_length hsize] at hle hcont'
      rw [List.length_drop] at hle
      have hlong : (rb.content ++ pushed ops).length = rb.content.length + (pushed ops).length :=
        List.length_append
      refine ⟨rb', by rw [Run.run_cons, step, ht, Run.ok_bind, hrun], hinv', ?_, ?_⟩
      · show size.toNat + released ops ≤ (rb.content ++ pushed ops).length
        omega
      · rw [hcont', List.drop_drop]
        rfl

/-- **A ring buffer is a queue.**  In a run from `ring_buffer_new`, in which no push finds its room
in front of the waiting bytes, the bytes that wait are at any time those pushed so far without
those released so far; they are what `ring_buffer_get_msg` and `ring_buffer_readable_bytes`
show. -/
theorem fifo (ops : List Op) (hlegal : Run.Meets step Legal new ops)
    (hfits : Run.Meets step OpFits new ops) : ∀ before, before <+: ops →
      ∃ rb, Run.run step new before = .ok rb ∧ rb.Bounds ∧
        released before ≤ (pushed before).length ∧
        rb.content = (pushed before).drop (released before) ∧
        rb.getMsg = (if rb.content = [] then none else some rb.start, (rb.content.length : Int)) ∧
        rb.readableBytes = rb.content.length := by
  intro before hbefore
  obtain ⟨rb, hrun, hinv, hle, hcont⟩ :=
    run_content new_inv before (hlegal.of_prefix hbefore) (hfits.of_prefix hbefore)
  have hlen := length_content hinv
  refine ⟨rb, hrun, ⟨hinv.start_nonneg, hinv.start_le_end, hinv.end_le_cap, hinv.length_msg⟩, hle,
    hcont, ?_, hlen.symm⟩
  have hempty : rb.end_ = rb.start ↔ rb.content = [] := by
    rw [← List.length_eq_zero_iff]
    unfold readableBytes at hlen
    omega
  unfold getMsg
  rw [hlen]
  by_cases hnil : rb.content = []
  · rw [if_pos hnil, if_pos (hempty.2 hnil)]
    rfl
  · rw [if_neg hnil, if_neg (mt hempty.1 hnil)]
    rfl

/-- The bytes of such a run. -/
theorem fifo_growing : ∃ rb, Run.run step new growing = .ok rb ∧ rb.content = str "cdefg" := by
  obtain ⟨rb, hrun, -, -, hcont, -⟩ := fifo growing growing_meets.1 growing_meets.2 _
    (List.prefix_refl _)
  exact ⟨rb, hrun, hcont⟩

end RingBuffer

end MWebServer
