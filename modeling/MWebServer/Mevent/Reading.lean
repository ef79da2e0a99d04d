import MWebServer.Mevent.Connection

/-!
# Reading into a buffer (`read_buffer`)

`read_buffer` lets `readv` fill the free end of the read buffer first and an array on the
stack behind it.  The bytes of the array are pushed; those of the first vector are said to
be there by moving `end`.  But the vector begins at `ring_buffer_readable_start`, where the
waiting bytes begin, and not where they end.

* `readBuffer_window` — what the first vector leaves in the buffer.
* `readBuffer_appends_iff` — so a read appends when nothing waits, or when the buffer has no
  free end; otherwise only the right bytes in the right places hide that it does not.
-/

namespace MWebServer

namespace RingBuffer

/-- The buffer once the first vector of `readv` has received `first`. -/
def window (rb : RingBuffer) (first : List Byte) : RingBuffer :=
  { rb with
    msg := rb.msg.take rb.start.toNat ++ (first ++ rb.msg.drop (rb.start.toNat + first.length))
    end_ := rb.end_ + first.length }

/-- `first` is what waits, followed by itself, as far as it goes, and the block holds the rest of
this behind it. -/
def Coincides (rb : RingBuffer) (first : List Byte) : Prop :=
  first <+: rb.content ++ first ∧
    (rb.msg.drop (rb.start.toNat + first.length)).take rb.content.length =
      (rb.content ++ first).drop first.length

instance (rb : RingBuffer) (first : List Byte) : Decidable (rb.Coincides first) :=
  inferInstanceAs (Decidable (_ ∧ _))

variable {rb : RingBuffer} {first : List Byte}

/-- The copy that `readv` makes stays inside the block. -/
theorem memcpy_window (h : rb.Inv) (hfits : (first.length : Int) ≤ rb.availableBytes) :
    memcpy rb.msg rb.readableStart first = .ok (rb.window first).msg := by
  obtain ⟨s, e, hs, he, hcap, hse, hem⟩ := h.exists_nat
  unfold availableBytes at hfits
  rw [memcpy_eq_ok, readableStart, hs]
  refine ⟨Int.natCast_nonneg s, by omega, ?_⟩
  unfold window
  rw [hs]

theorem window_spec (h : rb.Inv) (hfits : (first.length : Int) ≤ rb.availableBytes) :
    (rb.window first).Inv ∧ (rb.window first).content =
      first ++ (rb.msg.drop (rb.start.toNat + first.length)).take rb.content.length := by
  have hlen := length_of_memcpy (memcpy_window h hfits)
  have hwait := length_content h
  obtain ⟨s, e, hs, he, hcap, hse, hem⟩ := h.exists_nat
  unfold availableBytes at hfits
  unfold readableBytes at hwait
  refine ⟨⟨h.start_nonneg, ?_, ?_, ?_⟩, ?_⟩
  · show rb.start ≤ rb.end_ + first.length
    omega
  · show rb.end_ + first.length ≤ rb.cap
    omega
  · rw [hlen]
    exact h.length_msg
  · have hend : (rb.window first).end_ = (e + first.length : Nat) := by
      show rb.end_ + first.length = _
      rw [he]
      rfl
    have hmsg : (rb.window first).msg =
        rb.msg.take s ++ (first ++ rb.msg.drop (s + first.length)) := by
      unfold window
      rw [hs, Int.toNat_natCast]
    have hlong : e + first.length - s = first.length + rb.content.length := by omega
    have hcontent : (rb.window first).content =
        ((rb.window first).msg.drop s).take (e + first.length - s) := content_eq hs hend
    rw [hcontent, hmsg, hlong, hs, Int.toNat_natCast,
      List.drop_left' (by rw [List.length_take]; omega), List.take_length_add_append]

/-- **The first vector appends exactly when nothing shows that it begins where the waiting bytes
begin.** -/
theorem window_content_iff (h : rb.Inv) (hfits : (first.length : Int) ≤ rb.availableBytes) :
    (rb.window first).content = rb.content ++ first ↔
      rb.content = [] ∨ first = [] ∨ rb.Coincides first := by
  rw [(window_spec h hfits).2]
  have hsplit : ∀ tail, first ++ tail = rb.content ++ first ↔
      first <+: rb.content ++ first ∧ tail = (rb.content ++ first).drop first.length := by
    intro tail
    constructor
    · intro heq
      exact ⟨⟨tail, heq⟩, by rw [← heq, List.drop_left]⟩
    · rintro ⟨⟨rest, hrest⟩, rfl⟩
      rw [← hrest, List.drop_left]
  rw [hsplit]
  constructor
  · exact fun hall => Or.inr (Or.inr hall)
  · rintro (hnil | rfl | hall)
    · simp [hnil]
    · refine ⟨List.nil_prefix, ?_⟩
      -- nothing is written, and what waits is what waited
      have hwait := length_content h
      unfold readableBytes at hwait
      simp only [List.length_nil, Nat.add_zero, List.append_nil, List.drop_zero]
      show _ = (rb.msg.drop rb.start.toNat).take (rb.end_ - rb.start).toNat
      congr 1
      omega
    · exact hall

end RingBuffer

namespace Session

variable {H : Type} {s : Session H} {fresh : Nat → Byte} {data : List Byte}

/-- A read of `data` leaves it in the read buffer, behind what was there. -/
def Appends (s : Session H) (fresh : Nat → Byte) (data : List Byte) : Prop :=
  ∃ s', s.readBuffer fresh (some data) = .ok ((data.length : Int), s') ∧
    s'.conn.ringBufferRead.content = s.conn.ringBufferRead.content ++ data

/-- The part of a read that goes into the buffer directly. -/
def firstVector (s : Session H) (data : List Byte) : List Byte :=
  data.take s.conn.ringBufferRead.availableBytes.toNat

theorem length_firstVector (h : s.conn.ringBufferRead.Inv) (data : List Byte) :
    ((s.firstVector data).length : Int) ≤ s.conn.ringBufferRead.availableBytes := by
  have hle := h.end_le_cap
  unfold firstVector RingBuffer.availableBytes
  rw [List.length_take]
  omega

/-- A read: the first vector is in the buffer, and the rest is pushed. -/
theorem readBuffer_window (h : s.conn.ringBufferRead.Inv) (hne : data ≠ []) :
    s.readBuffer fresh (some data) =
      if (data.length : Int) ≤ s.conn.ringBufferRead.availableBytes then
        .ok ((data.length : Int), s.touchConn.setRead (s.conn.ringBufferRead.window data))
      else (s.conn.ringBufferRead.window (s.firstVector data)).pushData
          fresh (data.drop s.conn.ringBufferRead.availableBytes.toNat) >>= fun rb =>
        .ok ((data.length : Int), s.touchConn.setRead rb) := by
  have hcopy := RingBuffer.memcpy_window h (length_firstVector h data)
  have hlen : data.length ≠ 0 := mt List.eq_nil_of_length_eq_zero hne
  have hroom : 0 ≤ s.conn.ringBufferRead.availableBytes := sub_nonneg.2 h.end_le_cap
  have hconn : s.touchConn.conn = s.conn := rfl
  unfold readBuffer
  simp only [hconn, if_neg hlen]
  rw [show data.take s.conn.ringBufferRead.availableBytes.toNat = s.firstVector data from rfl, hcopy,
    Run.ok_bind]
  split_ifs with hall
  · rw [show s.firstVector data = data from List.take_of_length_le (by omega)]
    rfl
  · have hfirst : ((s.firstVector data).length : Int) = s.conn.ringBufferRead.availableBytes := by
      unfold firstVector
      rw [List.length_take]
      omega
    rw [← hfirst]
    rfl

/-- A read keeps the buffer sound, wherever it puts its bytes. -/
theorem readBuffer_inv {incoming : Option (List Byte)} {n : Int} {s' : Session H}
    (h : s.conn.ringBufferRead.Inv) (hok : s.readBuffer fresh incoming = .ok (n, s')) :
    s'.conn.ringBufferRead.Inv := by
  cases incoming with
  | none =>
    obtain rfl := (Prod.mk.inj (Except.ok.inj hok)).2
    exact h
  | some data =>
    by_cases hnil : data = []
    · subst hnil
      obtain rfl := (Prod.mk.inj (Except.ok.inj hok)).2
      exact h
    · rw [readBuffer_window h hnil] at hok
      split_ifs at hok with hall
      · obtain rfl := (Prod.mk.inj (Except.ok.inj hok)).2
        exact (RingBuffer.window_spec h hall).1
      · obtain ⟨rb, hpush, hok⟩ := Run.bind_eq_ok.1 hok
        obtain rfl := (Prod.mk.inj (Except.ok.inj hok)).2
        exact (RingBuffer.pushData_content
          (RingBuffer.window_spec h (length_firstVector h data)).1 hpush).1

/-- **Reading appends exactly when what does not fit makes the buffer grow, and what does fit meets
no waiting bytes.**  It fits if it is no longer than the free end of the buffer; the buffer grows if
what is left then is longer than the gap in front of the waiting bytes.  Waiting bytes are met
unless the buffer has none or has no free end, or by coincidence. -/
theorem readBuffer_appends_iff (s : Session H) (fresh : Nat → Byte) (data : List Byte)
    (h : s.conn.ringBufferRead.Inv) (hne : data ≠ []) :
    s.Appends fresh data ↔
      ((data.length : Int) ≤ s.conn.ringBufferRead.availableBytes ∨
        s.conn.ringBufferRead.start < data.length - s.conn.ringBufferRead.availableBytes) ∧
      (s.conn.ringBufferRead.content = [] ∨ s.conn.ringBufferRead.availableBytes = 0 ∨
        s.conn.ringBufferRead.Coincides (s.firstVector data)) := by
  have hroom : 0 ≤ s.conn.ringBufferRead.availableBytes := sub_nonneg.2 h.end_le_cap
  have hfirst : s.firstVector data = [] ↔ s.conn.ringBufferRead.availableBytes = 0 := by
    unfold firstVector
    rw [List.take_eq_nil_iff, or_iff_left hne]
    omega
  have hiff := RingBuffer.window_content_iff h (length_firstVector h data)
  rw [hfirst] at hiff
  rw [← hiff]
  unfold Appends
  rw [readBuffer_window h hne]
  split_ifs with hall
  · rw [show s.firstVector data = data from List.take_of_length_le (by omega)]
    constructor
    · rintro ⟨s', hok, hcont⟩
      obtain rfl := (Prod.mk.inj (Except.ok.inj hok)).2
      exact ⟨Or.inl hall, hcont⟩
    · rintro ⟨-, hcont⟩
      exact ⟨_, rfl, hcont⟩
  · have hinv := (RingBuffer.window_spec h (length_firstVector h data)).1
    have hsplit : data = s.firstVector data ++
        data.drop s.conn.ringBufferRead.availableBytes.toNat := (List.take_append_drop _ _).symm
    -- the buffer is full now, and its free bytes are those in front
    have hgrows : (s.conn.ringBufferRead.window (s.firstVector data)).TailFits
        (data.drop s.conn.ringBufferRead.availableBytes.toNat).length ↔
        s.conn.ringBufferRead.start < data.length - s.conn.ringBufferRead.availableBytes := by
      have hlen : ((s.firstVector data).length : Int) = s.conn.ringBufferRead.availableBytes := by
        unfold firstVector
        rw [List.length_take]
        omega
      unfold RingBuffer.TailFits RingBuffer.readableBytes RingBuffer.window
      simp only [hlen, List.length_drop]
      unfold RingBuffer.availableBytes at hall hroom ⊢
      omega
    constructor
    · rintro ⟨s', hok, hcont⟩
      obtain ⟨rb, hpush, hok⟩ := Run.bind_eq_ok.1 hok
      obtain rfl := (Prod.mk.inj (Except.ok.inj hok)).2
      refine ⟨Or.inr (hgrows.1 ((RingBuffer.pushData_ok_iff hinv).1 ⟨rb, hpush⟩)), ?_⟩
      have hcont : rb.content = s.conn.ringBufferRead.content ++ data := hcont
      rw [(RingBuffer.pushData_content hinv hpush).2] at hcont
      nth_rewrite 3 [hsplit] at hcont
      rw [← List.append_assoc] at hcont
      exact List.append_cancel_right hcont
    · rintro ⟨hsize, hcont⟩
      obtain ⟨rb, hpush, -, hrb⟩ :=
        RingBuffer.pushData_spec hinv (hgrows.2 (hsize.resolve_left hall))
      refine ⟨_, by rw [hpush, Run.ok_bind], ?_⟩
      show rb.content = _
      rw [hrb, hcont, List.append_assoc, ← hsplit]

/-! ## Three reads, and nothing is released -/

/-- A connection with the read buffer `rb`. -/
def withRead (rb : RingBuffer) : Session Unit where
  conn := ⟨5, rb, .new, .open, 0⟩
  ev := ⟨5, ⟨true, true, false, false, false⟩, ⟨false, false, false, false, false⟩, true⟩
  handler := ()
  connLive := true
  evLive := true
  handlerLive := true
  readHeap := .new
  writeHeap := .new
  frees := 0
  disconnects := 0
  touchedDead := false
  kernel := ⟨[], 0, 0, 2, fun _ => none, [], []⟩

/-- The first read goes into a new buffer, and one that finds the block full makes it larger. -/
theorem readBuffer_appends_full : (withRead .new).Appends stale (str "ab") ∧
    (withRead ⟨0, 2, 2, str "ab"⟩).Appends stale (str "cd") :=
  ⟨(readBuffer_appends_iff (withRead .new) stale (str "ab") RingBuffer.new_inv (by decide)).2
      ⟨Or.inr (by decide), Or.inl rfl⟩,
    (readBuffer_appends_iff (withRead ⟨0, 2, 2, str "ab"⟩) stale (str "cd")
      ⟨le_rfl, by decide, le_rfl, rfl⟩ (by decide)).2 ⟨Or.inr (by decide), Or.inr (Or.inl rfl)⟩⟩

/-- **The third read overwrites the first byte**: `ab` and `c` are read and wait, in a block of
five bytes, and `d` is put in the place of `a`. -/
theorem not_readBuffer_appends : ¬ ∀ (s : Session Unit) (fresh : Nat → Byte) (data : List Byte),
    s.conn.ringBufferRead.Inv → data ≠ [] →
      (data.length : Int) ≤ s.conn.ringBufferRead.availableBytes + 65536 → s.Appends fresh data := by
  intro h
  let reads := (withRead .new).readBuffer stale (some (str "ab")) >>= fun r =>
    r.2.readBuffer stale (some (str "c"))
  have hwait : reads.map (fun r => r.2.conn.ringBufferRead) = .ok ⟨0, 3, 5, str "abc??"⟩ := by
    decide +kernel
  have hthird : (reads >>= fun r => r.2.readBuffer stale (some (str "d"))).map
      (fun r => r.2.conn.ringBufferRead.content) = .ok (str "dbc?") := by
    decide +kernel
  obtain ⟨⟨n, s⟩, hreads, hs⟩ := Run.map_eq_ok.1 hwait
  have hs : s.conn.ringBufferRead = ⟨0, 3, 5, str "abc??"⟩ := hs
  obtain ⟨s', hok, hcont⟩ := h s stale (str "d")
    (by rw [hs]; exact ⟨by decide, by decide, by decide, rfl⟩) (by decide) (by rw [hs]; decide)
  rw [hreads, Run.ok_bind, hok] at hthird
  exact absurd (hcont.symm.trans (Except.ok.inj hthird)) (by rw [hs]; decide +kernel)

end Session

end MWebServer
