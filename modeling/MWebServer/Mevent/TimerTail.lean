import MWebServer.Mevent.Timer

/-!
# The slots behind the timers (`timer_manager_free`)

`timer_manager_free` frees what the active array points to, up to the first `NULL`.
It relies on the slots behind the timers being empty.  A push keeps them so; a pop
moves the timers to the other array, of which it clears the slots from the old `size`
on only, and the pop of the last timer clears nothing.

* `push_queues`, `pop_queues`, `update_queues` — what a call does to both arrays.
* `Counts` — sizes alone, with the number of slots of the other array that are in use.
* `tailEmpty_iff` — the runs in which the slots behind the timers are always empty.
-/

namespace MWebServer

open StableQueue

namespace TimerManager

/-! ## Freeing a manager -/

/-- The loop of `timer_manager_free`: the entries from `i` on, up to the first `NULL`. -/
def freeLoop (queue : List (Option Nat)) : Nat → Nat → Heap → Except Fault Heap
  | _, 0, heap => .ok heap
  | i, n + 1, heap => do
      let p ← slot queue i
      match p with
      | some p => do
          let heap ← heap.free (some p)
          freeLoop queue (i + 1) n heap
      | none => .ok heap

/-- `timer_manager_free`, on a manager that is not `NULL`: what it leaves of the timers.  The
arrays are freed after them. -/
def free (m : TimerManager) : Except Fault Heap :=
  freeLoop (if m.index = 1 then m.queue1 else m.queue0) 0 m.cap m.heap

/-- The array that the next pop moves the timers to. -/
def inactive (m : TimerManager) : List (Option Nat) := if m.index = 0 then m.queue1 else m.queue0

/-- One call, with the addresses of the live timers: those pushed and not yet popped. -/
def ownStep : TimerManager × List Nat → Op → Except Fault (TimerManager × List Nat)
  | (m, live), .push ti => do
      let m' ← m.push ti
      pure (m', live ++ [m.heap.length])
  | (m, live), .pop => do
      let (_, m') ← m.pop
      pure (m', match m.top with
        | some p => live.erase p
        | none => live)
  | (m, live), .update timeout => do
      let m' ← m.update timeout
      pure (m', live)

/-- The active array holds the live timers and nothing else, so that freeing the manager frees
them, each once. -/
structure TailEmpty (s : TimerManager × List Nat) : Prop where
  size : s.1.size = s.2.length
  nodup : s.2.Nodup
  slots : s.1.active = s.2.map some ++ List.replicate (s.1.cap - s.1.size) none
  frees : ∃ heap, s.1.free = .ok heap ∧
    ∀ p, heap[p]? = if p ∈ s.2 then some none else s.1.heap[p]?

/-- The loop frees the live timers and ends behind them. -/
theorem freeLoop_live {queue : List (Option Nat)} (zs : List Nat) {i n : Nat} {heap : Heap}
    (hnodup : zs.Nodup) (hlive : ∀ p ∈ zs, ∃ t, heap[p]? = some (some t))
    (hzs : ∀ k p, zs[k]? = some p → queue[i + k]? = some (some p)) (hn : zs.length ≤ n)
    (hend : zs.length < n → queue[i + zs.length]? = some none) :
    ∃ heap', freeLoop queue i n heap = .ok heap' ∧
      ∀ p, heap'[p]? = if p ∈ zs then some none else heap[p]? := by
  induction zs generalizing i n heap with
  | nil =>
    refine ⟨heap, ?_, fun p => by simp⟩
    cases n with
    | zero => rfl
    | succ n =>
      have hslot := slot_eq_ok (hend (by simp))
      rw [List.length_nil, Nat.add_zero] at hslot
      rw [freeLoop, hslot]
      rfl
  | cons z zs ih =>
    obtain ⟨hz, hnodup⟩ := List.nodup_cons.1 hnodup
    obtain ⟨t, ht⟩ := hlive z (by simp)
    obtain ⟨n, rfl⟩ : ∃ k, n = k + 1 := ⟨n - 1, by simp only [List.length_cons] at hn; omega⟩
    have hslot := slot_eq_ok (hzs 0 z rfl)
    rw [Nat.add_zero] at hslot
    have hfree : heap.free (some z) = .ok (heap.set z none) := by
      rw [Heap.free, deref_eq_ok ht]
      rfl
    obtain ⟨heap', hrun, hval⟩ := @ih (i + 1) n (heap.set z none) hnodup
      (fun p hp => by
        have hne : z ≠ p := fun h => hz (h ▸ hp)
        rw [List.getElem?_set_ne hne]
        exact hlive p (by simp [hp]))
      (fun k p hp => by rw [show i + 1 + k = i + (k + 1) by omega]; exact hzs (k + 1) p hp)
      (by simp only [List.length_cons] at hn; omega)
      (fun h => by
        have hnone := hend (by simp only [List.length_cons]; omega)
        rwa [List.length_cons, show i + (zs.length + 1) = i + 1 + zs.length by omega] at hnone)
    refine ⟨heap', ?_, fun p => ?_⟩
    · rw [freeLoop, hslot, Run.ok_bind]
      simp only [hfree, Run.ok_bind]
      exact hrun
    · rw [hval]
      by_cases hp : p ∈ zs
      · rw [if_pos hp, if_pos (by simp [hp])]
      · rw [if_neg hp]
        by_cases hpz : p = z
        · subst hpz
          rw [if_pos (by simp), List.getElem?_set_self (List.getElem?_eq_some_iff.1 ht).1]
        · rw [if_neg (by simp [hp, hpz]), List.getElem?_set_ne (Ne.symm hpz)]

section Lemmas

variable {m m' : TimerManager} {es : List (Nat × Timer)}

/-- Nothing stands behind the timers. -/
def NoTail (m : TimerManager) : Prop := ∀ i, m.size ≤ i → i < m.cap → m.active[i]? = some none

theorem Holds.active_eq (h : m.Holds es) (htail : m.NoTail) :
    m.active = (es.map Prod.fst).map some ++ List.replicate (m.cap - m.size) none := by
  refine List.ext_getElem? fun i => ?_
  have hact := h.length_active
  have hsize := h.size
  have hle := h.size_le
  by_cases hi : i < es.length
  · rw [List.getElem?_append_left (by simpa using hi), h.active_getElem? (List.getElem?_eq_getElem hi)]
    simp [hi]
  · rw [List.getElem?_append_right (by simpa using hi)]
    by_cases hc : i < m.cap
    · rw [htail i (by omega) hc, List.getElem?_replicate, if_pos]
      simp only [List.length_map]
      omega
    · rw [List.getElem?_eq_none (by omega), List.getElem?_eq_none]
      simp only [List.length_map, List.length_replicate]
      omega

/-- With no tail, freeing the manager frees the live timers. -/
theorem Holds.tailEmpty (h : m.Holds es) (htail : m.NoTail) :
    TailEmpty (m, es.map Prod.fst) := by
  refine ⟨by rw [List.length_map]; exact h.size, h.nodup, h.active_eq htail, ?_⟩
  have hqueue : (if m.index = 1 then m.queue1 else m.queue0) = m.active := by
    unfold TimerManager.active
    rcases h.index with hidx | hidx <;> simp [hidx]
  have hsize := h.size
  unfold free
  rw [hqueue]
  refine freeLoop_live (es.map Prod.fst) h.nodup (fun p hp => ?_) (fun k p hp => ?_)
    (by rw [List.length_map]; exact h.size_le) (fun hlt => ?_)
  · obtain ⟨e, he, rfl⟩ := List.mem_map.1 hp
    exact ⟨e.2, h.live e he⟩
  · rw [List.getElem?_map, Option.map_eq_some_iff] at hp
    obtain ⟨e, he, rfl⟩ := hp
    rw [Nat.zero_add]
    exact h.active_getElem? he
  · rw [List.length_map] at hlt ⊢
    rw [Nat.zero_add]
    exact htail _ (by omega) hlt

/-- What stands behind the timers breaks it. -/
theorem not_tailEmpty {live : List Nat} {i : Nat} (hi : m.size ≤ i) (hlt : i < m.cap)
    (hslot : m.active[i]? ≠ some none) : ¬ TailEmpty (m, live) := by
  rintro ⟨hsize, -, hslots, -⟩
  simp only at hsize hslots
  refine hslot ?_
  rw [hslots, List.getElem?_append_right (by rw [List.length_map]; omega), List.getElem?_replicate,
    if_pos]
  rw [List.length_map]
  omega

/-! ## What a call does to the arrays -/

@[simp] theorem inactive_setActive (m : TimerManager) (q : List (Option Nat)) :
    (m.setActive q).inactive = m.inactive := by
  unfold setActive inactive
  split_ifs <;> simp_all

@[simp] theorem setActive_size (m : TimerManager) (q : List (Option Nat)) :
    (m.setActive q).size = m.size := by
  unfold setActive
  split_ifs <;> rfl

/-- An update touches neither array. -/
theorem update_queues {d : Int} (h : m.update d = .ok m') :
    m'.active = m.active ∧ m'.inactive = m.inactive ∧ m'.size = m.size ∧ m'.cap = m.cap := by
  obtain ⟨heap, -, h⟩ := Run.bind_eq_ok.1 h
  rw [← Except.ok.inj h]
  exact ⟨rfl, rfl, rfl, rfl⟩

/-- Growing leaves no pointer behind. -/
theorem growIfFull_queues (hlen : m.active.length = m.cap) (hsize : m.size ≤ m.cap)
    (h : m.growIfFull = .ok m') : m'.size = m.size ∧
      (m.size < m.cap ∧ m' = m ∨ m.size = m.cap ∧ m'.cap = m.cap * 2 ∧
        m'.active = m.active ++ List.replicate m.cap none ∧
        m'.inactive = List.replicate (m.cap * 2) none) := by
  unfold growIfFull at h
  by_cases hfull : m.size ≥ m.cap
  · have heq : m.size = m.cap := by omega
    rw [if_pos hfull] at h
    obtain ⟨queue, hcopy, h⟩ := Run.bind_eq_ok.1 h
    rw [copySlots_eq_ok (by omega) (by rw [List.length_replicate]; omega)] at hcopy
    rw [← Except.ok.inj h]
    refine ⟨setActive_size _ _, Or.inr ⟨heq, setActive_cap _ _, ?_, ?_⟩⟩
    · rw [active_setActive, ← Except.ok.inj hcopy, heq, ← hlen, List.take_length,
        List.drop_replicate, hlen, show m.cap * 2 - m.cap = m.cap by omega]
    · rw [inactive_setActive]
      unfold inactive
      split_ifs <;> rfl
  · rw [if_neg hfull] at h
    rw [← Except.ok.inj h]
    exact ⟨rfl, Or.inl ⟨by omega, rfl⟩⟩

/-- A push writes the slot behind the timers. -/
theorem push_queues {ti : Timer} (h : m.push ti = .ok m') :
    ∃ m₁ p, m.growIfFull = .ok m₁ ∧ m'.size = m₁.size + 1 ∧ m'.cap = m₁.cap ∧
      m'.active = m₁.active.set m₁.size (some p) ∧ m'.inactive = m₁.inactive := by
  obtain ⟨m₁, hgrow, h⟩ := Run.bind_eq_ok.1 h
  obtain ⟨top, -, h⟩ := Run.bind_eq_ok.1 h
  obtain ⟨queue, hset, h⟩ := Run.bind_eq_ok.1 h
  unfold setSlot at hset
  split_ifs at hset
  rw [← Except.ok.inj h, ← Except.ok.inj hset]
  refine ⟨m₁, _, hgrow, setActive_size _ _, setActive_cap _ _, active_setActive _ _, ?_⟩
  rw [inactive_setActive]
  rfl

/-! ### Pop -/

/-- The loop of `timer_manager_pop` over timers: the first array stays, and the second is not
touched from the slot `j` on. -/
theorem popRun_frame {heap : Heap} {size k : Nat} (n : Nat) {i : Nat} {s s' : PopState}
    (hi : i + n ≤ size) (h : Run.run (popStep heap size k) s (List.range' i n) = .ok s') :
    s'.queue0 = s.queue0 ∧ s'.j + (if i ≤ k ∧ k < i + n then 1 else 0) = s.j + n ∧
      ∀ q, s'.j ≤ q → s'.queue1[q]? = s.queue1[q]? := by
  induction n generalizing i s with
  | zero =>
    rw [← Except.ok.inj h]
    exact ⟨rfl, by simp, fun q _ => rfl⟩
  | succ n ih =>
    rw [List.range'_succ, Run.run_cons] at h
    obtain ⟨s₁, hstep, h⟩ := Run.bind_eq_ok.1 h
    obtain ⟨h0, hj, hq⟩ := ih (by omega) h
    unfold popStep at hstep
    rw [if_pos (by omega)] at hstep
    by_cases hk : i = k
    · -- the popped timer is passed over
      rw [if_pos hk] at hstep
      obtain rfl : s = s₁ := Except.ok.inj hstep
      refine ⟨h0, ?_, hq⟩
      rw [if_neg (by omega)] at hj
      rw [if_pos (by omega)]
      omega
    · rw [if_neg hk] at hstep
      obtain ⟨p, -, hstep⟩ := Run.bind_eq_ok.1 hstep
      obtain ⟨queue1, hset, hstep⟩ := Run.bind_eq_ok.1 hstep
      have hmoved : s₁.queue0 = s.queue0 ∧ s₁.j = s.j + 1 ∧ s₁.queue1 = queue1 := by
        split at hstep
        · rw [← Except.ok.inj hstep]
          exact ⟨rfl, rfl, rfl⟩
        · obtain ⟨t, -, hstep⟩ := Run.bind_eq_ok.1 hstep
          obtain ⟨t0, -, hstep⟩ := Run.bind_eq_ok.1 hstep
          split_ifs at hstep
          all_goals
            rw [← Except.ok.inj hstep]
            exact ⟨rfl, rfl, rfl⟩
      unfold setSlot at hset
      split_ifs at hset
      have hqueue : queue1 = s.queue1.set s.j p := (Except.ok.inj hset).symm
      have hle : s.j + 1 ≤ s'.j := by
        rw [hmoved.2.1] at hj
        split_ifs at hj <;> omega
      refine ⟨h0.trans hmoved.1, ?_, fun q hge => ?_⟩
      · rw [hmoved.2.1] at hj
        split_ifs at hj ⊢ <;> omega
      · rw [hq q hge, hmoved.2.2, hqueue, List.getElem?_set_ne (by omega)]

/-- The loop of `timer_manager_pop` behind the timers: both arrays are cleared. -/
theorem popRun_cleared {heap : Heap} {size k : Nat} (n : Nat) {i : Nat} {s s' : PopState}
    (hi : size ≤ i) (h : Run.run (popStep heap size k) s (List.range' i n) = .ok s') :
    (∀ q, q < i → s'.queue0[q]? = s.queue0[q]? ∧ s'.queue1[q]? = s.queue1[q]?) ∧
      ∀ q, i ≤ q → q < i + n → s'.queue0[q]? = some none ∧ s'.queue1[q]? = some none := by
  induction n generalizing i s with
  | zero =>
    rw [← Except.ok.inj h]
    exact ⟨fun q _ => ⟨rfl, rfl⟩, fun q h1 h2 => by omega⟩
  | succ n ih =>
    rw [List.range'_succ, Run.run_cons] at h
    obtain ⟨s₁, hstep, h⟩ := Run.bind_eq_ok.1 h
    obtain ⟨hbefore, hafter⟩ := ih (by omega) h
    unfold popStep setSlot at hstep
    rw [if_neg (by omega)] at hstep
    obtain ⟨queue0, hset0, hstep⟩ := Run.bind_eq_ok.1 hstep
    obtain ⟨queue1, hset1, hstep⟩ := Run.bind_eq_ok.1 hstep
    split_ifs at hset0 hset1 with h0 h1
    rw [← Except.ok.inj hset0, ← Except.ok.inj hset1] at hstep
    rw [← Except.ok.inj hstep] at hbefore
    refine ⟨fun q hq => ?_, fun q hge hlt => ?_⟩
    · obtain ⟨e0, e1⟩ := hbefore q (by omega)
      rw [e0, e1, List.getElem?_set_ne (by omega), List.getElem?_set_ne (by omega)]
      exact ⟨rfl, rfl⟩
    · by_cases hqi : q = i
      · subst hqi
        obtain ⟨e0, e1⟩ := hbefore q (by omega)
        rw [e0, e1, List.getElem?_set_self h0, List.getElem?_set_self h1]
        exact ⟨rfl, rfl⟩
      · exact hafter q (by omega) (by omega)

/-- A pop of one of several timers exchanges the arrays: the slot that the timers leave in the
one they move to keeps what it had, and so do the slots they leave in the other. -/
theorem pop_queues (h : m.Holds es) (hsize : 2 ≤ m.size) {ret : Option Timer}
    (hpop : m.pop = .ok (ret, m')) :
    m'.size = m.size - 1 ∧ m'.cap = m.cap ∧
      m'.active[m.size - 1]? = m.inactive[m.size - 1]? ∧
      (∀ q, m.size ≤ q → q < m.cap → m'.active[q]? = some none) ∧
      (∀ q, q < m.size → m'.inactive[q]? = m.active[q]?) ∧
      ∀ q, m.size ≤ q → q < m.cap → m'.inactive[q]? = some none := by
  have hcap : m.size ≤ m.cap := by
    rw [h.size]
    exact h.size_le
  have htop : m.topIndex < m.size := by
    rcases h.top with ⟨hnil, -⟩ | ⟨e, hmin, -⟩
    · rw [h.size, hnil] at hsize
      exact absurd hsize (by decide)
    · rw [h.size]
      exact hmin.lt_length
  rw [pop, if_neg (by omega)] at hpop
  obtain ⟨t, -, hpop⟩ := Run.bind_eq_ok.1 hpop
  rw [if_neg (by omega)] at hpop
  obtain ⟨heap, -, hpop⟩ := Run.bind_eq_ok.1 hpop
  obtain ⟨s, hloop, hpop⟩ := Run.bind_eq_ok.1 hpop
  -- the loop over the timers, and behind them
  have hrange := List.range'_append_1 (s := 0) (m := m.size) (n := m.cap - m.size)
  rw [Nat.zero_add, show m.size + (m.cap - m.size) = m.cap by omega] at hrange
  rw [List.range_eq_range', ← hrange, Run.run_append] at hloop
  obtain ⟨s₁, hmove, hclear⟩ := Run.bind_eq_ok.1 hloop
  obtain ⟨h0, hj, h1⟩ := popRun_frame m.size (by omega) hmove
  obtain ⟨hbefore, hafter⟩ := popRun_cleared (m.cap - m.size) le_rfl hclear
  have hjval : s₁.j = m.size - 1 := by
    rw [if_pos ⟨Nat.zero_le _, by omega⟩] at hj
    simp only at hj
    omega
  have hact : m'.active = s.queue1 ∧ m'.inactive = s.queue0 ∧ m'.size = m.size - 1 ∧
      m'.cap = m.cap := by
    obtain rfl : _ = m' := congrArg Prod.snd (Except.ok.inj hpop)
    rcases h.index with hidx | hidx <;> simp [TimerManager.active, inactive, hidx]
  refine ⟨hact.2.2.1, hact.2.2.2, ?_, fun q hge hlt => ?_, fun q hlt => ?_, fun q hge hlt => ?_⟩
  · rw [hact.1, (hbefore _ (by omega)).2, h1 _ hjval.le]
    rfl
  · rw [hact.1]
    exact (hafter q hge (by omega)).2
  · rw [hact.2.1, (hbefore q hlt).1, h0]
    rfl
  · rw [hact.2.1]
    exact (hafter q hge (by omega)).1

end Lemmas

/-! ## Runs -/

/-- The sizes of a manager; `dirty` is the number of slots in use in the array that the next
pop moves the timers to. -/
structure Counts where
  size : Nat
  cap : Nat
  dirty : Nat

namespace Counts

/-- The sizes after `timer_manager_create`. -/
def create : Counts := ⟨0, maxTimerEvent, 0⟩

/-- What a call does to them. -/
def step (c : Counts) : Op → Except Fault Counts
  | .push _ =>
      if c.size ≥ c.cap then .ok ⟨c.size + 1, c.cap * 2, 0⟩
      else .ok { c with size := c.size + 1 }
  | .pop => if c.size ≤ 1 then .ok { c with size := 0 } else .ok ⟨c.size - 1, c.cap, c.size⟩
  | .update _ => .ok c

/-- The calls that leave nothing behind the timers: all but the pop of the last timer, and the
pop of one of several that are no more than the slots in use in the other array. -/
def Clean (c : Counts) : Op → Prop
  | .pop => c.size = 0 ∨ 2 ≤ c.size ∧ c.dirty < c.size
  | _ => True

end Counts

/-- The counts are those of the manager, which holds the live timers and nothing behind them. -/
structure Tracks (m : TimerManager) (es : List (Nat × Timer)) (c : Counts) : Prop where
  holds : m.Holds es
  noTail : m.NoTail
  size : c.size = m.size
  cap : c.cap = m.cap
  dirty : ∀ i, i < m.cap → (m.inactive[i]? = some none ↔ c.dirty ≤ i)

section Steps

variable {m : TimerManager} {es : List (Nat × Timer)} {c : Counts}

theorem create_tracks : Tracks create [] Counts.create where
  holds := create_holds
  noTail := fun i _ hi => by
    change (List.replicate maxTimerEvent (none : Option Nat))[i]? = _
    rw [List.getElem?_replicate, if_pos (show i < maxTimerEvent from hi)]
  size := rfl
  cap := rfl
  dirty := fun i hi => by
    change (List.replicate maxTimerEvent (none : Option Nat))[i]? = _ ↔ _
    rw [List.getElem?_replicate, if_pos (show i < maxTimerEvent from hi)]
    exact iff_of_true rfl (Nat.zero_le i)

/-- A push goes to an empty slot. -/
theorem Tracks.push (h : Tracks m es c) (ti : Timer) :
    ∃ m' c', m.push ti = .ok m' ∧ c.step (.push ti) = .ok c' ∧
      Tracks m' (es ++ [(m.heap.length, { ti with timeLeft := ti.timeOut })]) c' := by
  obtain ⟨m', hpush, hes'⟩ := push_spec h.holds ti
  obtain ⟨m₁, p, hgrow, hsize', hcap', hact, hinact⟩ := push_queues hpush
  have hlen := h.holds.length_active
  have hle : m.size ≤ m.cap := by
    rw [h.holds.size]
    exact h.holds.size_le
  have hother : ∀ i, m'.size ≤ i → m'.active[i]? = m₁.active[i]? := fun i hi => by
    rw [hact, List.getElem?_set_ne (by omega)]
  obtain ⟨hsize₁, ⟨hroom, rfl⟩ | ⟨hfull, hcap₁, hact₁, hinact₁⟩⟩ := growIfFull_queues hlen hle hgrow
  · refine ⟨m', { c with size := c.size + 1 }, hpush, ?_, hes', ?_, ?_, h.cap.trans hcap'.symm, ?_⟩
    · rw [Counts.step, if_neg (by rw [h.size, h.cap]; omega)]
    · intro i hge hlt
      rw [hother i hge]
      exact h.noTail i (by omega) (by omega)
    · simp only [h.size, hsize']
    · intro i hi
      rw [hinact]
      exact h.dirty i (by omega)
  · refine ⟨m', ⟨c.size + 1, c.cap * 2, 0⟩, hpush, ?_, hes', ?_, ?_, ?_, ?_⟩
    · rw [Counts.step, if_pos (by rw [h.size, h.cap]; omega)]
    · intro i hge hlt
      rw [hother i hge, hact₁, List.getElem?_append_right (by omega), List.getElem?_replicate,
        if_pos (by omega)]
    · simp only [h.size, hsize', hsize₁]
    · simp only [h.cap, hcap', hcap₁]
    · intro i hi
      rw [hinact, hinact₁, List.getElem?_replicate, if_pos (by omega)]
      exact iff_of_true rfl (Nat.zero_le i)

theorem Tracks.update (h : Tracks m es c) (d : Int) :
    ∃ m', m.update d = .ok m' ∧ Tracks m' (es.map fun e => (e.1, e.2.elapse d)) c := by
  obtain ⟨m', hupdate, hes'⟩ := update_spec h.holds d
  obtain ⟨hact, hinact, hsize, hcap⟩ := update_queues hupdate
  refine ⟨m', hupdate, hes', fun i hge hlt => ?_, h.size.trans hsize.symm, h.cap.trans hcap.symm,
    fun i hi => ?_⟩
  · rw [hact]
    exact h.noTail i (hsize ▸ hge) (hcap ▸ hlt)
  · rw [hinact]
    exact h.dirty i (hcap ▸ hi)

/-- The live timers without the one that is popped. -/
theorem Tracks.erase_top (h : Tracks m es c) {e : Nat × Timer}
    (hmin : FirstMin left es m.topIndex e) :
    (es.map Prod.fst).erase e.1 = (es.eraseIdx m.topIndex).map Prod.fst := by
  obtain ⟨hlt, hget⟩ := List.getElem?_eq_some_iff.1 hmin.getElem?
  have herase := h.holds.nodup.erase_getElem m.topIndex (by rw [List.length_map]; exact hlt)
  rwa [List.getElem_map, hget, List.eraseIdx_map] at herase

/-- A pop of the last timer leaves its pointer in the first slot. -/
theorem Tracks.pop_last (h : Tracks m es c) (hone : c.size = 1) (live : List Nat) :
    ∃ ret m', m.pop = .ok (ret, m') ∧ ¬ TailEmpty (m', live) := by
  have hsize : m.size = 1 := h.size.symm.trans hone
  have hlen : 0 < es.length := by
    rw [← h.holds.size, hsize]
    exact Nat.one_pos
  obtain ⟨e, m', -, -, hpop, -⟩ := pop_spec h.holds (List.ne_nil_of_length_pos hlen)
  refine ⟨some e.2, m', hpop, ?_⟩
  rw [TimerManager.pop, if_neg (by omega)] at hpop
  obtain ⟨t, -, hpop⟩ := Run.bind_eq_ok.1 hpop
  rw [if_pos hsize] at hpop
  obtain rfl : _ = m' := congrArg Prod.snd (Except.ok.inj hpop)
  refine not_tailEmpty (i := 0) le_rfl h.holds.cap_pos ?_
  have hslot := h.holds.active_getElem? (List.getElem?_eq_getElem hlen)
  change m.active[0]? ≠ _
  rw [hslot]
  simp

/-- What a pop of one of several timers does to the counts. -/
theorem Tracks.pop_several (h : Tracks m es c) (hsize : 2 ≤ c.size) :
    ∃ e m', FirstMin left es m.topIndex e ∧ m.top = some e.1 ∧ m.pop = .ok (some e.2, m') ∧
      (c.dirty < c.size →
        Tracks m' (es.eraseIdx m.topIndex) ⟨c.size - 1, c.cap, c.size⟩) ∧
      (¬ c.dirty < c.size → ∀ live, ¬ TailEmpty (m', live)) := by
  have hsize' : 2 ≤ m.size := by rw [← h.size]; exact hsize
  have hle : m.size ≤ m.cap := by
    rw [h.holds.size]
    exact h.holds.size_le
  have hne : es ≠ [] := by
    rintro rfl
    rw [h.holds.size] at hsize'
    exact absurd hsize' (by decide)
  obtain ⟨e, m', hmin, htop, hpop, hes'⟩ := pop_spec h.holds hne
  obtain ⟨hm'size, hm'cap, hlast, hact, hused, hclear⟩ := pop_queues h.holds hsize' hpop
  have hdirty := h.dirty (m.size - 1) (by omega)
  refine ⟨e, m', hmin, htop, hpop, fun hlt => ?_, fun hge live => ?_⟩
  · refine ⟨hes', fun i hge hlt' => ?_, ?_, h.cap.trans hm'cap.symm, fun i hi => ?_⟩
    · by_cases hi : i = m.size - 1
      · rw [hi, hlast, hdirty]
        have := h.size
        omega
      · exact hact i (by omega) (by omega)
    · simp only [h.size, hm'size]
    · simp only [h.size]
      by_cases hi' : i < m.size
      · have hslot := h.holds.active_getElem? (List.getElem?_eq_getElem
          (show i < es.length by rw [← h.holds.size]; exact hi'))
        rw [hused i hi', hslot]
        simp [hi']
      · rw [hclear i (by omega) (by omega)]
        exact iff_of_true rfl (by omega)
  · refine not_tailEmpty (i := m.size - 1) hm'size.le (by omega) ?_
    rw [hlast, Ne, hdirty]
    have := h.size
    omega

end Steps

/-- **Which runs leave nothing behind the timers**: those in which every pop finds no timer, or
several and more than the other array has slots in use. -/
theorem tailEmpty_iff (ops : List Op) : Run.Always ownStep TailEmpty (create, []) ops ↔
    Run.Meets Counts.step Counts.Clean Counts.create ops := by
  refine Run.always_iff_meets_of_simulation
    (R := fun (s : TimerManager × List Nat) c => ∃ es, Tracks s.1 es c ∧ s.2 = es.map Prod.fst)
    ?_ ?_ ?_ ⟨[], create_tracks, rfl⟩ ops
  · rintro ⟨m, live⟩ c ⟨es, h, hlive⟩
    simp only at h hlive
    rw [hlive]
    exact h.holds.tailEmpty h.noTail
  · rintro ⟨m, live⟩ c op ⟨es, h, hlive⟩ hclean
    simp only at h hlive
    subst hlive
    cases op with
    | push ti =>
      obtain ⟨m', c', hpush, hc, h'⟩ := h.push ti
      refine ⟨(m', es.map Prod.fst ++ [m.heap.length]), c', ?_, hc, _, h', by simp⟩
      rw [ownStep, hpush]
      rfl
    | update d =>
      obtain ⟨m', hupdate, h'⟩ := h.update d
      refine ⟨(m', es.map Prod.fst), c, ?_, rfl, _, h', by simp [Function.comp_def]⟩
      rw [ownStep, hupdate]
      rfl
    | pop =>
      rcases hclean with hzero | ⟨hsize, hlt⟩
      · have hnil : es = [] := List.eq_nil_of_length_eq_zero (by rw [← h.holds.size, ← h.size, hzero])
        have hpop : m.pop = .ok (none, m) := by
          rw [pop, if_pos (h.size.symm.trans hzero)]
          rfl
        have htop : m.top = none := by
          rcases h.holds.top with ⟨-, htop⟩ | ⟨e, hmin, -⟩
          · exact htop
          · rw [hnil] at hmin
            exact absurd hmin.lt_length (Nat.not_lt_zero _)
        refine ⟨(m, es.map Prod.fst), c, ?_, ?_, es, h, rfl⟩
        · rw [ownStep, hpop, htop]
          rfl
        · rw [Counts.step, if_pos (by omega), ← hzero]
      · obtain ⟨e, m', hmin, htop, hpop, hkeep, -⟩ := h.pop_several hsize
        refine ⟨(m', (es.map Prod.fst).erase e.1), ⟨c.size - 1, c.cap, c.size⟩, ?_, ?_, _, hkeep hlt,
          h.erase_top hmin⟩
        · rw [ownStep, hpop, htop]
          rfl
        · rw [Counts.step, if_neg (by omega)]
  · rintro ⟨m, live⟩ c op ⟨es, h, hlive⟩ hclean
    simp only at h hlive
    cases op with
    | push ti => exact absurd trivial hclean
    | update d => exact absurd trivial hclean
    | pop =>
      simp only [Counts.Clean, not_or, not_and] at hclean
      obtain ⟨hpos, hmany⟩ := hclean
      by_cases hone : c.size = 1
      · obtain ⟨ret, m', hpop, hbroken⟩ := h.pop_last hone (match m.top with
          | some p => live.erase p
          | none => live)
        exact ⟨_, by rw [ownStep, hpop]; rfl, hbroken⟩
      · obtain ⟨e, m', -, -, hpop, -, hbroken⟩ := h.pop_several (by omega)
        refine ⟨_, by rw [ownStep, hpop]; rfl, hbroken (hmany (by omega)) _⟩

/-- **Two pops in a row leave a pointer to a freed timer**, which freeing the manager then frees
again. -/
theorem not_always_tailEmpty :
    (Run.run ownStep (create, []) [.push fiveMs, .push fiveMs, .push fiveMs, .pop, .pop] >>=
      fun s => s.1.free) = .error .useAfterFree ∧
    ¬ ∀ ops, Run.Always ownStep TailEmpty (create, []) ops := by
  have hfree : (Run.run ownStep (create, [])
      [.push fiveMs, .push fiveMs, .push fiveMs, .pop, .pop] >>= fun s => s.1.free) =
        .error .useAfterFree := by decide +kernel
  refine ⟨hfree, fun h => ?_⟩
  cases hrun : Run.run ownStep (create, [])
      [.push fiveMs, .push fiveMs, .push fiveMs, .pop, .pop] with
  | error e =>
    have hok : (Run.run ownStep (create, [])
      [.push fiveMs, .push fiveMs, .push fiveMs, .pop, .pop]).isOk := by decide +kernel
    rw [hrun] at hok
    cases hok
  | ok s =>
    obtain ⟨heap, hheap, -⟩ := (h _ _ (List.prefix_refl _) s hrun).frees
    rw [hrun, Run.ok_bind, hheap] at hfree
    cases hfree

end TimerManager

end MWebServer
