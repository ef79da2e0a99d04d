import MWebServer.Base
import MWebServer.Lib.StableQueue

/-!
# Timers (`mevent/timer.c`, `calc_timeout` in `mevent/servermanager.c`)

The manager keeps pointers to its timers in one of two arrays, the active one,
which every pop exchanges for the other; `top` and `top_index` remember the timer
that expires first.

* `Holds` — what ties `top`, `top_index`, `index` and `size` to the timers in the
  active array.  `push_spec`, `pop_spec` and `update_spec` show that it is kept.
* `Op.abstract` — what a timer manager is for: a list of timers in the order of
  their pushes, from which the earliest one with the least `time_left` is popped.
* `timers_refine` — every run of the manager is one of the list.
* `calcTimeout_minus_one` — a timer may report the value that stands for an empty
  manager; only what `calc_timeout` returns tells the two apart.
-/

namespace MWebServer

open StableQueue

/-! ## Data -/

/-- `enum TimerOptions` -/
inductive TimerOptions where
  | none | once | repeat
  deriving DecidableEq, Repr

/-- `timer`; `callback` and `arg` are addresses. -/
structure Timer where
  timeOut : Int
  timeLeft : Int
  type : TimerOptions
  callback : Nat
  arg : Nat
  deriving DecidableEq, Repr

/-- A timer with less time left. -/
def Timer.elapse (d : Int) (t : Timer) : Timer := { t with timeLeft := t.timeLeft - d }

/-- The timers allocated so far, by address; `none` once freed. -/
abbrev Heap := List (Option Timer)

namespace Heap

/-- `mu_malloc(sizeof(timer))` and an assignment to it: the heap and the address. -/
def alloc (heap : Heap) (t : Timer) : Heap × Nat := (heap ++ [some t], heap.length)

/-- `*p` -/
def deref (heap : Heap) : Option Nat → Except Fault Timer
  | none => .error .nullDeref
  | some p =>
      match heap[p]? with
      | some (some t) => .ok t
      | _ => .error .useAfterFree

/-- `*p = t` -/
def assign (heap : Heap) (p : Option Nat) (t : Timer) : Except Fault Heap := do
  let _ ← deref heap p
  pure (heap.set (p.getD 0) (some t))

/-- `mu_free(p)` -/
def free (heap : Heap) (p : Option Nat) : Except Fault Heap := do
  let _ ← deref heap p
  pure (heap.set (p.getD 0) none)

end Heap

/-- `q[i]` for an array of pointers. -/
def slot (q : List (Option Nat)) (i : Nat) : Except Fault (Option Nat) :=
  match q[i]? with
  | some p => .ok p
  | none => .error .outOfBounds

/-- `q[i] = p` -/
def setSlot (q : List (Option Nat)) (i : Nat) (p : Option Nat) : Except Fault (List (Option Nat)) :=
  if i < q.length then .ok (q.set i p) else .error .outOfBounds

/-- `timer_manager`, with the heap its timers live in. -/
structure TimerManager where
  top : Option Nat
  queue0 : List (Option Nat)
  queue1 : List (Option Nat)
  index : Nat
  size : Nat
  cap : Nat
  topIndex : Nat
  heap : Heap
  deriving DecidableEq, Repr

namespace TimerManager

/-- `MAX_TIMER_EVENT` -/
def maxTimerEvent : Nat := 100

/-- `timer_manager_create`.  The blocks it allocates are larger than `cap` pointers; no
function looks past the first `cap`. -/
def create : TimerManager where
  top := none
  queue0 := List.replicate maxTimerEvent none
  queue1 := List.replicate maxTimerEvent none
  index := 0
  size := 0
  cap := maxTimerEvent
  topIndex := 0
  heap := []

/-- The array that holds the timers. -/
def active (m : TimerManager) : List (Option Nat) := if m.index = 0 then m.queue0 else m.queue1

/-- The manager with another array in the place of the active one. -/
def setActive (m : TimerManager) (q : List (Option Nat)) : TimerManager :=
  if m.index = 0 then { m with queue0 := q } else { m with queue1 := q }

/-! ## The operations -/

/-- The loop that copies the first `size` pointers of `temp` into a fresh array. -/
def copySlots (temp fresh : List (Option Nat)) (size : Nat) : Except Fault (List (Option Nat)) :=
  if size ≤ temp.length ∧ size ≤ fresh.length then .ok (temp.take size ++ fresh.drop size)
  else .error .outOfBounds

/-- The first half of `timer_manager_push`: twice the room when there is none, in arrays of
which only the active one is copied. -/
def growIfFull (m : TimerManager) : Except Fault TimerManager :=
  if m.size ≥ m.cap then do
    let fresh := List.replicate (m.cap * 2) none
    let queue ← copySlots m.active fresh m.size
    pure ({ m with queue0 := fresh, queue1 := fresh, cap := m.cap * 2 }.setActive queue)
  else pure m

/-- `top` and `top_index` once the timer at `pti` is pushed. -/
def newTop (m : TimerManager) (pti : Nat) (ti : Timer) : Except Fault (Option Nat × Nat) :=
  match m.top with
  | none => pure (some pti, m.topIndex)
  | some top => do
      let t ← m.heap.deref (some top)
      pure (if ti.timeLeft < t.timeLeft then (some pti, m.size) else (some top, m.topIndex))

/-- `timer_manager_push` -/
def push (m : TimerManager) (ti : Timer) : Except Fault TimerManager := do
  let m ← m.growIfFull
  let ti := { ti with timeLeft := ti.timeOut }
  let (heap, pti) := m.heap.alloc ti
  let (top, topIndex) ← m.newTop pti ti
  let queue ← setSlot m.active m.size (some pti)
  pure ({ m with top := top, topIndex := topIndex, heap := heap, size := m.size + 1 }.setActive queue)

/-- The locals of the loop of `timer_manager_pop`, with the `top_index` it writes. -/
structure PopState where
  queue0 : List (Option Nat)
  queue1 : List (Option Nat)
  top : Option Nat
  topIndex : Nat
  j : Nat

/-- The body of the loop of `timer_manager_pop`. -/
def popStep (heap : Heap) (size topIndex : Nat) (s : PopState) (i : Nat) : Except Fault PopState :=
  if i < size then
    if i = topIndex then pure s
    else do
      let p ← slot s.queue0 i
      let queue1 ← setSlot s.queue1 s.j p
      match s.top with
      | none => pure { s with queue1 := queue1, top := p, topIndex := 0, j := s.j + 1 }
      | some top => do
          let t ← heap.deref p
          let t0 ← heap.deref (some top)
          if t.timeLeft < t0.timeLeft then
            pure { s with queue1 := queue1, top := p, topIndex := s.j, j := s.j + 1 }
          else pure { s with queue1 := queue1, j := s.j + 1 }
  else do
    let queue0 ← setSlot s.queue0 i none
    let queue1 ← setSlot s.queue1 i none
    pure { s with queue0 := queue0, queue1 := queue1 }

/-- `timer_manager_pop`; on an empty manager it returns a timer that is not filled in, here
`none`. -/
def pop (m : TimerManager) : Except Fault (Option Timer × TimerManager) :=
  if m.size = 0 then pure (none, m)
  else do
    let ret ← m.heap.deref m.top
    if m.size = 1 then pure (some ret, { m with top := none, size := 0 })
    else do
      let heap ← m.heap.free m.top
      let queue0 := if m.index = 0 then m.queue0 else m.queue1
      let queue1 := if m.index = 0 then m.queue1 else m.queue0
      let s ← Run.run (popStep heap m.size m.topIndex) ⟨queue0, queue1, none, m.topIndex, 0⟩
        (List.range m.cap)
      pure (some ret, { m with
        top := s.top
        queue0 := if m.index = 0 then s.queue0 else s.queue1
        queue1 := if m.index = 0 then s.queue1 else s.queue0
        index := (m.index + 1) % 2
        size := m.size - 1
        topIndex := s.topIndex
        heap := heap })

/-- `timer_manager_get_top` -/
def getTop (m : TimerManager) : Except Fault Timer := m.heap.deref m.top

/-- The body of the loop of `timer_manager_update`. -/
def updateStep (queue : List (Option Nat)) (timeout : Int) (heap : Heap) (i : Nat) :
    Except Fault Heap := do
  let p ← slot queue i
  let t ← heap.deref p
  heap.assign p { t with timeLeft := t.timeLeft - timeout }

/-- `timer_manager_update` -/
def update (m : TimerManager) (timeout : Int) : Except Fault TimerManager := do
  let heap ← Run.run (updateStep m.active timeout) m.heap (List.range m.size)
  pure { m with heap := heap }

/-- `calc_timeout`: what it returns and what it stores. -/
def calcTimeout : Option TimerManager → Except Fault (Bool × Int)
  | some tm =>
      if tm.size > 0 ∧ tm.top ≠ none then do
        let t ← tm.heap.deref tm.top
        pure (true, t.timeLeft)
      else pure (false, -1)
  | none => pure (false, -1)

/-- The timers of a manager, in the order of the active array. -/
def timers (m : TimerManager) : Except Fault (List Timer) :=
  (m.active.take m.size).mapM m.heap.deref

@[simp] theorem setActive_heap (m : TimerManager) (q : List (Option Nat)) :
    (m.setActive q).heap = m.heap := by
  unfold setActive
  split_ifs <;> rfl

@[simp] theorem setActive_cap (m : TimerManager) (q : List (Option Nat)) :
    (m.setActive q).cap = m.cap := by
  unfold setActive
  split_ifs <;> rfl

@[simp] theorem active_setActive (m : TimerManager) (q : List (Option Nat)) :
    (m.setActive q).active = q := by
  unfold setActive
  split_ifs with h
  · simp [active, h]
  · simp [active, h]

/-! ## The invariant -/

/-- What a timer is compared by. -/
abbrev left (e : Nat × Timer) : Int := e.2.timeLeft

/-- `top` and `top_index` for the timers `es`, given with their addresses. -/
def TopOk (es : List (Nat × Timer)) (top : Option Nat) (topIndex : Nat) : Prop :=
  (es = [] ∧ top = none) ∨ ∃ e, FirstMin left es topIndex e ∧ top = some e.1

/-- The manager holds the timers `es`, at these addresses and in this order.  `stale` is what
the pop of the last timer leaves behind for the next push. -/
structure Holds (m : TimerManager) (es : List (Nat × Timer)) : Prop where
  nodup : (es.map Prod.fst).Nodup
  live : ∀ e ∈ es, m.heap[e.1]? = some (some e.2)
  size : m.size = es.length
  active : m.active.take es.length = es.map fun e => some e.1
  size_le : es.length ≤ m.cap
  cap_pos : 0 < m.cap
  length0 : m.queue0.length = m.cap
  length1 : m.queue1.length = m.cap
  index : m.index = 0 ∨ m.index = 1
  top : TopOk es m.top m.topIndex
  stale : es = [] → m.topIndex = 0

theorem create_holds : create.Holds [] where
  nodup := List.nodup_nil
  live := fun e he => by cases he
  size := rfl
  active := rfl
  size_le := Nat.zero_le _
  cap_pos := by decide
  length0 := List.length_replicate
  length1 := List.length_replicate
  index := Or.inl rfl
  top := Or.inl ⟨rfl, rfl⟩
  stale := fun _ => rfl

section Lemmas

variable {m : TimerManager} {es : List (Nat × Timer)}

theorem Holds.length_active (h : m.Holds es) : m.active.length = m.cap := by
  unfold TimerManager.active
  split_ifs
  · exact h.length0
  · exact h.length1

/-- The manager with other timers in the active array. -/
theorem holds_setActive {q : List (Option Nat)} (nodup : (es.map Prod.fst).Nodup)
    (live : ∀ e ∈ es, m.heap[e.1]? = some (some e.2)) (size : m.size = es.length)
    (active : q.take es.length = es.map fun e => some e.1) (size_le : es.length ≤ m.cap)
    (cap_pos : 0 < m.cap) (hq : q.length = m.cap) (length0 : m.queue0.length = m.cap)
    (length1 : m.queue1.length = m.cap) (index : m.index = 0 ∨ m.index = 1)
    (top : TopOk es m.top m.topIndex) (stale : es = [] → m.topIndex = 0) :
    (m.setActive q).Holds es := by
  have hact := active_setActive m q
  unfold setActive at hact ⊢
  split_ifs at hact ⊢ with h
  · exact ⟨nodup, live, size, by rw [hact]; exact active, size_le, cap_pos, hq, length1, index, top,
      stale⟩
  · exact ⟨nodup, live, size, by rw [hact]; exact active, size_le, cap_pos, length0, hq, index, top,
      stale⟩

theorem deref_eq_ok {heap : Heap} {p : Nat} {t : Timer} (h : heap[p]? = some (some t)) :
    heap.deref (some p) = .ok t := by
  simp [Heap.deref, h]

theorem slot_eq_ok {q : List (Option Nat)} {i : Nat} {p : Option Nat} (h : q[i]? = some p) :
    slot q i = .ok p := by
  simp [slot, h]

theorem setSlot_eq_ok {q : List (Option Nat)} {i : Nat} (p : Option Nat) (h : i < q.length) :
    setSlot q i p = .ok (q.set i p) := if_pos h

/-- The address of a timer in the active array. -/
theorem Holds.active_getElem? (h : m.Holds es) {i : Nat} {e : Nat × Timer}
    (he : es[i]? = some e) : m.active[i]? = some (some e.1) := by
  have hi : i < es.length := (List.getElem?_eq_some_iff.1 he).1
  rw [← List.getElem?_take_of_lt hi, h.active, List.getElem?_map, he]
  rfl

/-- The timers of a manager that holds `es`. -/
theorem Holds.timers (h : m.Holds es) : m.timers = .ok (es.map Prod.snd) := by
  have hall : ∀ l : List (Nat × Timer), (∀ e ∈ l, m.heap[e.1]? = some (some e.2)) →
      (l.map fun e => some e.1).mapM m.heap.deref = .ok (l.map Prod.snd) := by
    intro l hl
    induction l with
    | nil => rfl
    | cons e l ih =>
      rw [List.map_cons, List.mapM_cons, deref_eq_ok (hl e (by simp)),
        ih fun e he => hl e (by simp [he])]
      rfl
  unfold TimerManager.timers
  rw [h.size, h.active]
  exact hall es h.live

theorem Holds.fresh (h : m.Holds es) {e : Nat × Timer} (he : e ∈ es) : e.1 < m.heap.length :=
  (List.getElem?_eq_some_iff.1 (h.live e he)).1

/-! ## Push -/

theorem copySlots_eq_ok {temp fresh : List (Option Nat)} {size : Nat} (h : size ≤ temp.length)
    (h' : size ≤ fresh.length) :
    copySlots temp fresh size = .ok (temp.take size ++ fresh.drop size) := if_pos ⟨h, h'⟩

/-- Growing changes nothing but the room. -/
theorem growIfFull_spec (h : m.Holds es) :
    ∃ m', m.growIfFull = .ok m' ∧ m'.Holds es ∧ es.length < m'.cap ∧ m'.heap = m.heap := by
  have hcap := h.cap_pos
  have hle := h.size_le
  unfold growIfFull
  by_cases hfull : m.size ≥ m.cap
  · rw [if_pos hfull, h.size]
    have hfresh : (List.replicate (m.cap * 2) (none : Option Nat)).length = m.cap * 2 :=
      List.length_replicate
    have hact := h.length_active
    have hcopy : copySlots m.active (List.replicate (m.cap * 2) none) es.length = _ :=
      copySlots_eq_ok (by omega) (by rw [hfresh]; omega)
    simp only [hcopy, Run.ok_bind]
    refine ⟨_, rfl, holds_setActive h.nodup h.live rfl ?_ ?_ ?_ ?_ hfresh hfresh h.index h.top
      h.stale, ?_, ?_⟩
    · rw [List.take_left' (by rw [List.length_take]; omega)]
      exact h.active
    · simp only
      omega
    · simp only
      omega
    · simp only [List.length_append, List.length_take, List.length_drop]
      omega
    · simp only [setActive_cap]
      omega
    · simp only [setActive_heap]
  · rw [if_neg hfull]
    rw [h.size] at hfull
    exact ⟨m, rfl, h, by omega, rfl⟩

/-- `top` is kept up to date without a search: the rules of the stable queue. -/
theorem newTop_spec (h : m.Holds es) (p : Nat) (ti : Timer) :
    ∃ top topIndex, m.newTop p ti = .ok (top, topIndex) ∧ TopOk (es ++ [(p, ti)]) top topIndex := by
  unfold newTop
  rcases h.top with ⟨hnil, htop⟩ | ⟨e, hmin, htop⟩
  · refine ⟨some p, m.topIndex, by rw [htop]; rfl, Or.inr ⟨(p, ti), ?_, rfl⟩⟩
    rw [h.stale hnil, hnil]
    exact firstMin_singleton _
  · have he : e ∈ es := List.mem_of_getElem? hmin.getElem?
    simp only [htop, deref_eq_ok (h.live e he), Run.ok_bind]
    by_cases hlt : ti.timeLeft < e.2.timeLeft
    · rw [if_pos hlt]
      refine ⟨_, _, rfl, Or.inr ⟨(p, ti), ?_, rfl⟩⟩
      rw [h.size]
      exact hmin.append_of_lt hlt
    · rw [if_neg hlt]
      exact ⟨_, _, rfl, Or.inr ⟨e, hmin.append_of_le (not_lt.1 hlt), rfl⟩⟩

/-- **A push appends a timer**, at the next address of the heap. -/
theorem push_spec (h : m.Holds es) (ti : Timer) :
    ∃ m', m.push ti = .ok m' ∧
      m'.Holds (es ++ [(m.heap.length, { ti with timeLeft := ti.timeOut })]) := by
  obtain ⟨m1, hgrow, h1, hroom, hheap⟩ := growIfFull_spec h
  rw [← hheap]
  obtain ⟨top, topIndex, hnew, htop⟩ :=
    newTop_spec h1 m1.heap.length { ti with timeLeft := ti.timeOut }
  have hact := h1.length_active
  have hslot := setSlot_eq_ok (some m1.heap.length) (show m1.size < m1.active.length by
    rw [hact, h1.size]
    exact hroom)
  refine ⟨_, ?_, holds_setActive (m := { m1 with
    top := top
    topIndex := topIndex
    heap := m1.heap ++ [some { ti with timeLeft := ti.timeOut }]
    size := m1.size + 1 }) (q := m1.active.set m1.size (some m1.heap.length)) ?_ ?_ ?_ ?_ ?_
    h1.cap_pos ?_ h1.length0 h1.length1 h1.index htop ?_⟩
  · rw [push, hgrow, Run.ok_bind]
    simp only [Heap.alloc, hnew, Run.ok_bind, hslot]
    rfl
  · rw [List.map_append, List.nodup_append]
    refine ⟨h1.nodup, List.nodup_singleton _, ?_⟩
    intro a ha b hb hab
    obtain ⟨e, he, rfl⟩ := List.mem_map.1 ha
    have hlt := h1.fresh he
    rw [hab, List.mem_singleton.1 hb] at hlt
    exact absurd hlt (lt_irrefl _)
  · intro e he
    rcases List.mem_append.1 he with he | he
    · rw [List.getElem?_append_left (h1.fresh he)]
      exact h1.live e he
    · rw [List.mem_singleton.1 he]
      simp
  · simp only [List.length_append, List.length_singleton, h1.size]
  · rw [h1.size, List.length_append, List.length_singleton, List.map_append, ← h1.active]
    rw [List.take_add_one, List.take_set_of_le le_rfl, List.getElem?_set_self (by omega)]
    rfl
  · simp only [List.length_append, List.length_singleton]
    omega
  · rw [List.length_set, hact]
  · intro hnil
    simp at hnil

/-! ## Pop -/

/-- The loop of `timer_manager_pop` after it has moved the timers `ds`. -/
structure Moved (q0 : List (Option Nat)) (cap : Nat) (s : PopState) (ds : List (Nat × Timer)) :
    Prop where
  queue0 : s.queue0 = q0
  length1 : s.queue1.length = cap
  queue1 : s.queue1.take ds.length = ds.map fun e => some e.1
  j : s.j = ds.length
  top : TopOk ds s.top s.topIndex

/-- Moving one timer is pushing it onto those moved before. -/
theorem popStep_move {q0 : List (Option Nat)} {cap size topIndex i : Nat} {heap : Heap}
    {s : PopState} {ds : List (Nat × Timer)} {e : Nat × Timer} (h : Moved q0 cap s ds)
    (hi : i < size) (hne : i ≠ topIndex) (he : q0[i]? = some (some e.1))
    (hlive : ∀ d ∈ ds ++ [e], heap[d.1]? = some (some d.2)) (hcap : ds.length < cap) :
    ∃ s', popStep heap size topIndex s i = .ok s' ∧ Moved q0 cap s' (ds ++ [e]) := by
  have hslot : slot s.queue0 i = .ok (some e.1) := slot_eq_ok (by rw [h.queue0]; exact he)
  have hset : setSlot s.queue1 s.j (some e.1) = .ok (s.queue1.set s.j (some e.1)) :=
    setSlot_eq_ok _ (by rw [h.length1, h.j]; exact hcap)
  have hlen : (s.queue1.set s.j (some e.1)).length = cap := by rw [List.length_set, h.length1]
  have hqueue : (s.queue1.set s.j (some e.1)).take (ds ++ [e]).length =
      (ds ++ [e]).map fun e => some e.1 := by
    rw [List.length_append, List.length_singleton, List.map_append, ← h.queue1, h.j,
      List.take_add_one, List.take_set_of_le le_rfl,
      List.getElem?_set_self (by rw [h.length1]; exact hcap)]
    rfl
  have hj : s.j + 1 = (ds ++ [e]).length := by
    rw [h.j, List.length_append, List.length_singleton]
  unfold popStep
  rw [if_pos hi, if_neg hne, hslot, Run.ok_bind, hset, Run.ok_bind]
  rcases h.top with ⟨rfl, htop⟩ | ⟨d, hmin, htop⟩
  · rw [htop]
    refine ⟨_, rfl, h.queue0, hlen, hqueue, hj, Or.inr ⟨e, ?_, rfl⟩⟩
    exact firstMin_singleton e
  · have hd : d ∈ ds := List.mem_of_getElem? hmin.getElem?
    rw [htop]
    simp only [deref_eq_ok (hlive e (by simp)), deref_eq_ok (hlive d (by simp [hd])), Run.ok_bind]
    by_cases hlt : e.2.timeLeft < d.2.timeLeft
    · rw [if_pos hlt]
      refine ⟨_, rfl, h.queue0, hlen, hqueue, hj, Or.inr ⟨e, ?_, rfl⟩⟩
      rw [h.j]
      exact hmin.append_of_lt hlt
    · rw [if_neg hlt]
      exact ⟨_, rfl, h.queue0, hlen, hqueue, hj,
        Or.inr ⟨d, hmin.append_of_le (not_lt.1 hlt), rfl⟩⟩

/-- Moving a stretch of timers. -/
theorem popRun_moves {q0 : List (Option Nat)} {cap : Nat} (size topIndex : Nat) {heap : Heap}
    (zs : List (Nat × Timer)) {i : Nat} {s : PopState} {ds : List (Nat × Timer)}
    (h : Moved q0 cap s ds)
    (hzs : ∀ n e, zs[n]? = some e → q0[i + n]? = some (some e.1) ∧ i + n < size ∧ i + n ≠ topIndex)
    (hlive : ∀ d ∈ ds ++ zs, heap[d.1]? = some (some d.2)) (hcap : ds.length + zs.length ≤ cap) :
    ∃ s', Run.run (popStep heap size topIndex) s (List.range' i zs.length) = .ok s' ∧
      Moved q0 cap s' (ds ++ zs) := by
  induction zs generalizing i s ds with
  | nil => exact ⟨s, rfl, by simpa using h⟩
  | cons e zs ih =>
    obtain ⟨he, hi, hne⟩ := hzs 0 e rfl
    rw [Nat.add_zero] at he hi hne
    simp only [List.length_cons] at hcap
    obtain ⟨s1, hs1, h1⟩ := popStep_move h hi hne he
      (fun d hd => hlive d (by simp at hd ⊢; tauto)) (by omega)
    obtain ⟨s2, hs2, h2⟩ := ih (i := i + 1) h1
      (fun n d hd => by rw [show i + 1 + n = i + (n + 1) by omega]; exact hzs (n + 1) d hd)
      (fun d hd => hlive d (by simp at hd ⊢; tauto))
      (by rw [List.length_append, List.length_singleton]; omega)
    refine ⟨s2, ?_, by simpa using h2⟩
    rw [List.length_cons, List.range'_succ, Run.run_cons, hs1, Run.ok_bind, hs2]

/-- The rest of the loop clears the slots behind the timers. -/
theorem popRun_clear {cap size topIndex : Nat} {heap : Heap} (n : Nat) {i : Nat} {s : PopState}
    (hi : size ≤ i) (hcap : i + n ≤ cap) (h0 : s.queue0.length = cap) (h1 : s.queue1.length = cap) :
    ∃ s', Run.run (popStep heap size topIndex) s (List.range' i n) = .ok s' ∧
      s'.queue0.length = cap ∧ s'.queue1.length = cap ∧
      s'.queue1.take size = s.queue1.take size ∧ s'.top = s.top ∧ s'.topIndex = s.topIndex := by
  induction n generalizing i s with
  | zero => exact ⟨s, rfl, h0, h1, rfl, rfl, rfl⟩
  | succ n ih =>
    have hstep : popStep heap size topIndex s i =
        .ok { s with queue0 := s.queue0.set i none, queue1 := s.queue1.set i none } := by
      unfold popStep
      rw [if_neg (by omega), setSlot_eq_ok none (by omega), Run.ok_bind,
        setSlot_eq_ok none (by omega)]
      rfl
    obtain ⟨s', hs', h0', h1', hq, htop, hidx⟩ := ih (i := i + 1)
      (s := { s with queue0 := s.queue0.set i none, queue1 := s.queue1.set i none })
      (by omega) (by omega) (by simp only [List.length_set]; exact h0)
      (by simp only [List.length_set]; exact h1)
    refine ⟨s', ?_, h0', h1', ?_, htop, hidx⟩
    · rw [List.range'_succ, Run.run_cons, hstep, Run.ok_bind, hs']
    · rw [hq]
      exact List.take_set_of_le hi

/-- The slots up to a position, that position, those behind it, and the rest. -/
theorem range_around (a b c : Nat) : List.range (a + (b + 1) + c) =
    List.range' 0 a ++ a :: (List.range' (a + 1) b ++ List.range' (a + (b + 1)) c) := by
  have h1 := List.range'_append_1 (s := 0) (m := a + (b + 1)) (n := c)
  have h2 := List.range'_append_1 (s := 0) (m := a) (n := b + 1)
  rw [Nat.zero_add] at h1 h2
  rw [List.range_eq_range', ← h1, ← h2, List.range'_succ, List.append_assoc, List.cons_append]

/-- The loop of `timer_manager_pop` moves all timers but the popped one. -/
theorem popLoop_spec {xs ys : List (Nat × Timer)} {e : Nat × Timer} {heap : Heap}
    (h : m.Holds (xs ++ e :: ys)) (hk : xs.length = m.topIndex)
    (hlive : ∀ d ∈ xs ++ ys, heap[d.1]? = some (some d.2)) {q1 : List (Option Nat)}
    (hq1 : q1.length = m.cap) :
    ∃ s, Run.run (popStep heap m.size m.topIndex) ⟨m.active, q1, none, m.topIndex, 0⟩
        (List.range m.cap) = .ok s ∧
      s.queue0.length = m.cap ∧ s.queue1.length = m.cap ∧
      s.queue1.take (xs ++ ys).length = (xs ++ ys).map (fun e => some e.1) ∧
      TopOk (xs ++ ys) s.top s.topIndex := by
  have hsize : m.size = xs.length + (ys.length + 1) := by
    rw [h.size, List.length_append, List.length_cons]
  have hcap : xs.length + (ys.length + 1) ≤ m.cap := by
    have := h.size_le
    rwa [List.length_append, List.length_cons] at this
  have hact : ∀ (n : Nat) (d : Nat × Timer), (xs ++ e :: ys)[n]? = some d →
      m.active[n]? = some (some d.1) := fun n d hd => h.active_getElem? hd
  obtain ⟨s1, hs1, h1⟩ := popRun_moves m.size m.topIndex xs (i := 0)
    (s := ⟨m.active, q1, none, m.topIndex, 0⟩) ⟨rfl, hq1, rfl, rfl, Or.inl ⟨rfl, rfl⟩⟩
    (fun n d hd => by
      have hn : n < xs.length := (List.getElem?_eq_some_iff.1 hd).1
      rw [Nat.zero_add]
      refine ⟨hact n d ?_, by omega, by omega⟩
      rw [List.getElem?_append_left hn]
      exact hd)
    (fun d hd => hlive d (List.mem_append_left _ (by simpa using hd)))
    (by rw [List.length_nil]; omega)
  have hskip : popStep heap m.size m.topIndex s1 m.topIndex = .ok s1 := by
    unfold popStep
    rw [if_pos (by omega), if_pos rfl]
    rfl
  obtain ⟨s2, hs2, h2⟩ := popRun_moves m.size m.topIndex ys (i := m.topIndex + 1) h1
    (fun n d hd => by
      have hn : n < ys.length := (List.getElem?_eq_some_iff.1 hd).1
      refine ⟨hact _ d ?_, by omega, by omega⟩
      rw [List.getElem?_append_right (by omega),
        show m.topIndex + 1 + n - xs.length = n + 1 by omega]
      exact hd)
    (fun d hd => hlive d (by simpa using hd)) (by rw [List.nil_append]; omega)
  rw [List.nil_append] at h2
  obtain ⟨s3, hs3, h30, h31, htake, htop, hidx⟩ := popRun_clear (m.cap - m.size) (i := m.size) (s := s2)
    le_rfl (by omega) (by rw [h2.queue0]; exact h.length_active) h2.length1
  refine ⟨s3, ?_, h30, h31, ?_, by rw [htop, hidx]; exact h2.top⟩
  · have hrange := range_around xs.length ys.length (m.cap - m.size)
    rw [show xs.length + (ys.length + 1) + (m.cap - m.size) = m.cap by omega, ← hsize, hk] at hrange
    rw [hk] at hs1
    rw [hrange, Run.run_append, hs1, Run.ok_bind, Run.run_cons, hskip, Run.ok_bind, Run.run_append,
      hs2, Run.ok_bind, hs3]
  · rw [← h2.queue1]
    have := congrArg (List.take (xs ++ ys).length) htake
    rwa [List.take_take, List.take_take, min_eq_left (by rw [List.length_append]; omega)] at this

/-- **A pop takes the earliest timer with the least `time_left`** and leaves the others. -/
theorem pop_spec (h : m.Holds es) (hne : es ≠ []) :
    ∃ e m', FirstMin left es m.topIndex e ∧ m.top = some e.1 ∧ m.pop = .ok (some e.2, m') ∧
      m'.Holds (es.eraseIdx m.topIndex) := by
  obtain ⟨hnil, -⟩ | ⟨e, hmin, htop⟩ := h.top
  · exact absurd hnil hne
  have he : e ∈ es := List.mem_of_getElem? hmin.getElem?
  have hsize := h.size
  have hpos : es.length ≠ 0 := fun h0 => hne (List.eq_nil_of_length_eq_zero h0)
  have hderef : m.heap.deref m.top = .ok e.2 := by rw [htop, deref_eq_ok (h.live e he)]
  by_cases hone : es.length = 1
  · -- the last timer: only `top` and `size` are reset
    obtain ⟨d, rfl⟩ := List.length_eq_one_iff.1 hone
    have hk : m.topIndex = 0 := by
      have := hmin.lt_length
      simp only [List.length_singleton] at this
      omega
    have hnil : [d].eraseIdx m.topIndex = [] := by
      rw [hk]
      rfl
    refine ⟨e, { m with top := none, size := 0 }, hmin, htop, ?_, ?_⟩
    · rw [pop, if_neg (by omega), hderef, Run.ok_bind, if_pos (by omega)]
      rfl
    · rw [hnil]
      exact ⟨List.nodup_nil, fun e he => by (cases he), rfl, rfl, Nat.zero_le _, h.cap_pos,
        h.length0, h.length1, h.index, Or.inl ⟨rfl, rfl⟩, fun _ => hk⟩
  · obtain ⟨xs, ys, rfl, hk, -, -⟩ := id hmin
    have hlen : (xs ++ e :: ys).length = (xs ++ ys).length + 1 := by simp; omega
    have hcap := h.size_le
    have herase : (xs ++ e :: ys).eraseIdx m.topIndex = xs ++ ys := by
      rw [← hk, List.eraseIdx_append_of_length_le le_rfl]
      simp
    have hnodup := h.nodup
    rw [List.map_append, List.map_cons, List.nodup_middle, List.nodup_cons, ← List.map_append]
      at hnodup
    -- the other timers survive the release of this one
    have hlive : ∀ d ∈ xs ++ ys, (m.heap.set e.1 none)[d.1]? = some (some d.2) := by
      intro d hd
      have hdist : e.1 ≠ d.1 := fun heq => hnodup.1 (heq ▸ List.mem_map_of_mem hd)
      rw [List.getElem?_set_ne hdist]
      refine h.live d ?_
      simp only [List.mem_append, List.mem_cons] at hd ⊢
      tauto
    have hfree : m.heap.free m.top = .ok (m.heap.set e.1 none) := by
      rw [Heap.free, hderef, htop]
      rfl
    have hother : (if m.index = 0 then m.queue1 else m.queue0).length = m.cap := by
      split_ifs
      · exact h.length1
      · exact h.length0
    obtain ⟨s, hloop, hs0, hs1, hact, hstop⟩ := popLoop_spec h hk hlive hother
    have hpop : m.pop = .ok (some e.2, { m with
        top := s.top
        queue0 := if m.index = 0 then s.queue0 else s.queue1
        queue1 := if m.index = 0 then s.queue1 else s.queue0
        index := (m.index + 1) % 2
        size := m.size - 1
        topIndex := s.topIndex
        heap := m.heap.set e.1 none }) := by
      rw [pop, if_neg (by omega), hderef, Run.ok_bind, if_neg (by omega), hfree, Run.ok_bind]
      simp only
      rw [show (if m.index = 0 then m.queue0 else m.queue1) = m.active from rfl, hloop]
      rfl
    refine ⟨e, _, hmin, htop, hpop, ?_⟩
    rw [herase]
    refine ⟨hnodup.2, hlive, ?_, ?_, ?_, h.cap_pos, ?_, ?_, ?_, hstop, ?_⟩
    · simp only
      omega
    · rw [← hact]
      rcases h.index with hidx | hidx <;> simp [TimerManager.active, hidx]
    · simp only
      omega
    · simp only
      split_ifs <;> assumption
    · simp only
      split_ifs <;> assumption
    · simp only
      omega
    · intro hnil
      rw [hnil] at hlen
      exact absurd hlen hone

/-! ## Update -/

/-- The loop of `timer_manager_update` over a stretch of the active array. -/
theorem updateRun_spec {queue : List (Option Nat)} {d : Int} (zs : List (Nat × Timer)) {i : Nat}
    {heap : Heap} (hnodup : (zs.map Prod.fst).Nodup)
    (hlive : ∀ e ∈ zs, heap[e.1]? = some (some e.2))
    (hzs : ∀ n e, zs[n]? = some e → queue[i + n]? = some (some e.1)) :
    ∃ heap', Run.run (updateStep queue d) heap (List.range' i zs.length) = .ok heap' ∧
      (∀ e ∈ zs, heap'[e.1]? = some (some (e.2.elapse d))) ∧
      ∀ p, p ∉ zs.map Prod.fst → heap'[p]? = heap[p]? := by
  induction zs generalizing i heap with
  | nil => exact ⟨heap, rfl, fun e he => by (cases he), fun _ _ => rfl⟩
  | cons e zs ih =>
    rw [List.map_cons, List.nodup_cons] at hnodup
    have he := hlive e (by simp)
    have hslot := hzs 0 e rfl
    rw [Nat.add_zero] at hslot
    have hstep : updateStep queue d heap i = .ok (heap.set e.1 (some (e.2.elapse d))) := by
      simp only [updateStep, slot_eq_ok hslot, Run.ok_bind, deref_eq_ok he, Heap.assign]
      rfl
    obtain ⟨heap', hrun, hdone, hframe⟩ := @ih (i + 1)
      (heap.set e.1 (some (e.2.elapse d))) hnodup.2
      (fun z hz => by
        have hne : e.1 ≠ z.1 := fun h => hnodup.1 (h ▸ List.mem_map_of_mem hz)
        rw [List.getElem?_set_ne hne]
        exact hlive z (by simp [hz]))
      (fun n z hz => by rw [show i + 1 + n = i + (n + 1) by omega]; exact hzs (n + 1) z hz)
    refine ⟨heap', ?_, ?_, ?_⟩
    · rw [List.length_cons, List.range'_succ, Run.run_cons, hstep, Run.ok_bind, hrun]
    · intro z hz
      rcases List.mem_cons.1 hz with rfl | hz
      · rw [hframe _ hnodup.1, List.getElem?_set_self (List.getElem?_eq_some_iff.1 he).1]
      · exact hdone z hz
    · intro p hp
      rw [List.map_cons, List.mem_cons, not_or] at hp
      rw [hframe p hp.2, List.getElem?_set_ne (Ne.symm hp.1)]

/-- **An update takes the same time from every timer**, and changes no order. -/
theorem update_spec (h : m.Holds es) (d : Int) :
    ∃ m', m.update d = .ok m' ∧ m'.Holds (es.map fun e => (e.1, e.2.elapse d)) := by
  obtain ⟨heap, hrun, hdone, -⟩ := updateRun_spec (d := d) es (i := 0) h.nodup h.live
    (fun n e he => by rw [Nat.zero_add]; exact h.active_getElem? he)
  have hfst : (es.map fun e => (e.1, e.2.elapse d)).map Prod.fst = es.map Prod.fst := by
    rw [List.map_map]
    rfl
  refine ⟨{ m with heap := heap }, ?_, ⟨?_, ?_, ?_, ?_, ?_, h.cap_pos, h.length0, h.length1, h.index,
    ?_, ?_⟩⟩
  · rw [update, h.size, List.range_eq_range', hrun]
    rfl
  · rw [hfst]
    exact h.nodup
  · intro e he
    obtain ⟨z, hz, rfl⟩ := List.mem_map.1 he
    exact hdone z hz
  · rw [List.length_map]
    exact h.size
  · rw [List.length_map, List.map_map]
    exact h.active
  · rw [List.length_map]
    exact h.size_le
  · rcases h.top with ⟨rfl, htop⟩ | ⟨e, hmin, htop⟩
    · exact Or.inl ⟨rfl, htop⟩
    · refine Or.inr ⟨(e.1, e.2.elapse d), hmin.map (f := fun e => (e.1, e.2.elapse d)) ?_, htop⟩
      intro a b
      simp only [left, Timer.elapse]
      omega
  · intro hnil
    exact h.stale (by simpa using hnil)

end Lemmas

/-! ## Runs -/

/-- A call on a manager. -/
inductive Op where
  | push (ti : Timer)
  | pop
  | update (timeout : Int)

/-- One call, on a manager and the timers popped so far. -/
def step : TimerManager × List Timer → Op → Except Fault (TimerManager × List Timer)
  | (m, out), .push ti => do
      let m ← m.push ti
      pure (m, out)
  | (m, out), .pop => do
      let (ret, m) ← m.pop
      pure (m, out ++ ret.toList)
  | (m, out), .update timeout => do
      let m ← m.update timeout
      pure (m, out)

/-- What a call is for, on the timers in the order of their pushes; an empty manager is not
to be popped. -/
def Op.abstract : List Timer × List Timer → Op → Except Unit (List Timer × List Timer)
  | (l, out), .push ti => .ok (l ++ [{ ti with timeLeft := ti.timeOut }], out)
  | (l, out), .pop =>
      match popMin Timer.timeLeft l with
      | some (t, l) => .ok (l, out ++ [t])
      | none => .error ()
  | (l, out), .update timeout => .ok (l.map (Timer.elapse timeout), out)

/-- The manager and the list agree, and so far they have popped the same timers. -/
def Represents (s : TimerManager × List Timer) (t : List Timer × List Timer) : Prop :=
  ∃ es, s.1.Holds es ∧ t.1 = es.map Prod.snd ∧ s.2 = t.2

theorem firstMin_timers {es : List (Nat × Timer)} {k : Nat} {e : Nat × Timer}
    (h : FirstMin left es k e) : FirstMin Timer.timeLeft (es.map Prod.snd) k e.2 :=
  h.map fun _ _ => Iff.rfl

/-- **Every call does to the manager what it is for.** -/
theorem step_represents (s : TimerManager × List Timer) (t : List Timer × List Timer) (op : Op)
    (t' : List Timer × List Timer) (h : Represents s t) (ht : op.abstract t = .ok t') :
    ∃ s', step s op = .ok s' ∧ Represents s' t' := by
  obtain ⟨m, out⟩ := s
  obtain ⟨l, out'⟩ := t
  obtain ⟨es, hes, hl, hout⟩ := h
  simp only at hes hl hout
  subst hl hout
  cases op with
  | push ti =>
    cases ht
    obtain ⟨m', hok, hes'⟩ := push_spec hes ti
    refine ⟨(m', out), ?_, _, hes', by simp, rfl⟩
    simp only [step, hok, Run.ok_bind]
    rfl
  | update d =>
    cases ht
    obtain ⟨m', hok, hes'⟩ := update_spec hes d
    refine ⟨(m', out), ?_, _, hes', by simp [List.map_map], rfl⟩
    simp only [step, hok, Run.ok_bind]
    rfl
  | pop =>
    have hne : es ≠ [] := by
      rintro rfl
      cases ht
    obtain ⟨e, m', hmin, -, hok, hes'⟩ := pop_spec hes hne
    have hpop := popMin_eq (firstMin_timers hmin)
    simp only [Op.abstract, hpop] at ht
    cases ht
    refine ⟨(m', out ++ [e.2]), ?_, _, hes', by rw [List.eraseIdx_map], rfl⟩
    simp only [step, hok, Run.ok_bind]
    rfl

/-- Every call keeps the invariant, also a pop of an empty manager. -/
theorem step_holds (s : TimerManager × List Timer) (op : Op) (s' : TimerManager × List Timer)
    (h : ∃ es, s.1.Holds es) (hok : step s op = .ok s') : ∃ es, s'.1.Holds es := by
  obtain ⟨m, out⟩ := s
  obtain ⟨es, hes⟩ := h
  cases op with
  | push ti =>
    obtain ⟨m', hpush, hes'⟩ := push_spec hes ti
    rw [step, hpush] at hok
    rw [← Except.ok.inj hok]
    exact ⟨_, hes'⟩
  | update d =>
    obtain ⟨m', hupdate, hes'⟩ := update_spec hes d
    rw [step, hupdate] at hok
    rw [← Except.ok.inj hok]
    exact ⟨_, hes'⟩
  | pop =>
    by_cases hne : es = []
    · have hempty : m.pop = .ok (none, m) := by
        rw [pop, if_pos (by rw [hes.size, hne]; rfl)]
        rfl
      rw [step, hempty] at hok
      rw [← Except.ok.inj hok]
      exact ⟨es, hes⟩
    · obtain ⟨e, m', -, -, hpop, hes'⟩ := pop_spec hes hne
      rw [step, hpop] at hok
      rw [← Except.ok.inj hok]
      exact ⟨_, hes'⟩

/-- **Every manager that can be reached satisfies the invariant.** -/
theorem run_holds {ops : List Op} {m : TimerManager} {out : List Timer}
    (h : Run.run step (create, []) ops = .ok (m, out)) : ∃ es, m.Holds es :=
  Run.run_keeps (I := fun s : TimerManager × List Timer => ∃ es, s.1.Holds es) step_holds
    ⟨[], create_holds⟩ h

/-- What `calc_timeout` answers about a manager that holds `es`. -/
theorem calcTimeout_spec {m : TimerManager} {es : List (Nat × Timer)} (h : m.Holds es) :
    (es = [] ∧ calcTimeout (some m) = .ok (false, -1)) ∨
      ∃ e, FirstMin left es m.topIndex e ∧ m.top = some e.1 ∧ m.getTop = .ok e.2 ∧
        calcTimeout (some m) = .ok (true, e.2.timeLeft) := by
  rcases h.top with ⟨rfl, htop⟩ | ⟨e, hmin, htop⟩
  · have hsize := h.size
    refine Or.inl ⟨rfl, ?_⟩
    rw [calcTimeout, if_neg (by rw [hsize, htop]; simp)]
    rfl
  · have he : e ∈ es := List.mem_of_getElem? hmin.getElem?
    have hderef : m.heap.deref m.top = .ok e.2 := by rw [htop, deref_eq_ok (h.live e he)]
    refine Or.inr ⟨e, hmin, htop, hderef, ?_⟩
    have hpos : m.size > 0 := by
      rw [h.size]
      exact List.length_pos_of_mem he
    rw [calcTimeout, if_pos ⟨hpos, by rw [htop]; simp⟩, hderef]
    rfl

/-- **The timer manager refines a stable priority queue.**  Any calls that the list can make
the manager makes too, with the same timers popped, and ends with the list's timers; `top`
is then the timer to be popped, at `top_index` of the active array, and `calc_timeout`
returns whether there is one. -/
theorem timers_refine (ops : List Op) (l out : List Timer)
    (h : Run.run (fun t op => Op.abstract t op) ([], []) ops = .ok (l, out)) :
    ∃ m, Run.run step (create, []) ops = .ok (m, out) ∧ m.timers = .ok l ∧ m.size = l.length ∧
      (0 < m.size → ∃ t, FirstMin Timer.timeLeft l m.topIndex t ∧ m.getTop = .ok t ∧
        m.active[m.topIndex]? = some m.top ∧ calcTimeout (some m) = .ok (true, t.timeLeft)) ∧
      (m.size = 0 → calcTimeout (some m) = .ok (false, -1)) := by
  obtain ⟨⟨m, out'⟩, hrun, es, hes, hl, hout⟩ := Run.run_simulates
    (R := Represents) (s := (create, [])) step_represents ⟨[], create_holds, rfl, rfl⟩ h
  simp only at hes hl hout
  subst hl hout
  refine ⟨m, hrun, hes.timers, by rw [hes.size, List.length_map], ?_, ?_⟩
  · intro hpos
    rcases calcTimeout_spec hes with ⟨rfl, -⟩ | ⟨e, hmin, htop, hget, hcalc⟩
    · exact absurd hes.size hpos.ne'
    · exact ⟨e.2, firstMin_timers hmin, hget, by rw [htop, hes.active_getElem? hmin.getElem?],
        hcalc⟩
  · intro hzero
    rcases calcTimeout_spec hes with ⟨-, hcalc⟩ | ⟨e, hmin, -, -, -⟩
    · exact hcalc
    · have hlt := hmin.lt_length
      rw [← hes.size, hzero] at hlt
      exact absurd hlt (Nat.not_lt_zero _)

/-- A timer of five milliseconds. -/
def fiveMs : Timer := ⟨5, 0, .once, 0, 0⟩

/-- Two timers that expire together leave in the order in which they came. -/
theorem timers_refine_two :
    ∃ m, Run.run step (create, []) [.push { fiveMs with arg := 1 }, .push { fiveMs with arg := 2 },
        .update 3, .pop] = .ok (m, [{ fiveMs with timeLeft := 2, arg := 1 }]) ∧
      m.timers = .ok [{ fiveMs with timeLeft := 2, arg := 2 }] := by
  obtain ⟨m, hrun, htimers, -⟩ := timers_refine [.push { fiveMs with arg := 1 },
    .push { fiveMs with arg := 2 }, .update 3, .pop] [{ fiveMs with timeLeft := 2, arg := 2 }]
    [{ fiveMs with timeLeft := 2, arg := 1 }] (by decide)
  exact ⟨m, hrun, htimers⟩

/-- **A timer that is one millisecond late reports `-1`**, though the manager is not empty. -/
theorem calcTimeout_minus_one :
    ∃ m, Run.run step (create, []) [.push fiveMs, .update 6] = .ok (m, []) ∧
      m.timers = .ok [{ fiveMs with timeLeft := -1 }] ∧ calcTimeout (some m) = .ok (true, -1) := by
  refine ⟨_, rfl, ?_, ?_⟩ <;> decide +kernel

end TimerManager

end MWebServer
