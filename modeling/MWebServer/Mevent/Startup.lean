import MWebServer.Mevent.Timer
import MWebServer.Lib.Run
import Mathlib

/-!
# Starting the loops (`mevent/servermanager.c`, `mevent/event_loop.c`)

`server_manager_create` starts a thread for every loop and waits until each of them has
made its loop.  The threads count themselves in `started_loop`, under a spin lock that
the main thread destroys when the count is complete; behind it the manager gets its timers.

A step is one statement of one thread, in an order that nothing is assumed of.  A thread
that waits for the lock takes steps that change nothing, and `started_loop++` is two steps,
a load and a store.

* `Startup.Inv` — what every step keeps.
* `Startup.step_spec` — what a step needs, and that it keeps the invariant.
* `Startup.safely_iff` — the only things that can go wrong are a loop that was not made, and a
  queue of the timers that was not.
-/

namespace MWebServer

/-! ## The threads -/

/-- `MAX_LOOP` -/
def maxLoop : Nat := 4

/-- `event_loop` -/
structure EventLoop where
  epollFd : Int
  deriving DecidableEq, Repr

/-- What the system answers to one statement: `malloc`, `epoll_create` and `pthread_create`. -/
structure SystemAnswer where
  malloc : Bool
  epollFd : Int
  thread : Bool
  deriving DecidableEq, Repr

/-- `event_loop_create`, with `epoller_create` -/
def eventLoopCreate (a : SystemAnswer) : Option EventLoop :=
  if ¬ a.malloc then none else if a.epollFd = -1 then none else some ⟨a.epollFd⟩

/-- The main thread, or the one that is started for `g_loops[i]`. -/
inductive Thread where
  | main
  | worker (i : Nat)
  deriving DecidableEq, Repr

/-- Where the main thread stands in `server_manager_create`. -/
inductive MainAt where
  /-- `malloc` of the manager -/
  | createManager
  /-- `manager->loop = event_loop_create()` -/
  | createLoop
  /-- The head of the `for` loop. -/
  | createThread (i : Nat)
  | lock
  /-- `started_loop == thread_num` -/
  | test
  /-- Behind the test, which says whether the loop is left. -/
  | unlock (all : Bool)
  | destroyLock
  /-- `manager->timer_manager = timer_manager_create()`: `malloc` of the timer manager, -/
  | createTimers
  /-- of its first queue, -/
  | createQueue0
  /-- and of the second, behind the first one, which was made or not. -/
  | createQueue1 (queue0 : Bool)
  /-- A manager is returned, or `NULL`. -/
  | returned (manager : Bool)
  deriving DecidableEq, Repr

/-- Where a worker stands in `spawn_thread`. -/
inductive WorkerAt where
  /-- There is no such thread. -/
  | absent
  /-- `g_loops[i] = event_loop_create()` -/
  | createLoop
  | lock
  /-- `started_loop++` loads the counter, -/
  | load
  /-- and stores it. -/
  | store (started : Int)
  | unlock
  /-- The call of `event_loop_run`. -/
  | runLoop
  | running
  deriving DecidableEq, Repr

/-- What the threads share, and where they stand. -/
structure Startup where
  /-- `thread_num`, and `manager->loop_num` -/
  threadNum : Nat
  main : MainAt
  worker : Nat → WorkerAt
  /-- `manager->loop` -/
  loop : Option EventLoop
  /-- `manager->timer_manager` -/
  timerManager : Option TimerManager
  /-- `g_loops` -/
  gLoops : List (Option EventLoop)
  /-- `started_loop` -/
  startedLoop : Int
  /-- Who holds `lock`. -/
  holder : Option Thread
  /-- `lock` is initialised, and not yet destroyed. -/
  lockLive : Bool

/-- The threads that are started for an argument `thread_num`. -/
def clampThreads (threadNum : Int) : Nat :=
  if threadNum < 0 ∨ threadNum > maxLoop then maxLoop else threadNum.toNat

namespace Startup

/-- The call of `server_manager_create`. -/
def init (threadNum : Int) : Startup where
  threadNum := clampThreads threadNum
  main := .createManager
  worker := fun _ => .absent
  loop := none
  timerManager := none
  gLoops := List.replicate maxLoop none
  startedLoop := 0
  holder := none
  lockLive := true

/-- The thread `i` goes on. -/
def setWorker (i : Nat) (at_ : WorkerAt) (s : Startup) : Startup :=
  { s with worker := Function.update s.worker i at_ }

/-- The main thread goes on. -/
def setMain (at_ : MainAt) (s : Startup) : Startup := { s with main := at_ }

/-- `pthread_spin_lock`: the thread goes on as `next` says when it has the lock, and tries again
otherwise. -/
def spinLock (t : Thread) (next : Startup → Startup) (s : Startup) : Except Fault Startup :=
  if ¬ s.lockLive then .error .useAfterFree
  else if s.holder = none then .ok (next { s with holder := some t })
  else .ok s

/-- `pthread_spin_unlock` -/
def spinUnlock (next : Startup → Startup) (s : Startup) : Except Fault Startup :=
  if ¬ s.lockLive then .error .useAfterFree else .ok (next { s with holder := none })

/-- A statement of `server_manager_create`. -/
def stepMain (a : SystemAnswer) (s : Startup) : Except Fault Startup :=
  match s.main with
  | .createManager => .ok (s.setMain (if a.malloc then .createLoop else .returned false))
  | .createLoop =>
      let s := { s with loop := eventLoopCreate a }
      .ok (s.setMain (if s.loop.isSome then .createThread 0 else .returned false))
  | .createThread i =>
      if i < s.threadNum then
        -- what `pthread_create` returns is not looked at
        .ok ((if a.thread then s.setWorker i .createLoop else s).setMain (.createThread (i + 1)))
      else .ok (s.setMain .lock)
  | .lock => s.spinLock .main (setMain .test)
  | .test => .ok (s.setMain (.unlock (decide (s.startedLoop = s.threadNum))))
  | .unlock all => s.spinUnlock (setMain (if all then .destroyLock else .lock))
  | .destroyLock => .ok ({ s with lockLive := false }.setMain .createTimers)
  | .createTimers => .ok (s.setMain (if a.malloc then .createQueue0 else .returned true))
  | .createQueue0 => .ok (s.setMain (.createQueue1 a.malloc))
  | .createQueue1 queue0 =>
      -- `memset` is called with both queues, whatever `malloc` has returned
      if queue0 ∧ a.malloc then
        .ok ({ s with timerManager := some .create }.setMain (.returned true))
      else .error .nullDeref
  | .returned _ => .ok s

/-- A statement of `spawn_thread`. -/
def stepWorker (i : Nat) (a : SystemAnswer) (s : Startup) : Except Fault Startup :=
  match s.worker i with
  | .absent => .ok s
  | .createLoop =>
      if i < s.gLoops.length then
        .ok ({ s with gLoops := s.gLoops.set i (eventLoopCreate a) }.setWorker i .lock)
      else .error .outOfBounds
  | .lock => s.spinLock (.worker i) (setWorker i .load)
  | .load => .ok (s.setWorker i (.store s.startedLoop))
  | .store started => .ok ({ s with startedLoop := started + 1 }.setWorker i .unlock)
  | .unlock => s.spinUnlock (setWorker i .runLoop)
  | .runLoop =>
      match s.gLoops[i]? with
      | some (some _) => .ok (s.setWorker i .running)
      | some none => .error .nullDeref
      | none => .error .outOfBounds
  | .running => .ok s

/-- The thread that goes on, and what the system answers to it. -/
structure Move where
  thread : Thread
  answer : SystemAnswer

/-- One step of one thread. -/
def step (s : Startup) (m : Move) : Except Fault Startup :=
  match m.thread with
  | .main => s.stepMain m.answer
  | .worker i => s.stepWorker i m.answer

/-! ## What every step keeps -/

end Startup

/-- The thread is between `pthread_spin_lock` and `pthread_spin_unlock`. -/
def WorkerAt.holds : WorkerAt → Bool
  | .load | .store _ | .unlock => true
  | _ => false

/-- The thread has counted itself. -/
def WorkerAt.counted : WorkerAt → Bool
  | .unlock | .runLoop | .running => true
  | _ => false

/-- The same for the main thread. -/
def MainAt.holds : MainAt → Bool
  | .test | .unlock _ => true
  | _ => false

/-- The main thread has seen that all loops are there. -/
def MainAt.passed : MainAt → Bool
  | .unlock all => all
  | .destroyLock | .createTimers | .createQueue0 | .createQueue1 _ => true
  | .returned manager => manager
  | _ => false

/-- The main thread has destroyed the lock. -/
def MainAt.destroyed : MainAt → Bool
  | .createTimers | .createQueue0 | .createQueue1 _ => true
  | .returned manager => manager
  | _ => false

/-- For how many of the `n` threads `pthread_create` has been called. -/
def MainAt.started (n : Nat) : MainAt → Nat
  | .createManager | .createLoop | .returned false => 0
  | .createThread i => i
  | _ => n

/-- Behind the lock all threads are there that were asked for, and have gone by the barrier. -/
theorem MainAt.of_destroyed {at_ : MainAt} (h : at_.destroyed = true) :
    at_.passed = true ∧ at_.holds = false ∧ ∀ n, at_.started n = n := by
  cases at_ with
  | returned manager =>
    obtain rfl : manager = true := h
    exact ⟨rfl, rfl, fun _ => rfl⟩
  | createTimers | createQueue0 | createQueue1 => exact ⟨rfl, rfl, fun _ => rfl⟩
  | _ => cases h

namespace Startup

variable {s s' : Startup} {a : SystemAnswer} {i : Nat}

@[simp] theorem setWorker_worker (j : Nat) (at_ : WorkerAt) :
    (s.setWorker i at_).worker j = if j = i then at_ else s.worker j := Function.update_apply ..

@[simp] theorem setWorker_main (at_ : WorkerAt) : (s.setWorker i at_).main = s.main := rfl

@[simp] theorem setWorker_threadNum (at_ : WorkerAt) :
    (s.setWorker i at_).threadNum = s.threadNum := rfl

@[simp] theorem setWorker_gLoops (at_ : WorkerAt) : (s.setWorker i at_).gLoops = s.gLoops := rfl

@[simp] theorem setWorker_startedLoop (at_ : WorkerAt) :
    (s.setWorker i at_).startedLoop = s.startedLoop := rfl

@[simp] theorem setWorker_holder (at_ : WorkerAt) : (s.setWorker i at_).holder = s.holder := rfl

@[simp] theorem setWorker_lockLive (at_ : WorkerAt) :
    (s.setWorker i at_).lockLive = s.lockLive := rfl

@[simp] theorem setMain_main (at_ : MainAt) : (s.setMain at_).main = at_ := rfl

@[simp] theorem setMain_threadNum (at_ : MainAt) : (s.setMain at_).threadNum = s.threadNum := rfl

@[simp] theorem setMain_worker (at_ : MainAt) : (s.setMain at_).worker = s.worker := rfl

@[simp] theorem setMain_holder (at_ : MainAt) : (s.setMain at_).holder = s.holder := rfl

@[simp] theorem setMain_startedLoop (at_ : MainAt) :
    (s.setMain at_).startedLoop = s.startedLoop := rfl

@[simp] theorem setMain_lockLive (at_ : MainAt) : (s.setMain at_).lockLive = s.lockLive := rfl

/-- The threads that have counted themselves. -/
def counted (s : Startup) : Finset Nat :=
  (Finset.range s.threadNum).filter fun i => (s.worker i).counted

/-- What holds between two steps, whatever the threads have done. -/
structure Inv (s : Startup) : Prop where
  threads : s.threadNum ≤ maxLoop
  loops : s.gLoops.length = maxLoop
  live : s.lockLive = false ↔ s.main.destroyed = true
  begun : s.main.started s.threadNum ≤ s.threadNum
  absent : ∀ i, s.main.started s.threadNum ≤ i → s.worker i = .absent
  mainHolds : s.holder = some .main ↔ s.main.holds = true
  workerHolds : ∀ i, s.holder = some (.worker i) ↔ (s.worker i).holds = true
  loaded : ∀ i started, s.worker i = .store started → started = s.startedLoop
  count : s.startedLoop = s.counted.card
  passed : s.main.passed = true →
    ∀ i, i < s.threadNum → s.worker i = .runLoop ∨ s.worker i = .running
  made : ∀ i, s.worker i = .running → ∃ loop, s.gLoops[i]? = some (some loop)

theorem clampThreads_le (threadNum : Int) : clampThreads threadNum ≤ maxLoop := by
  unfold clampThreads
  split_ifs <;> omega

theorem init_inv (threadNum : Int) : (init threadNum).Inv where
  threads := clampThreads_le threadNum
  loops := List.length_replicate
  live := by simp [init, MainAt.destroyed]
  begun := Nat.zero_le _
  absent _ _ := rfl
  mainHolds := by simp [init, MainAt.holds]
  workerHolds _ := by simp [init, WorkerAt.holds]
  loaded _ _ h := by cases h
  count := by simp [init, counted, WorkerAt.counted]
  passed h := by cases h
  made _ h := by cases h

/-- A thread that exists is one of those that are counted. -/
theorem Inv.lt (h : s.Inv) (hi : s.worker i ≠ .absent) : i < s.threadNum := by
  by_contra hge
  exact hi (h.absent i (h.begun.trans (not_lt.1 hge)))

/-- The counted threads when one of them goes on. -/
theorem counted_setWorker (hi : i < s.threadNum) (at_ : WorkerAt)
    (hsame : at_.counted = (s.worker i).counted) : (s.setWorker i at_).counted = s.counted := by
  unfold counted
  refine Finset.filter_congr fun j _ => ?_
  show (Function.update s.worker i at_ j).counted = true ↔ _
  by_cases hj : j = i
  · subst hj
    rw [Function.update_self, hsame]
  · rw [Function.update_of_ne hj]


/-- The threads that were not started are not, when another one goes on. -/
theorem Inv.absent_setWorker (h : s.Inv) (hi : s.worker i ≠ .absent) (at_ : WorkerAt) (j : Nat)
    (hj : s.main.started s.threadNum ≤ j) : (s.setWorker i at_).worker j = .absent := by
  have hne : j ≠ i := by
    rintro rfl
    exact hi (h.absent j hj)
  simpa [hne] using h.absent j hj

/-- The loops that run are there, when a thread goes on in front of `event_loop_run`. -/
theorem Inv.made_setWorker (h : s.Inv) {at_ : WorkerAt} (hat : at_ ≠ .running) (j : Nat)
    (hj : (s.setWorker i at_).worker j = .running) : ∃ loop, s.gLoops[j]? = some (some loop) := by
  by_cases hji : j = i
  · exact absurd (by simpa [hji] using hj) hat
  · exact h.made j (by simpa [hji] using hj)

/-- Behind the barrier no thread goes on but in front of `event_loop_run`. -/
theorem Inv.passed_setWorker (h : s.Inv) {at_ : WorkerAt}
    (hi : s.worker i = .runLoop ∨ s.worker i = .running → at_ = .runLoop ∨ at_ = .running)
    (hp : s.main.passed = true) (j : Nat) (hj : j < s.threadNum) :
    (s.setWorker i at_).worker j = .runLoop ∨ (s.setWorker i at_).worker j = .running := by
  have hpj := h.passed hp j hj
  by_cases hji : j = i
  · subst hji
    simpa using hi hpj
  · simpa [hji] using hpj

/-- The counter, when a thread goes on that has counted itself before, or has not done so now. -/
theorem Inv.count_setWorker (h : s.Inv) (hi : i < s.threadNum) {at_ : WorkerAt}
    (hsame : at_.counted = (s.worker i).counted) :
    s.startedLoop = ((s.setWorker i at_).counted.card : Int) := by
  rw [counted_setWorker hi at_ hsame]
  exact h.count

/-- A worker goes on, in or out of the section, and nothing but its loop changes. -/
theorem Inv.move (h : s.Inv) (hi : s.worker i ≠ .absent) {at_ : WorkerAt}
    {gLoops : List (Option EventLoop)} (hlen : gLoops.length = maxLoop)
    (hloops : ∀ j, j ≠ i → gLoops[j]? = s.gLoops[j]?) (hholds : at_.holds = (s.worker i).holds)
    (hcounted : at_.counted = (s.worker i).counted)
    (hstore : ∀ started, at_ = .store started → started = s.startedLoop)
    (hrun : s.worker i = .runLoop ∨ s.worker i = .running → at_ = .runLoop ∨ at_ = .running)
    (hmade : at_ = .running → ∃ loop, gLoops[i]? = some (some loop)) :
    ({ s with gLoops := gLoops }.setWorker i at_).Inv where
  threads := h.threads
  loops := hlen
  live := h.live
  begun := h.begun
  absent := h.absent_setWorker hi at_
  mainHolds := h.mainHolds
  workerHolds j := by
    have hj := h.workerHolds j
    by_cases hji : j = i
    · subst hji
      simpa [hholds] using hj
    · simpa [hji] using hj
  loaded j started := by
    by_cases hji : j = i
    · simpa [hji] using hstore started
    · simpa [hji] using h.loaded j started
  count := h.count_setWorker (h.lt hi) hcounted
  passed := h.passed_setWorker hrun
  made j := by
    by_cases hji : j = i
    · subst hji
      simpa using hmade
    · simpa [hji, hloops j hji] using h.made j

/-- The lock is free exactly if nobody is in the section. -/
theorem Inv.outside (h : s.Inv) (hfree : s.holder = none) :
    s.main.holds = false ∧ ∀ i, (s.worker i).holds = false := by
  have hmain := h.mainHolds
  refine ⟨?_, fun i => ?_⟩
  · rw [hfree] at hmain
    simpa using hmain
  · have hi := h.workerHolds i
    rw [hfree] at hi
    simpa using hi

/-- A worker takes the lock. -/
theorem Inv.lock (h : s.Inv) (hi : s.worker i = .lock) (hfree : s.holder = none) :
    ({ s with holder := some (.worker i) }.setWorker i .load).Inv := by
  obtain ⟨hmain, hworkers⟩ := h.outside hfree
  have hhere : s.worker i ≠ .absent := by rw [hi]; nofun
  exact {
    threads := h.threads
    loops := h.loops
    live := h.live
    begun := h.begun
    absent := h.absent_setWorker hhere _
    mainHolds := by simpa using hmain
    workerHolds := fun j => by
      by_cases hji : j = i
      · simp [hji, WorkerAt.holds]
      · simpa [hji, Ne.symm hji] using hworkers j
    loaded := fun j started => by
      by_cases hji : j = i
      · simp [hji]
      · simpa [hji] using h.loaded j started
    count := h.count_setWorker (h.lt hhere) (by rw [hi]; rfl)
    passed := h.passed_setWorker (by rw [hi]; simp)
    made := h.made_setWorker nofun }

/-- A worker that has loaded the counter stores it. -/
theorem Inv.store (h : s.Inv) {started : Int} (hi : s.worker i = .store started) :
    ({ s with startedLoop := started + 1 }.setWorker i .unlock).Inv := by
  have hhere : s.worker i ≠ .absent := by rw [hi]; nofun
  have howner := (h.workerHolds i).2 (by rw [hi]; rfl)
  have hnot : i ∉ s.counted := by
    unfold counted
    rw [Finset.mem_filter, hi]
    simp [WorkerAt.counted]
  have hcounted : (s.setWorker i .unlock).counted = insert i s.counted := by
    ext j
    unfold counted
    rw [Finset.mem_insert, Finset.mem_filter, Finset.mem_filter, Finset.mem_range, Finset.mem_range]
    by_cases hji : j = i
    · simp [hji, h.lt hhere, WorkerAt.counted]
    · simp [hji]
  exact {
    threads := h.threads
    loops := h.loops
    live := h.live
    begun := h.begun
    absent := h.absent_setWorker hhere _
    mainHolds := h.mainHolds
    workerHolds := fun j => by
      by_cases hji : j = i
      · simpa [hji, WorkerAt.holds] using howner
      · simpa [hji] using h.workerHolds j
    loaded := fun j v hj => by
      by_cases hji : j = i
      · simp [hji] at hj
      · -- nobody else is in the section
        rw [setWorker_worker, if_neg hji] at hj
        have hother := (h.workerHolds j).2 (by rw [hj]; rfl)
        rw [howner, Option.some.injEq, Thread.worker.injEq] at hother
        exact absurd hother.symm hji
    count := by
      show started + 1 = ((s.setWorker i .unlock).counted.card : Int)
      rw [hcounted, Finset.card_insert_of_notMem hnot, h.loaded i started hi, h.count]
      push_cast
      rfl
    passed := h.passed_setWorker (by rw [hi]; simp)
    made := h.made_setWorker nofun }

/-- A worker gives the lock back. -/
theorem Inv.unlock (h : s.Inv) (hi : s.worker i = .unlock) :
    ({ s with holder := none }.setWorker i .runLoop).Inv := by
  have hhere : s.worker i ≠ .absent := by rw [hi]; nofun
  have howner := (h.workerHolds i).2 (by rw [hi]; rfl)
  have hmain : s.main.holds = false := by
    have hm := h.mainHolds
    rw [howner] at hm
    simpa using hm
  exact {
    threads := h.threads
    loops := h.loops
    live := h.live
    begun := h.begun
    absent := h.absent_setWorker hhere _
    mainHolds := by simpa using hmain
    workerHolds := fun j => by
      by_cases hji : j = i
      · simp [hji, WorkerAt.holds]
      · have hj := h.workerHolds j
        rw [howner, Option.some.injEq, Thread.worker.injEq] at hj
        simpa [hji, Ne.symm hji] using hj
    loaded := fun j started => by
      by_cases hji : j = i
      · simp [hji]
      · simpa [hji] using h.loaded j started
    count := h.count_setWorker (h.lt hhere) (by rw [hi]; rfl)
    passed := h.passed_setWorker fun _ => Or.inl rfl
    made := h.made_setWorker nofun }

/-- The main thread goes on, in or out of the section. -/
theorem Inv.setMain (h : s.Inv) {at_ : MainAt} (hholds : at_.holds = s.main.holds)
    (hlive : at_.destroyed = s.main.destroyed)
    (hbegun : at_.started s.threadNum ≤ s.threadNum)
    (habsent : ∀ i, at_.started s.threadNum ≤ i → s.worker i = .absent)
    (hpassed : at_.passed = true →
      ∀ i, i < s.threadNum → s.worker i = .runLoop ∨ s.worker i = .running)
    (loop : Option EventLoop) (timers : Option TimerManager) :
    ({ s with loop := loop, timerManager := timers }.setMain at_).Inv where
  threads := h.threads
  loops := h.loops
  live := by
    show s.lockLive = false ↔ at_.destroyed = true
    rw [hlive]
    exact h.live
  begun := hbegun
  absent := habsent
  mainHolds := by
    have hm := h.mainHolds
    simpa [hholds] using hm
  workerHolds := h.workerHolds
  loaded := h.loaded
  count := h.count
  passed := hpassed
  made := h.made

/-- A thread is started. -/
theorem Inv.createThread (h : s.Inv) {i : Nat} (hm : s.main = .createThread i)
    (hi : i < s.threadNum) :
    ((s.setWorker i .createLoop).setMain (.createThread (i + 1))).Inv := by
  have habsent : s.worker i = .absent := h.absent i (by rw [hm]; exact le_rfl)
  have hsame := counted_setWorker hi .createLoop (by rw [habsent]; rfl)
  exact {
    threads := h.threads
    loops := h.loops
    live := by
      have hl := h.live
      rw [hm] at hl
      exact hl
    begun := hi
    absent := fun j hj => by
      have hij : i + 1 ≤ j := hj
      have hne : j ≠ i := by omega
      have hj' := h.absent j (by rw [hm]; exact Nat.le_of_succ_le hij)
      simpa [hne] using hj'
    mainHolds := by
      have hmain := h.mainHolds
      rw [hm] at hmain
      exact hmain
    workerHolds := fun j => by
      have hj := h.workerHolds j
      by_cases hji : j = i
      · subst hji
        rw [habsent] at hj
        simpa [WorkerAt.holds] using hj
      · simpa [hji] using hj
    loaded := fun j started => by
      by_cases hji : j = i
      · simp [hji]
      · simpa [hji] using h.loaded j started
    count := h.count_setWorker hi (by rw [habsent]; rfl)
    passed := nofun
    made := h.made_setWorker nofun }

/-- Everybody has counted himself, and nobody else is in the section. -/
theorem Inv.all_run (h : s.Inv) (hholds : s.main.holds = true) (hall : s.startedLoop = s.threadNum) :
    ∀ i, i < s.threadNum → s.worker i = .runLoop ∨ s.worker i = .running := by
  have hcard : (Finset.range s.threadNum).card ≤ s.counted.card := by
    have hcount := h.count
    rw [Finset.card_range]
    omega
  have hrange : s.counted = Finset.range s.threadNum :=
    Finset.eq_of_subset_of_card_le (Finset.filter_subset _ _) hcard
  have howner := h.mainHolds.2 hholds
  intro i hi
  have hmem : i ∈ s.counted := by
    rw [hrange]
    exact Finset.mem_range.2 hi
  have hcounted := (Finset.mem_filter.1 hmem).2
  have hout := h.workerHolds i
  rw [howner] at hout
  cases hw : s.worker i with
  | runLoop => exact Or.inl rfl
  | running => exact Or.inr rfl
  | unlock =>
    rw [hw] at hout
    simp [WorkerAt.holds] at hout
  | absent | createLoop | lock | load | store =>
    rw [hw] at hcounted
    cases hcounted

/-- The main thread takes the lock. -/
theorem Inv.lockMain (h : s.Inv) (hm : s.main = .lock) (hfree : s.holder = none) :
    ({ s with holder := some .main }.setMain .test).Inv := by
  obtain ⟨-, hworkers⟩ := h.outside hfree
  exact {
    threads := h.threads
    loops := h.loops
    live := by
      have hl := h.live
      rw [hm] at hl
      exact hl
    begun := le_rfl
    absent := fun j hj => h.absent j (by rw [hm]; exact hj)
    mainHolds := by simp [MainAt.holds]
    workerHolds := fun j => by simpa using hworkers j
    loaded := h.loaded
    count := h.count
    passed := nofun
    made := h.made }

/-- The main thread gives the lock back. -/
theorem Inv.unlockMain (h : s.Inv) {all : Bool} (hm : s.main = .unlock all) :
    ({ s with holder := none }.setMain (if all then .destroyLock else .lock)).Inv := by
  have howner := h.mainHolds.2 (by rw [hm]; rfl)
  exact {
    threads := h.threads
    loops := h.loops
    live := by
      have hl := h.live
      rw [hm] at hl
      cases all <;> exact hl
    begun := by cases all <;> exact le_rfl
    absent := fun j hj => h.absent j (by rw [hm]; cases all <;> exact hj)
    mainHolds := by cases all <;> simp [MainAt.holds]
    workerHolds := fun j => by
      have hj := h.workerHolds j
      rw [howner] at hj
      simpa using hj
    loaded := h.loaded
    count := h.count
    passed := fun hp => h.passed (by rw [hm]; cases all <;> exact hp)
    made := h.made }

/-- The main thread destroys the lock. -/
theorem Inv.destroyLock (h : s.Inv) (hm : s.main = .destroyLock) :
    ({ s with lockLive := false }.setMain .createTimers).Inv where
  threads := h.threads
  loops := h.loops
  live := iff_of_true rfl rfl
  begun := le_rfl
  absent j hj := h.absent j (by rw [hm]; exact hj)
  mainHolds := by
    have hmain := h.mainHolds
    rw [hm] at hmain
    exact hmain
  workerHolds := h.workerHolds
  loaded := h.loaded
  count := h.count
  passed _ := h.passed (by rw [hm]; rfl)
  made := h.made

/-- The main thread goes on behind the lock. -/
theorem Inv.timers (h : s.Inv) (hm : s.main.destroyed = true) {at_ : MainAt}
    (hat : at_.destroyed = true) (timers : Option TimerManager) :
    ({ s with timerManager := timers }.setMain at_).Inv := by
  obtain ⟨hpassed, hout, hall⟩ := MainAt.of_destroyed hm
  obtain ⟨-, hout', hall'⟩ := MainAt.of_destroyed hat
  exact h.setMain (hout'.trans hout.symm) (hat.trans hm.symm) (hall' _).le
    (fun i hi => h.absent i (by rw [hall, ← hall' s.threadNum]; exact hi))
    (fun _ => h.passed hpassed) s.loop timers

/-- Where the lock is touched, it is there. -/
theorem Inv.lockLive (h : s.Inv) (hm : s.main.destroyed = false) : s.lockLive = true :=
  Bool.not_eq_false _ |>.mp fun hdead => Bool.noConfusion (hm.symm.trans (h.live.1 hdead))

/-- A worker in front of the end of the section is there before the lock is destroyed. -/
theorem Inv.lockLive_worker (h : s.Inv)
    (hi : s.worker i = .lock ∨ s.worker i = .unlock) : s.lockLive = true := by
  refine h.lockLive (Bool.eq_false_iff.2 fun hm => ?_)
  have hlt := h.lt (i := i) (by rcases hi with hi | hi <;> rw [hi] <;> nofun)
  have hrun := h.passed (MainAt.of_destroyed hm).1 i hlt
  rcases hi with hi | hi <;> rw [hi] at hrun <;> simp at hrun

theorem spinLock_live (hlive : s.lockLive = true) (t : Thread) (next : Startup → Startup) :
    s.spinLock t next = .ok (if s.holder = none then next { s with holder := some t } else s) := by
  unfold spinLock
  rw [if_neg (not_not_intro hlive)]
  split_ifs <;> rfl

theorem spinUnlock_live (hlive : s.lockLive = true) (next : Startup → Startup) :
    s.spinUnlock next = .ok (next { s with holder := none }) := if_neg (not_not_intro hlive)

/-- The main thread calls `memset` with a queue of the timers for which there was no memory. -/
def ClearsNoQueue (s : Startup) (a : SystemAnswer) : Prop :=
  ∃ queue0, s.main = .createQueue1 queue0 ∧ ¬ (queue0 = true ∧ a.malloc = true)

/-- **A statement of the main thread fails only where a queue was not made**, and keeps the
invariant. -/
theorem stepMain_spec (h : s.Inv) (a : SystemAnswer) :
    (s.ClearsNoQueue a ∧ s.stepMain a = .error .nullDeref) ∨
      (¬ s.ClearsNoQueue a ∧ ∃ s', s.stepMain a = .ok s' ∧ s'.Inv) := by
  unfold stepMain ClearsNoQueue
  cases hm : s.main with
  | createManager =>
    refine Or.inr ⟨by simp, _, rfl, h.setMain ?_ ?_ ?_ ?_ ?_ s.loop s.timerManager⟩
    · rw [hm]
      split_ifs <;> rfl
    · rw [hm]
      split_ifs <;> rfl
    · split_ifs <;> exact Nat.zero_le _
    · exact fun j _ => h.absent j (by rw [hm]; exact Nat.zero_le _)
    · split_ifs <;> exact nofun
  | createLoop =>
    refine Or.inr ⟨by simp, _, rfl, h.setMain ?_ ?_ ?_ ?_ ?_ (eventLoopCreate a) s.timerManager⟩
    · rw [hm]
      split_ifs <;> rfl
    · rw [hm]
      split_ifs <;> rfl
    · split_ifs <;> exact Nat.zero_le _
    · exact fun j _ => h.absent j (by rw [hm]; exact Nat.zero_le _)
    · split_ifs <;> exact nofun
  | createThread i =>
    have hbegun : i ≤ s.threadNum := by
      have hb := h.begun
      rwa [hm] at hb
    simp only
    by_cases hi : i < s.threadNum
    · rw [if_pos hi]
      refine Or.inr ⟨by simp, _, rfl, ?_⟩
      split_ifs
      · exact h.createThread hm hi
      · refine h.setMain ?_ ?_ ?_ ?_ ?_ s.loop s.timerManager
        · rw [hm]
          rfl
        · rw [hm]
          rfl
        · exact hi
        · exact fun j hj => h.absent j (by rw [hm]; exact Nat.le_of_succ_le hj)
        · exact nofun
    · rw [if_neg hi]
      refine Or.inr ⟨by simp, _, rfl, h.setMain ?_ ?_ ?_ ?_ ?_ s.loop s.timerManager⟩
      · rw [hm]
        rfl
      · rw [hm]
        rfl
      · exact le_rfl
      · exact fun j hj => h.absent j (by rw [hm]; exact hbegun.trans hj)
      · exact nofun
  | lock =>
    have hlive := h.lockLive (by rw [hm]; rfl)
    refine Or.inr ⟨by simp, _, spinLock_live hlive .main _, ?_⟩
    split_ifs with hfree
    · exact h.lockMain hm hfree
    · exact h
  | test =>
    refine Or.inr ⟨by simp, _, rfl, h.setMain (by rw [hm]; rfl) (by rw [hm]; rfl) le_rfl ?_ ?_ s.loop
      s.timerManager⟩
    · exact fun j hj => h.absent j (by rw [hm]; exact hj)
    · exact fun hp => h.all_run (by rw [hm]; rfl) (of_decide_eq_true hp)
  | unlock all =>
    have hlive := h.lockLive (by rw [hm]; rfl)
    exact Or.inr ⟨by simp, _, spinUnlock_live hlive _, h.unlockMain hm⟩
  | destroyLock => exact Or.inr ⟨by simp, _, rfl, h.destroyLock hm⟩
  | createTimers =>
    refine Or.inr ⟨by simp, _, rfl, h.timers (by rw [hm]; rfl) ?_ s.timerManager⟩
    split_ifs <;> rfl
  | createQueue0 =>
    exact Or.inr ⟨by simp, _, rfl, h.timers (by rw [hm]; rfl) rfl s.timerManager⟩
  | createQueue1 queue0 =>
    simp only
    by_cases hmade : queue0 = true ∧ a.malloc = true
    · rw [if_pos hmade]
      refine Or.inr ⟨?_, _, rfl, h.timers (by rw [hm]; rfl) rfl (some .create)⟩
      rintro ⟨queue0', hat, hnot⟩
      obtain rfl := MainAt.createQueue1.inj hat
      exact hnot hmade
    · rw [if_neg hmade]
      exact Or.inl ⟨⟨queue0, rfl, hmade⟩, rfl⟩
  | returned manager => exact Or.inr ⟨by simp, s, rfl, h⟩

/-- The thread `i` calls `event_loop_run` with a loop that was not made. -/
def RunsNoLoop (s : Startup) (i : Nat) : Prop := s.worker i = .runLoop ∧ s.gLoops[i]? = some none

/-- **A statement of a worker fails only where it runs no loop**, and keeps the invariant. -/
theorem stepWorker_spec (h : s.Inv) (i : Nat) (a : SystemAnswer) :
    (s.RunsNoLoop i ∧ s.stepWorker i a = .error .nullDeref) ∨
      (¬ s.RunsNoLoop i ∧ ∃ s', s.stepWorker i a = .ok s' ∧ s'.Inv) := by
  have hthere : s.worker i ≠ .absent → i < s.gLoops.length := fun hi => by
    have := h.lt hi
    have := h.threads
    have := h.loops
    omega
  unfold stepWorker RunsNoLoop
  cases hw : s.worker i with
  | absent => exact Or.inr ⟨by simp, s, rfl, h⟩
  | createLoop =>
    have hi : s.worker i ≠ .absent := by rw [hw]; nofun
    simp only [if_pos (hthere hi)]
    exact Or.inr ⟨by simp, _, rfl, h.move hi (by simpa using h.loops)
      (fun j hj => List.getElem?_set_ne (Ne.symm hj)) (by rw [hw]; rfl) (by rw [hw]; rfl) nofun
      (by rw [hw]; simp) nofun⟩
  | lock =>
    refine Or.inr ⟨by simp, _, spinLock_live (h.lockLive_worker (Or.inl hw)) (.worker i) _, ?_⟩
    split_ifs with hfree
    · exact h.lock hw hfree
    · exact h
  | load =>
    exact Or.inr ⟨by simp, _, rfl, h.move (by rw [hw]; nofun) h.loops (fun _ _ => rfl)
      (by rw [hw]; rfl) (by rw [hw]; rfl) (fun _ hv => (WorkerAt.store.inj hv).symm)
      (by rw [hw]; simp) nofun⟩
  | store started => exact Or.inr ⟨by simp, _, rfl, h.store hw⟩
  | unlock =>
    exact Or.inr ⟨by simp, _, spinUnlock_live (h.lockLive_worker (Or.inr hw)) _, h.unlock hw⟩
  | runLoop =>
    have hi : s.worker i ≠ .absent := by rw [hw]; nofun
    obtain ⟨x, hx⟩ : ∃ x, s.gLoops[i]? = some x := ⟨_, List.getElem?_eq_getElem (hthere hi)⟩
    simp only [hx]
    cases x with
    | none => exact Or.inl ⟨by simp, rfl⟩
    | some loop =>
      exact Or.inr ⟨by simp, _, rfl, h.move hi h.loops (fun _ _ => rfl) (by rw [hw]; rfl)
        (by rw [hw]; rfl) nofun (fun _ => Or.inr rfl) (fun _ => ⟨loop, hx⟩)⟩
  | running => exact Or.inr ⟨by simp, s, rfl, h⟩

/-- The step uses what could not be made: a loop that is run, or a queue that is cleared. -/
def Unmade (s : Startup) (m : Move) : Prop :=
  match m.thread with
  | .main => s.ClearsNoQueue m.answer
  | .worker i => s.RunsNoLoop i

/-- **One step** fails exactly where it uses what was not made. -/
theorem step_cases (h : s.Inv) (m : Move) :
    (s.Unmade m ∧ s.step m = .error .nullDeref) ∨
      (¬ s.Unmade m ∧ ∃ s', s.step m = .ok s' ∧ s'.Inv) := by
  unfold step Unmade
  cases m.thread with
  | main => exact stepMain_spec h m.answer
  | worker i => exact stepWorker_spec h i m.answer

theorem step_spec (h : s.Inv) (m : Move) : (∃ s', s.step m = .ok s' ∧ s'.Inv) ↔ ¬ s.Unmade m := by
  rcases step_cases h m with ⟨hun, hfault⟩ | ⟨hmade, hok⟩
  · refine iff_of_false ?_ (not_not_intro hun)
    rintro ⟨s', hok, -⟩
    rw [hfault] at hok
    cases hok
  · exact iff_of_true hok hmade

theorem step_inv (h : s.Inv) {m : Move} (hok : s.step m = .ok s') : s'.Inv := by
  rcases step_cases h m with ⟨-, hfault⟩ | ⟨-, t, ht, hinv⟩
  · rw [hfault] at hok
    cases hok
  · rwa [Run.ok_unique hok ht]

/-- **What a step of a worker does.**  It goes on to some place, and writes `g_loops` only where it
makes its own loop. -/
theorem stepWorker_cases (hok : s.stepWorker i a = .ok s') :
    s'.main = s.main ∧ s'.loop = s.loop ∧ s'.threadNum = s.threadNum ∧
      ∃ at_, s'.worker = (s.setWorker i at_).worker ∧ (s.worker i = .absent → at_ = .absent) ∧
        ((s.worker i = .createLoop ∧ i < s.gLoops.length ∧
            s'.gLoops = s.gLoops.set i (eventLoopCreate a)) ∨
          (s.worker i ≠ .createLoop ∧ s'.gLoops = s.gLoops)) := by
  have hwaits : s.worker = (s.setWorker i (s.worker i)).worker := (Function.update_eq_self i _).symm
  unfold stepWorker spinLock spinUnlock at hok
  cases hw : s.worker i with
  | absent | running =>
    rw [hw] at hok hwaits
    obtain rfl := Except.ok.inj hok
    exact ⟨rfl, rfl, rfl, _, hwaits, fun hsame => hsame, Or.inr ⟨by decide, rfl⟩⟩
  | createLoop =>
    rw [hw] at hok
    simp only at hok
    split_ifs at hok with hi
    obtain rfl := Except.ok.inj hok
    exact ⟨rfl, rfl, rfl, _, rfl, fun hsame => WorkerAt.noConfusion hsame, Or.inl ⟨rfl, hi, rfl⟩⟩
  | load | store =>
    rw [hw] at hok
    obtain rfl := Except.ok.inj hok
    exact ⟨rfl, rfl, rfl, _, rfl, fun hsame => WorkerAt.noConfusion hsame,
      Or.inr ⟨fun hsame => WorkerAt.noConfusion hsame, rfl⟩⟩
  | unlock =>
    rw [hw] at hok
    simp only at hok
    split_ifs at hok
    obtain rfl := Except.ok.inj hok
    exact ⟨rfl, rfl, rfl, _, rfl, fun hsame => WorkerAt.noConfusion hsame, Or.inr ⟨by decide, rfl⟩⟩
  | lock =>
    rw [hw] at hok hwaits
    simp only at hok
    split_ifs at hok
    · obtain rfl := Except.ok.inj hok
      exact ⟨rfl, rfl, rfl, _, rfl, fun hsame => WorkerAt.noConfusion hsame, Or.inr ⟨by decide, rfl⟩⟩
    · obtain rfl := Except.ok.inj hok
      exact ⟨rfl, rfl, rfl, _, hwaits, fun hsame => WorkerAt.noConfusion hsame,
        Or.inr ⟨by decide, rfl⟩⟩
  | runLoop =>
    rw [hw] at hok
    simp only at hok
    split at hok
    · obtain rfl := Except.ok.inj hok
      exact ⟨rfl, rfl, rfl, _, rfl, fun hsame => WorkerAt.noConfusion hsame, Or.inr ⟨by decide, rfl⟩⟩
    · cases hok
    · cases hok

/-! ## Safety -/

/-- The thread is between `pthread_spin_lock` and `pthread_spin_unlock`. -/
def inSection (s : Startup) : Thread → Bool
  | .main => s.main.holds
  | .worker i => (s.worker i).holds

/-- The start is in order. -/
structure Orderly (s : Startup) : Prop where
  /-- One thread at a time uses the counter. -/
  exclusive : ∀ t u, s.inSection t = true → s.inSection u = true → t = u
  /-- No thread is forgotten in the count. -/
  counted : s.startedLoop = s.counted.card
  /-- Behind the barrier all threads have made their loops, and are done with the lock. -/
  barrier : s.main.passed = true →
    ∀ i, i < s.threadNum → s.worker i = .runLoop ∨ s.worker i = .running
  /-- The loops that run are there. -/
  made : ∀ i, s.worker i = .running → ∃ loop, s.gLoops[i]? = some (some loop)

/-- Who is in the section holds the lock. -/
theorem Inv.holder_eq (h : s.Inv) {t : Thread} (ht : s.inSection t = true) : s.holder = some t := by
  cases t with
  | main => exact h.mainHolds.2 ht
  | worker i => exact (h.workerHolds i).2 ht

theorem Inv.orderly (h : s.Inv) : s.Orderly where
  exclusive _ _ ht hu := Option.some.inj ((h.holder_eq ht).symm.trans (h.holder_eq hu))
  counted := h.count
  barrier := h.passed
  made := h.made

/-- **The start is in order however the threads take turns, as long as no thread runs a loop that
was not made, or clears a queue that was not.**  The lock is not touched when it is destroyed,
nothing is written behind `g_loops`, and the main thread goes by when all loops are there. -/
theorem safely_iff (threadNum : Int) (moves : List Move) :
    Run.Safely step Orderly (init threadNum) moves ↔
      Run.Meets step (fun s m => ¬ s.Unmade m) (init threadNum) moves := by
  refine Run.safely_iff_meets (I := Inv) (L := fun _ _ => True) (fun s h => h.orderly) ?_ ?_
    (init_inv threadNum) ?_
  · exact fun s m h _ hmade => (step_spec h m).2 hmade
  · exact fun s m s' h _ hok => (step_spec h m).1 ⟨s', hok, step_inv h hok⟩
  · exact Run.meets_of_invariant (I := fun _ => True) (fun _ _ _ _ _ => trivial)
      (fun _ _ _ => trivial) trivial moves

end Startup

end MWebServer
