import MWebServer.Mevent.Startup

/-!
# The end of the start (`server_manager_create`)

The main thread passes when every thread it has asked for has counted itself.  It looks at
neither what `pthread_create` returns nor how long it has waited, nor at the queues that
`malloc` gives it for the timers.

* `Startup.Inv.progress` — as long as no thread is missing, one of them can go on, and less
  is left to be done.
* `Startup.openable_of_step` — a thread that is missing stays so.
* `Startup.returns_iff` — when the main thread can still come to the end.
-/

namespace MWebServer

/-! ## What is left to be done -/

/-- How many statements a worker has left until it runs its loop. -/
def WorkerAt.left : WorkerAt → Nat
  | .absent => 6
  | .createLoop => 5
  | .lock => 4
  | .load => 3
  | .store _ => 2
  | .unlock => 1
  | .runLoop | .running => 0

/-- How far the main thread is from the lock, or from its end. -/
def MainAt.left : MainAt → Nat
  | .createManager => 9
  | .createLoop => 8
  | .createThread _ => 7
  | .test => 6
  | .unlock _ => 5
  | .destroyLock => 4
  | .createTimers => 3
  | .createQueue0 => 2
  | .createQueue1 _ => 1
  | .lock | .returned _ => 0

namespace Startup

variable {s s' : Startup} {a : SystemAnswer} {i : Nat}

/-- No call has failed that the main thread waits for, or whose result it uses unseen. -/
structure Openable (s : Startup) : Prop where
  manager : s.main ≠ .returned false
  threads : ∀ i, i < s.main.started s.threadNum → s.worker i ≠ .absent
  queue : s.main ≠ .createQueue1 false

/-- What is left to be done before the main thread can pass. -/
def left (s : Startup) : Nat :=
  (∑ i ∈ Finset.range s.threadNum, (s.worker i).left) + s.main.left

/-- A system that grants everything. -/
def granting : SystemAnswer := ⟨true, 0, true⟩

/-- A worker that goes on has less left. -/
theorem left_setWorker (hi : i < s.threadNum) {at_ : WorkerAt}
    (hlt : at_.left < (s.worker i).left) : (s.setWorker i at_).left < s.left := by
  have hsum : ∑ j ∈ Finset.range s.threadNum, ((s.setWorker i at_).worker j).left <
      ∑ j ∈ Finset.range s.threadNum, (s.worker j).left := by
    refine Finset.sum_lt_sum (fun j _ => ?_) ⟨i, Finset.mem_range.2 hi, by simpa using hlt⟩
    by_cases hji : j = i
    · subst hji
      simpa using hlt.le
    · simp [hji]
  exact Nat.add_lt_add_right hsum _

/-- The main thread is in front of the lock, and every other one is done with it. -/
def AtBarrier (s : Startup) : Prop :=
  s.main = .lock ∧ ∀ i, i < s.threadNum → s.worker i = .runLoop ∨ s.worker i = .running

/-- A worker that can go on. -/
theorem Inv.worker_goes (h : s.Inv) (ho : s.Openable) (hi : i < s.threadNum)
    (hstarted : s.main.started s.threadNum = s.threadNum)
    (hbefore : ¬ (s.worker i = .runLoop ∨ s.worker i = .running))
    (hlock : s.worker i = .lock → s.holder = none) :
    ∃ at_ t, s.stepWorker i granting = .ok t ∧ t.main = s.main ∧ t.threadNum = s.threadNum ∧
      t.worker = (s.setWorker i at_).worker ∧ at_ ≠ .absent ∧
        at_.left < (s.worker i).left := by
  have hlen : i < s.gLoops.length := by
    have := h.threads
    have := h.loops
    omega
  unfold stepWorker
  cases hw : s.worker i with
  | absent => exact absurd hw (ho.threads i (by rw [hstarted]; exact hi))
  | createLoop =>
    simp only [if_pos hlen]
    exact ⟨.lock, _, rfl, rfl, rfl, rfl, nofun, by decide⟩
  | lock =>
    refine ⟨.load, _, spinLock_live (h.lockLive_worker (Or.inl hw)) (.worker i) _, ?_⟩
    rw [if_pos (hlock hw)]
    exact ⟨rfl, rfl, rfl, nofun, by decide⟩
  | load => exact ⟨.store s.startedLoop, _, rfl, rfl, rfl, rfl, nofun, by simp [WorkerAt.left]⟩
  | store started => exact ⟨.unlock, _, rfl, rfl, rfl, rfl, nofun, by simp [WorkerAt.left]⟩
  | unlock =>
    exact ⟨.runLoop, _, spinUnlock_live (h.lockLive_worker (Or.inr hw)) _, rfl, rfl, rfl, nofun,
      by decide⟩
  | runLoop => exact absurd (Or.inl hw) hbefore
  | running => exact absurd (Or.inr hw) hbefore

/-- The main thread can go on, unless it waits for the lock. -/
theorem Inv.main_goes (h : s.Inv) (ho : s.Openable) (hlock : s.main ≠ .lock)
    (hend : s.main ≠ .returned true) :
    ∃ t, s.stepMain granting = .ok t ∧ t.Openable ∧ t.left < s.left := by
  have hthreads := ho.threads
  -- a step of the main thread alone
  have hgo : ∀ (at_ : MainAt) {t : Startup}, t.main = at_ → t.worker = s.worker →
      t.threadNum = s.threadNum → at_ ≠ .returned false ∧ at_ ≠ .createQueue1 false →
      at_.started s.threadNum ≤ s.main.started s.threadNum → at_.left < s.main.left →
      t.Openable ∧ t.left < s.left := by
    rintro at_ t rfl hworker hnum hne hstarted hlt
    refine ⟨⟨hne.1, fun i hi => ?_, hne.2⟩, ?_⟩
    · rw [hnum] at hi
      rw [hworker]
      exact hthreads i (lt_of_lt_of_le hi hstarted)
    · unfold left
      rw [hworker, hnum]
      exact Nat.add_lt_add_left hlt _
  unfold stepMain
  cases hm : s.main with
  | createManager =>
    rw [hm] at hgo
    exact ⟨_, rfl, hgo .createLoop rfl rfl rfl (by decide) le_rfl (by decide)⟩
  | createLoop =>
    rw [hm] at hgo
    exact ⟨_, rfl, hgo (.createThread 0) rfl rfl rfl (by decide) le_rfl (by decide)⟩
  | createThread i =>
    have hbegun : i ≤ s.threadNum := by
      have hb := h.begun
      rwa [hm] at hb
    rw [hm] at hthreads hgo
    simp only
    by_cases hi : i < s.threadNum
    · rw [if_pos hi]
      have habsent : s.worker i = .absent := h.absent i (by rw [hm]; exact le_rfl)
      refine ⟨_, rfl, ⟨nofun, fun j hj => ?_, nofun⟩, ?_⟩
      · have hij : j < i + 1 := hj
        show (s.setWorker i .createLoop).worker j ≠ .absent
        rw [setWorker_worker]
        split_ifs with hji
        · exact nofun
        · exact hthreads j (by show j < i; omega)
      · have hlt : (s.setWorker i .createLoop).left < s.left :=
          left_setWorker hi (by rw [habsent]; decide)
        simpa [left, MainAt.left, hm, granting] using hlt
    · rw [if_neg hi]
      exact ⟨_, rfl, hgo .lock rfl rfl rfl (by decide) (not_lt.1 hi) (by show (0 : Nat) < 7; decide)⟩
  | lock => exact absurd hm hlock
  | test =>
    rw [hm] at hgo
    exact ⟨_, rfl, hgo (.unlock _) rfl rfl rfl ⟨nofun, nofun⟩ le_rfl (by show (5 : Nat) < 6; decide)⟩
  | unlock all =>
    have hlive := h.lockLive (by rw [hm]; rfl)
    rw [hm] at hgo
    refine ⟨_, spinUnlock_live hlive _, ?_⟩
    cases all
    · exact hgo .lock rfl rfl rfl (by decide) le_rfl (by decide)
    · exact hgo .destroyLock rfl rfl rfl (by decide) le_rfl (by decide)
  | destroyLock =>
    rw [hm] at hgo
    exact ⟨_, rfl, hgo .createTimers rfl rfl rfl (by decide) le_rfl (by decide)⟩
  | createTimers =>
    rw [hm] at hgo
    exact ⟨_, rfl, hgo .createQueue0 rfl rfl rfl (by decide) le_rfl (by decide)⟩
  | createQueue0 =>
    rw [hm] at hgo
    exact ⟨_, rfl, hgo (.createQueue1 true) rfl rfl rfl (by decide) le_rfl (by decide)⟩
  | createQueue1 queue0 =>
    rw [hm] at hgo
    cases queue0
    · exact absurd hm ho.queue
    · exact ⟨_, rfl, hgo (.returned true) rfl rfl rfl (by decide) le_rfl (by decide)⟩
  | returned manager =>
    cases manager
    · exact absurd hm ho.manager
    · exact absurd hm hend

/-- **While nothing has failed that the main thread waits for, some thread can go on.** -/
theorem Inv.progress (h : s.Inv) (ho : s.Openable) (hnot : ¬ s.AtBarrier)
    (hend : s.main ≠ .returned true) :
    ∃ m t, s.step m = .ok t ∧ (t.Inv ∧ t.Openable) ∧ t.left < s.left := by
  by_cases hm : s.main = .lock
  · obtain ⟨i, hi, hbefore, hlock⟩ : ∃ i, i < s.threadNum ∧
        ¬ (s.worker i = .runLoop ∨ s.worker i = .running) ∧
          (s.worker i = .lock → s.holder = none) := by
      cases hholder : s.holder with
      | none =>
        by_contra hall
        refine hnot ⟨hm, fun i hi => ?_⟩
        by_contra hbefore
        exact hall ⟨i, hi, hbefore, fun _ => rfl⟩
      | some t =>
        cases t with
        | main =>
          have hmain := h.mainHolds.1 hholder
          rw [hm] at hmain
          cases hmain
        | worker i =>
          -- the thread that has the lock
          have hholds := (h.workerHolds i).1 hholder
          refine ⟨i, h.lt fun habsent => ?_, ?_, fun hw => ?_⟩
          · rw [habsent] at hholds
            cases hholds
          · rintro (hw | hw) <;> rw [hw] at hholds <;> cases hholds
          · rw [hw] at hholds
            cases hholds
    have hstarted : s.main.started s.threadNum = s.threadNum := by rw [hm]; rfl
    obtain ⟨at_, t, hok, hmain, hnum, hworker, hne, hlt⟩ :=
      h.worker_goes ho hi hstarted hbefore hlock
    refine ⟨⟨.worker i, granting⟩, t, hok, ⟨step_inv h (m := ⟨.worker i, granting⟩) hok, ?_⟩, ?_⟩
    · refine ⟨by rw [hmain]; exact ho.manager, fun j hj => ?_, by rw [hmain]; exact ho.queue⟩
      rw [hmain, hnum] at hj
      rw [hworker, setWorker_worker]
      split_ifs
      · exact hne
      · exact ho.threads j hj
    · have hleft := left_setWorker hi hlt
      have hsame : t.left = (s.setWorker i at_).left := by
        unfold left
        rw [hworker, hmain, hnum]
        rfl
      rwa [hsame]
  · obtain ⟨t, hok, ho', hlt⟩ := h.main_goes ho hm hend
    exact ⟨⟨.main, granting⟩, t, hok, ⟨step_inv h (m := ⟨.main, granting⟩) hok, ho'⟩, hlt⟩

/-- **At the barrier the main thread is free to go.** -/
theorem AtBarrier.returns (h : s.Inv) (hat : s.AtBarrier) :
    ∃ moves t, Run.run step s moves = .ok t ∧ t.main = .returned true := by
  obtain ⟨hm, hrun⟩ := hat
  have hlive := h.lockLive (by rw [hm]; rfl)
  have hfree : s.holder = none := by
    cases hholder : s.holder with
    | none => rfl
    | some t =>
      cases t with
      | main =>
        have hmain := h.mainHolds.1 hholder
        rw [hm] at hmain
        cases hmain
      | worker i =>
        have hholds := (h.workerHolds i).1 hholder
        have hi := h.lt (i := i) fun habsent => by
          rw [habsent] at hholds
          cases hholds
        rcases hrun i hi with hw | hw <;> rw [hw] at hholds <;> cases hholds
  have hcounted : s.counted = Finset.range s.threadNum := by
    refine Finset.filter_true_of_mem fun i hi => ?_
    rcases hrun i (Finset.mem_range.1 hi) with hw | hw <;> rw [hw] <;> rfl
  have hall : s.startedLoop = s.threadNum := by
    rw [h.count, hcounted, Finset.card_range]
  let m : Move := ⟨.main, granting⟩
  let s₁ := { s with holder := some .main }.setMain .test
  let s₂ := s₁.setMain (.unlock true)
  let s₃ := { s₂ with holder := none }.setMain .destroyLock
  have h1 : s.step m = .ok s₁ := by
    show s.stepMain granting = _
    unfold stepMain
    rw [hm]
    simp only
    rw [spinLock_live hlive, if_pos hfree]
  have h2 : s₁.step m = .ok s₂ := by
    show Except.ok (s₁.setMain (.unlock (decide (s.startedLoop = s.threadNum)))) = _
    rw [decide_eq_true hall]
  have h3 : s₂.step m = .ok s₃ := by
    show s₂.spinUnlock (setMain .destroyLock) = _
    exact spinUnlock_live (s := s₂) hlive _
  -- behind the lock nothing stands in the way
  let s₄ := { s₃ with lockLive := false }.setMain (.createQueue1 true)
  have h4 : Run.run step s₃ [m, m, m] = .ok s₄ := rfl
  refine ⟨[m, m, m] ++ [m, m, m] ++ [m], { s₄ with timerManager := some .create }.setMain
    (.returned true), ?_, rfl⟩
  rw [Run.run_append, Run.run_append, Run.run_cons, h1, Run.ok_bind, Run.run_cons, h2, Run.ok_bind,
    Run.run_cons, h3, Run.ok_bind, Run.run_nil, Run.ok_bind, h4]
  rfl

/-- A step of a worker changes nothing of the main thread, and starts no other. -/
theorem stepWorker_frame (hok : s.stepWorker i a = .ok s') :
    s'.main = s.main ∧ s'.threadNum = s.threadNum ∧
      ∀ j, s.worker j = .absent → s'.worker j = .absent := by
  obtain ⟨hmain, -, hnum, at_, hworker, habsent, -⟩ := stepWorker_cases hok
  refine ⟨hmain, hnum, fun j hj => ?_⟩
  rw [hworker, setWorker_worker]
  split_ifs with hji
  · exact habsent (hji ▸ hj)
  · exact hj

/-- A thread that was not started when it was its turn is not started later. -/
theorem stepMain_absent (h : s.Inv) (hok : s.stepMain a = .ok s')
    (hi : i < s.main.started s.threadNum) (habsent : s.worker i = .absent) :
    i < s'.main.started s'.threadNum ∧ s'.worker i = .absent := by
  have hlt : i < s.threadNum := lt_of_lt_of_le hi h.begun
  unfold stepMain at hok
  cases hm : s.main with
  | createManager | createLoop =>
    rw [hm] at hi
    exact absurd hi (Nat.not_lt_zero i)
  | createThread k =>
    rw [hm] at hi hok
    have hik : i < k := hi
    simp only at hok
    split_ifs at hok
    · obtain rfl := Except.ok.inj hok
      exact ⟨Nat.lt_succ_of_lt hik, by simp [hik.ne, habsent]⟩
    · obtain rfl := Except.ok.inj hok
      exact ⟨Nat.lt_succ_of_lt hik, habsent⟩
    · obtain rfl := Except.ok.inj hok
      exact ⟨hlt, habsent⟩
  | lock =>
    have hlive := h.lockLive (by rw [hm]; rfl)
    rw [hm] at hok
    simp only [spinLock_live hlive] at hok
    split_ifs at hok
    · obtain rfl := Except.ok.inj hok
      exact ⟨hlt, habsent⟩
    · obtain rfl := Except.ok.inj hok
      exact ⟨hi, habsent⟩
  | test | destroyLock | createQueue0 =>
    rw [hm] at hok
    obtain rfl := Except.ok.inj hok
    exact ⟨hlt, habsent⟩
  | createTimers =>
    rw [hm] at hok
    obtain rfl := Except.ok.inj hok
    refine ⟨?_, habsent⟩
    show i < MainAt.started _ (if a.malloc then .createQueue0 else .returned true)
    split_ifs <;> exact hlt
  | createQueue1 queue0 =>
    rw [hm] at hok
    simp only at hok
    split_ifs at hok
    obtain rfl := Except.ok.inj hok
    exact ⟨hlt, habsent⟩
  | unlock all =>
    have hlive := h.lockLive (by rw [hm]; rfl)
    rw [hm] at hok
    simp only [spinUnlock_live hlive] at hok
    obtain rfl := Except.ok.inj hok
    cases all <;> exact ⟨hlt, habsent⟩
  | returned manager =>
    rw [hm] at hok
    obtain rfl := Except.ok.inj hok
    exact ⟨hi, habsent⟩

/-- **What has failed stays so**: the main thread has returned `NULL`, waits for a thread there is
not, or is about to clear a queue there is not. -/
theorem openable_of_step (h : s.Inv) {m : Move} (hok : s.step m = .ok s') (ho : s'.Openable) :
    s.Openable := by
  unfold step at hok
  split at hok
  · refine ⟨fun hm => ?_, fun i hi habsent => ?_, fun hm => ?_⟩
    · unfold stepMain at hok
      rw [hm] at hok
      obtain rfl := Except.ok.inj hok
      exact ho.manager hm
    · obtain ⟨hi', habsent'⟩ := stepMain_absent h hok hi habsent
      exact ho.threads i hi' habsent'
    · unfold stepMain at hok
      rw [hm] at hok
      cases hok
  · obtain ⟨hmain, hnum, hframe⟩ := stepWorker_frame hok
    refine ⟨fun hm => ho.manager (hmain.trans hm), fun i hi habsent => ?_,
      fun hm => ho.queue (hmain.trans hm)⟩
    exact ho.threads i (by rwa [hmain, hnum]) (hframe i habsent)

/-- **The main thread can come to its end exactly as long as nothing has failed that it waits for,
or uses unseen.** -/
theorem returns_iff (threadNum : Int) (moves : List Move)
    (hrun : Run.run step (init threadNum) moves = .ok s) :
    (∃ more t, Run.run step s more = .ok t ∧ t.main = .returned true) ↔ s.Openable := by
  have h : s.Inv := Run.run_keeps (fun _ _ _ h hok => step_inv h hok) (init_inv threadNum) hrun
  constructor
  · rintro ⟨more, t, hmore, hend⟩
    by_contra hnot
    -- a failure is kept to the end, where there is none
    obtain ⟨ht, hstuck⟩ := Run.run_keeps (I := fun u => u.Inv ∧ ¬ u.Openable)
      (fun _ _ _ hu hok => ⟨step_inv hu.1 hok, fun ho => hu.2 (openable_of_step hu.1 hok ho)⟩)
      ⟨h, hnot⟩ hmore
    refine hstuck ⟨by rw [hend]; nofun, fun i hi habsent => ?_, by rw [hend]; nofun⟩
    rw [hend] at hi
    have hruns := ht.passed (by rw [hend]; rfl) i hi
    rw [habsent] at hruns
    simp at hruns
  · intro ho
    obtain ⟨more, t, hmore, ⟨ht, -⟩, hdone⟩ := Run.exists_run_of_measure left
      (I := fun u => u.Inv ∧ u.Openable) (Q := fun u => u.AtBarrier ∨ u.main = .returned true)
      (fun u hu hnot => hu.1.progress hu.2 (fun hat => hnot (Or.inl hat))
        (fun hend => hnot (Or.inr hend))) s ⟨h, ho⟩
    rcases hdone with hat | hend
    · obtain ⟨last, u, hlast, hend⟩ := hat.returns ht
      exact ⟨more ++ last, u, by rw [Run.run_append, hmore, Run.ok_bind, hlast], hend⟩
    · exact ⟨more, t, hmore, hend⟩

/-- A start with one thread, whose `pthread_create` fails. -/
def threadFails : List Move := [⟨.main, granting⟩, ⟨.main, granting⟩, ⟨.main, ⟨true, 0, false⟩⟩]

/-- **A thread that could not be started** is waited for without end. -/
theorem returns_iff_threadFails : ∃ s, Run.run step (init 1) threadFails = .ok s ∧
    ¬ ∃ more t, Run.run step s more = .ok t ∧ t.main = .returned true :=
  ⟨_, rfl, fun h => ((returns_iff 1 threadFails rfl).1 h).threads 0 (by decide) rfl⟩

end Startup

end MWebServer
