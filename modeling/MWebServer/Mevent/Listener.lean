import MWebServer.Mevent.Startup
import MWebServer.Lib.RoundRobin

/-!
# Connections and loops (`mevent/listener.c`)

When a manager is there, the main thread accepts connections and hands each of them to a
loop, one after another.  It reads `g_loops`, which the other threads have written, without
the lock.

A `Serving` is the start of the loops together with the listener.  A step is a step of one
thread, or a call of `event_accept_callback`, in any order.

* `Startup.step_made` — a loop that could be made is there when its thread is past it.
* `Startup.step_after` — when the manager is there, the loops change no more.
* `Serving.step_inv` — the round goes on where it stopped.
* `Serving.safely_balanced` — every connection is on a loop, and the loops have equal shares.
-/

namespace MWebServer

/-! ## The listener -/

/-- `errno`, as far as the listener tells its values apart. -/
inductive Errno where
  | eagain
  | econnaborted
  | eintr
  | eproto
  | eperm
  | emfile
  | other
  deriving DecidableEq, Repr

/-- The failures of `accept` after which the listener goes on. -/
def Errno.ignored : Errno → Bool
  | .other => false
  | _ => true

/-- What `accept` returns, and what the system answers to the calls behind it. -/
inductive Accepted where
  | failed (errno : Errno)
  /-- A descriptor; whether there is memory for a connection and its event, and whether
  `epoll_ctl` adds it. -/
  | connfd (fd : Int) (created added : Bool)
  deriving DecidableEq, Repr

/-- A connection that was started on a loop. -/
structure Handed where
  connfd : Int
  /-- The place in `g_loops`, if the loop is not `manager->loop`. -/
  place : Option Nat
  loop : EventLoop
  deriving DecidableEq, Repr

/-- What a listener has done. -/
structure Listener where
  /-- `static int i` -/
  i : Int
  handed : List Handed
  /-- `debug_sys` or `debug_quit` has ended the process. -/
  exited : Bool

namespace Listener

/-- The loop of the next connection, with its place in `g_loops`. -/
def nextLoop (m : Startup) (l : Listener) :
    Except Fault (Option EventLoop × Option Nat × Listener) := do
  let i := if l.i ≥ m.threadNum then 0 else l.i
  if m.threadNum = 0 then
    pure (m.loop, none, { l with i := i })
  else if i < 0 then
    throw .outOfBounds
  else
    match m.gLoops[i.toNat]? with
    | some loop => pure (loop, some i.toNat, { l with i := i + 1 })
    | none => throw .outOfBounds

/-- `event_accept_callback`, with `connection_create` and `connection_start` -/
def eventAcceptCallback (m : Startup) (l : Listener) : Accepted → Except Fault Listener
  | .failed errno => pure (if errno.ignored then l else { l with exited := true })
  | .connfd fd created added => do
      let (loop, place, l) ← nextLoop m l
      if ¬ created then
        pure { l with exited := true }
      else
        match loop with
        | none => throw .nullDeref
        | some loop =>
            pure (if added then { l with handed := l.handed ++ [⟨fd, place, loop⟩] }
              else { l with exited := true })

end Listener

/-- The threads and the listener. -/
structure Serving where
  startup : Startup
  listener : Listener

namespace Serving

/-- A step of a thread, or a call of the listener's callback in the main thread. -/
inductive Act where
  | thread (m : Startup.Move)
  | accept (a : Accepted)

/-- The call of `server_manager_create`. -/
def init (threadNum : Int) : Serving where
  startup := Startup.init threadNum
  listener := ⟨0, [], false⟩

/-- One step.  There is no listener before the manager is there, and nothing after the process has
ended. -/
def step (s : Serving) (act : Act) : Except Fault Serving :=
  if s.listener.exited then .ok s
  else
    match act with
    | .thread m => (s.startup.step m).map fun startup => { s with startup := startup }
    | .accept a =>
        if s.startup.main = .returned true then
          (s.listener.eventAcceptCallback s.startup a).map fun l => { s with listener := l }
        else .ok s

end Serving

/-! ## The loops that are there -/

/-- The thread has made its loop. -/
def WorkerAt.hasLoop : WorkerAt → Bool
  | .absent | .createLoop => false
  | _ => true

/-- The main thread has made its own. -/
def MainAt.hasLoop : MainAt → Bool
  | .createManager | .createLoop | .returned false => false
  | _ => true

namespace Startup

variable {s s' : Startup} {a : SystemAnswer} {i : Nat}

/-- Every loop is there that a thread is past. -/
structure Made (s : Startup) : Prop where
  workers : ∀ i, (s.worker i).hasLoop = true → ∃ loop, s.gLoops[i]? = some (some loop)
  main : s.main.hasLoop = true → ∃ loop, s.loop = some loop
  queue : s.main ≠ .createQueue1 false

/-- Where a thread makes its loop, the system lets it. -/
def LoopGranted (s : Startup) (m : Move) : Prop :=
  ∀ i, m.thread = .worker i → s.worker i = .createLoop → eventLoopCreate m.answer ≠ none

/-- Where the main thread makes a queue of its timers, the system lets it. -/
def QueueGranted (s : Startup) (m : Move) : Prop :=
  m.thread = .main → s.main = .createQueue0 ∨ (∃ queue0, s.main = .createQueue1 queue0) →
    m.answer.malloc = true

theorem init_made (threadNum : Int) : (init threadNum).Made := ⟨nofun, nofun, nofun⟩

/-- A thread that is past its loop by a step which does not make it was past it before. -/
theorem hasLoop_of_setWorker {at_ : WorkerAt} (habsent : s.worker i = .absent → at_ = .absent)
    (hcreate : s.worker i ≠ .createLoop) (j : Nat)
    (hj : ((s.setWorker i at_).worker j).hasLoop = true) : (s.worker j).hasLoop = true := by
  rw [setWorker_worker] at hj
  split_ifs at hj with hji
  · subst hji
    cases hw : s.worker j with
    | absent =>
      rw [habsent hw] at hj
      exact hj
    | createLoop => exact absurd hw hcreate
    | _ => rfl
  · exact hj

/-- The first queue is missing only behind the statement that could not make it. -/
theorem stepMain_queue (hok : s.stepMain a = .ok s') (hnone : s'.main = .createQueue1 false) :
    s.main = .createQueue0 ∧ ¬ a.malloc = true := by
  unfold stepMain spinLock spinUnlock at hok
  cases hm : s.main with
  | createQueue0 =>
    rw [hm] at hok
    obtain rfl := Except.ok.inj hok
    rw [setMain_main] at hnone
    exact ⟨rfl, by rw [MainAt.createQueue1.inj hnone]; exact Bool.false_ne_true⟩
  | returned =>
    rw [hm] at hok
    obtain rfl := Except.ok.inj hok
    rw [hm] at hnone
    cases hnone
  | lock =>
    rw [hm] at hok
    simp only at hok
    split_ifs at hok
    · obtain rfl := Except.ok.inj hok
      cases hnone
    · obtain rfl := Except.ok.inj hok
      rw [hm] at hnone
      cases hnone
  | test | destroyLock =>
    rw [hm] at hok
    obtain rfl := Except.ok.inj hok
    cases hnone
  | createManager | createLoop | createThread | unlock | createTimers | createQueue1 =>
    rw [hm] at hok
    simp only at hok
    split_ifs at hok <;> obtain rfl := Except.ok.inj hok <;> cases hnone

/-- What a step of the main thread does to the loops. -/
theorem stepMain_loops (hok : s.stepMain a = .ok s') :
    s'.threadNum = s.threadNum ∧ s'.gLoops = s.gLoops ∧
      (∀ j, (s'.worker j).hasLoop = true → (s.worker j).hasLoop = true) ∧
      (s'.main.hasLoop = true →
        s'.loop = s.loop ∧ s.main.hasLoop = true ∨ ∃ loop, s'.loop = some loop) := by
  unfold stepMain spinLock spinUnlock at hok
  cases hm : s.main with
  | createManager =>
    rw [hm] at hok
    obtain rfl := Except.ok.inj hok
    refine ⟨rfl, rfl, fun _ hj => hj, fun hloop => ?_⟩
    simp only [setMain_main] at hloop
    split_ifs at hloop <;> cases hloop
  | createLoop =>
    rw [hm] at hok
    obtain rfl := Except.ok.inj hok
    refine ⟨rfl, rfl, fun _ hj => hj, fun hloop => Or.inr ?_⟩
    simp only [setMain_main] at hloop
    split_ifs at hloop with hsome
    · exact Option.isSome_iff_exists.1 hsome
    · cases hloop
  | createThread i =>
    rw [hm] at hok
    simp only at hok
    split_ifs at hok with hi hthread
    · obtain rfl := Except.ok.inj hok
      refine ⟨rfl, rfl, fun j hj => ?_, fun _ => Or.inl ⟨rfl, rfl⟩⟩
      rw [setMain_worker, setWorker_worker] at hj
      split_ifs at hj
      · cases hj
      · exact hj
    · obtain rfl := Except.ok.inj hok
      exact ⟨rfl, rfl, fun _ hj => hj, fun _ => Or.inl ⟨rfl, rfl⟩⟩
    · obtain rfl := Except.ok.inj hok
      exact ⟨rfl, rfl, fun _ hj => hj, fun _ => Or.inl ⟨rfl, rfl⟩⟩
  | lock | unlock =>
    rw [hm] at hok
    simp only at hok
    split_ifs at hok <;> obtain rfl := Except.ok.inj hok <;>
      exact ⟨rfl, rfl, fun _ hj => hj, fun _ => Or.inl ⟨rfl, rfl⟩⟩
  | test | destroyLock | createTimers | createQueue0 =>
    rw [hm] at hok
    obtain rfl := Except.ok.inj hok
    exact ⟨rfl, rfl, fun _ hj => hj, fun _ => Or.inl ⟨rfl, rfl⟩⟩
  | createQueue1 =>
    rw [hm] at hok
    simp only at hok
    split_ifs at hok
    obtain rfl := Except.ok.inj hok
    exact ⟨rfl, rfl, fun _ hj => hj, fun _ => Or.inl ⟨rfl, rfl⟩⟩
  | returned manager =>
    rw [hm] at hok
    obtain rfl := Except.ok.inj hok
    exact ⟨rfl, rfl, fun _ hj => hj, fun hloop => Or.inl ⟨rfl, hm ▸ hloop⟩⟩

/-- **A loop that could be made is there** when its thread is past it. -/
theorem step_made (h : s.Made) {m : Move} (hgranted : s.LoopGranted m) (hqueue : s.QueueGranted m)
    (hok : s.step m = .ok s') : s'.Made := by
  unfold step at hok
  split at hok
  · next hthread =>
    obtain ⟨-, hloops, hworkers, hmain⟩ := stepMain_loops hok
    refine ⟨fun j hj => hloops ▸ h.workers j (hworkers j hj), fun hloop => ?_, fun hnone => ?_⟩
    · rcases hmain hloop with ⟨hsame, hbefore⟩ | hmade
      · exact hsame ▸ h.main hbefore
      · exact hmade
    · obtain ⟨hat, hfails⟩ := stepMain_queue hok hnone
      exact absurd (hqueue hthread (Or.inl hat)) hfails
  · next i hthread =>
    obtain ⟨hmain, hloop, -, at_, hworker, habsent, hloops⟩ := stepWorker_cases hok
    refine ⟨fun j hj => ?_, fun hm => hloop ▸ h.main (hmain ▸ hm), hmain ▸ h.queue⟩
    rw [hworker] at hj
    rcases hloops with ⟨hat, hlt, hset⟩ | ⟨hcreate, hsame⟩
    · by_cases hji : j = i
      · subst hji
        obtain ⟨loop, hmade⟩ := Option.ne_none_iff_exists'.1 (hgranted j hthread hat)
        exact ⟨loop, by rw [hset, List.getElem?_set_self hlt, hmade]⟩
      · rw [setWorker_worker, if_neg hji] at hj
        rw [hset, List.getElem?_set_ne (Ne.symm hji)]
        exact h.workers j hj
    · exact hsame ▸ h.workers j (hasLoop_of_setWorker habsent hcreate j hj)

/-- A thread that could make its loop does not run another, and the queues are there to be cleared. -/
theorem Made.made (h : s.Made) {m : Move} (hqueue : s.QueueGranted m) : ¬ s.Unmade m := by
  unfold Unmade
  cases ht : m.thread with
  | main =>
    rintro ⟨queue0, hat, hnot⟩
    refine hnot ⟨?_, hqueue ht (Or.inr ⟨queue0, hat⟩)⟩
    cases queue0
    · exact absurd hat h.queue
    · rfl
  | worker i =>
    rintro ⟨hat, hnone⟩
    obtain ⟨loop, hmade⟩ := h.workers i (by rw [hat]; rfl)
    rw [hnone] at hmade
    cases hmade

theorem step_threadNum {m : Move} (hok : s.step m = .ok s') : s'.threadNum = s.threadNum := by
  unfold step at hok
  split at hok
  · exact (stepMain_loops hok).1
  · exact (stepWorker_cases hok).2.2.1

/-- **When the manager is there, the loops change no more.** -/
theorem step_after (h : s.Inv) (hm : s.main = .returned true) {m : Move} (hok : s.step m = .ok s') :
    s'.main = .returned true ∧ s'.loop = s.loop ∧ s'.gLoops = s.gLoops := by
  unfold step at hok
  split at hok
  · unfold stepMain at hok
    rw [hm] at hok
    obtain rfl := Except.ok.inj hok
    exact ⟨hm, rfl, rfl⟩
  · next i _ =>
    obtain ⟨hmain, hloop, -, _, -, -, ⟨hat, -⟩ | ⟨-, hsame⟩⟩ := stepWorker_cases hok
    · have hruns := h.passed (by rw [hm]; rfl) i (h.lt (by rw [hat]; nofun))
      rw [hat] at hruns
      simp at hruns
    · exact ⟨hmain.trans hm, hloop, hsame⟩

/-! ## The round -/

/-- The place in `g_loops` whose turn it is after `k` connections. -/
def turn (s : Startup) (k : Nat) : Option Nat :=
  if s.threadNum = 0 then none else some (k % s.threadNum)

/-- The loop of a connection is the one at its place. -/
def Holds (s : Startup) (h : Handed) : Prop :=
  match h.place with
  | none => s.loop = some h.loop
  | some j => j < s.threadNum ∧ s.gLoops[j]? = some (some h.loop)

end Startup

namespace Serving

variable {s s' : Serving}

/-- What holds between two steps. -/
structure Inv (s : Serving) : Prop where
  startup : s.startup.Inv
  made : s.startup.Made
  idle : s.startup.main ≠ .returned true → s.listener.handed = []
  nonneg : 0 ≤ s.listener.i
  counter : s.listener.exited = false → 0 < s.startup.threadNum →
    RoundRobin.pick s.startup.threadNum s.listener.i.toNat =
      s.listener.handed.length % s.startup.threadNum
  turns : s.listener.handed.map Handed.place =
    (List.range s.listener.handed.length).map s.startup.turn
  loops : ∀ h ∈ s.listener.handed, s.startup.Holds h

/-- Where a thread makes its loop, or the main thread a queue of its timers, the system lets it. -/
def Granted (s : Serving) : Act → Prop
  | .thread m => s.startup.LoopGranted m ∧ s.startup.QueueGranted m
  | .accept _ => True

theorem init_inv (threadNum : Int) : (init threadNum).Inv where
  startup := Startup.init_inv threadNum
  made := Startup.init_made threadNum
  idle _ := rfl
  nonneg := le_rfl
  counter _ _ := by
    show RoundRobin.pick _ 0 = 0 % _
    rw [RoundRobin.pick_zero, Nat.zero_mod]
  turns := rfl
  loops := nofun

/-- **A step of a thread** leaves the connections where they are. -/
theorem thread_inv (h : s.Inv) {m : Startup.Move} (hgranted : s.Granted (.thread m)) :
    ∃ startup, s.startup.step m = .ok startup ∧ Inv { s with startup := startup } := by
  obtain ⟨hloop, hqueue⟩ := hgranted
  obtain ⟨t, hok, ht⟩ := (Startup.step_spec h.startup m).2 (h.made.made hqueue)
  have hmade := Startup.step_made h.made hloop hqueue hok
  have hnum := Startup.step_threadNum hok
  have hturn : t.turn = s.startup.turn := by
    funext k
    unfold Startup.turn
    rw [hnum]
  refine ⟨t, hok, ?_⟩
  exact {
    startup := ht
    made := hmade
    idle := fun hnot => h.idle fun hm => hnot (Startup.step_after h.startup hm hok).1
    nonneg := h.nonneg
    counter := by simpa only [hnum] using h.counter
    turns := by simpa only [hturn] using h.turns
    loops := by
      by_cases hm : s.startup.main = .returned true
      · obtain ⟨-, hloop, hloops⟩ := Startup.step_after h.startup hm hok
        simpa only [Startup.Holds, hnum, hloop, hloops] using h.loops
      · show ∀ handed ∈ s.listener.handed, _
        rw [h.idle hm]
        nofun }

/-- The loop of the next connection is there, and it is its turn. -/
theorem nextLoop_spec (h : s.Inv) (hm : s.startup.main = .returned true)
    (hlive : s.listener.exited = false) :
    ∃ loop i, s.listener.nextLoop s.startup =
        .ok (some loop, s.startup.turn s.listener.handed.length, { s.listener with i := i }) ∧
      0 ≤ i ∧ (0 < s.startup.threadNum → RoundRobin.pick s.startup.threadNum i.toNat =
        (s.listener.handed.length + 1) % s.startup.threadNum) ∧
      ∀ fd, s.startup.Holds ⟨fd, s.startup.turn s.listener.handed.length, loop⟩ := by
  set n := s.startup.threadNum with hn
  set k := s.listener.handed.length with hk
  by_cases hzero : n = 0
  · obtain ⟨loop, hloop⟩ := h.made.main (by rw [hm]; rfl)
    have hturn : s.startup.turn k = none := if_pos hzero
    refine ⟨loop, 0, ?_, le_rfl, fun hpos => absurd hzero hpos.ne', fun fd => ?_⟩
    · have hi : (if s.listener.i ≥ ((0 : Nat) : Int) then 0 else s.listener.i) = 0 :=
        if_pos h.nonneg
      unfold Listener.nextLoop
      rw [← hn, hzero, hturn, hloop, hi]
      rfl
    · unfold Startup.Holds
      rw [hturn]
      exact hloop
  · have hpos : 0 < n := Nat.pos_of_ne_zero hzero
    have hlt := Nat.mod_lt k hpos
    have hturn : s.startup.turn k = some (k % n) := if_neg hzero
    have hcounter := h.counter hlive hpos
    -- where the counter stands
    have hi : (if s.listener.i ≥ (n : Int) then 0 else s.listener.i) = ((k % n : Nat) : Int) := by
      have hnonneg := h.nonneg
      rw [← hcounter]
      unfold RoundRobin.pick
      split_ifs <;> omega
    have hruns := h.startup.passed (by rw [hm]; rfl) (k % n) hlt
    obtain ⟨loop, hloop⟩ := h.made.workers (k % n) (by rcases hruns with hw | hw <;> rw [hw] <;> rfl)
    refine ⟨loop, (k % n : Nat) + 1, ?_, by omega, fun _ => ?_, fun fd => ?_⟩
    · unfold Listener.nextLoop
      rw [← hn, hi, hturn]
      simp only [if_neg hzero, Int.toNat_natCast, hloop]
      rw [if_neg (by omega)]
      rfl
    · have hsucc := RoundRobin.pick_succ hpos hcounter
      rw [hcounter] at hsucc
      rwa [Int.toNat_natCast_add_one]
    · unfold Startup.Holds
      rw [hturn]
      exact ⟨hlt, hloop⟩

/-- **A call of the listener** puts the connection where it is the turn. -/
theorem accept_inv (h : s.Inv) (hm : s.startup.main = .returned true)
    (hlive : s.listener.exited = false) (a : Accepted) :
    ∃ l, s.listener.eventAcceptCallback s.startup a = .ok l ∧ Inv { s with listener := l } := by
  -- the process ends
  have hexit : ∀ {i : Int}, 0 ≤ i →
      Inv { s with listener := { s.listener with i := i, exited := true } } := fun hi => {
    startup := h.startup
    made := h.made
    idle := h.idle
    nonneg := hi
    counter := nofun
    turns := h.turns
    loops := h.loops }
  unfold Listener.eventAcceptCallback
  cases a with
  | failed errno =>
    refine ⟨_, rfl, ?_⟩
    split_ifs
    · exact h
    · exact hexit h.nonneg
  | connfd fd created added =>
    obtain ⟨loop, i, hnext, hi, hcounter, hholds⟩ := nextLoop_spec h hm hlive
    simp only [hnext, Run.ok_bind]
    cases created with
    | false => exact ⟨_, rfl, hexit hi⟩
    | true =>
      refine ⟨_, rfl, ?_⟩
      cases added with
      | false => exact hexit hi
      | true =>
        exact {
          startup := h.startup
          made := h.made
          idle := fun hnot => absurd hm hnot
          nonneg := hi
          counter := fun _ hpos => by
            show _ = List.length (_ ++ _) % _
            rw [List.length_append]
            exact hcounter hpos
          turns := by
            show List.map _ (_ ++ _) = List.map _ (List.range (List.length (_ ++ _)))
            rw [List.map_append, List.length_append, List.length_singleton, List.range_succ,
              List.map_append, h.turns]
            rfl
          loops := fun handed hmem => by
            rcases List.mem_append.1 hmem with hbefore | hnew
            · exact h.loops handed hbefore
            · rw [List.mem_singleton.1 hnew]
              exact hholds fd }

/-- **One step** fails nowhere while the system grants the loops and the queues. -/
theorem step_inv (h : s.Inv) {act : Act} (hgranted : s.Granted act) :
    ∃ s', s.step act = .ok s' ∧ s'.Inv := by
  unfold step
  by_cases hexited : s.listener.exited = true
  · rw [if_pos hexited]
    exact ⟨s, rfl, h⟩
  rw [if_neg hexited]
  cases act with
  | thread m =>
    obtain ⟨t, hok, hinv⟩ := thread_inv h hgranted
    exact ⟨_, Run.map_eq_ok.2 ⟨t, hok, rfl⟩, hinv⟩
  | accept a =>
    simp only
    split_ifs with hm
    · obtain ⟨l, hok, hinv⟩ := accept_inv h hm (Bool.eq_false_iff.2 hexited) a
      exact ⟨_, Run.map_eq_ok.2 ⟨l, hok, rfl⟩, hinv⟩
    · exact ⟨s, rfl, h⟩

/-! ## Safety -/

/-- Every connection is on a loop, and no loop is preferred. -/
structure Balanced (s : Serving) : Prop where
  /-- The `k`-th connection is on the loop `k mod loop_num`. -/
  turns : s.listener.handed.map Handed.place =
    (List.range s.listener.handed.length).map s.startup.turn
  /-- Its loop was made, -/
  loops : ∀ h ∈ s.listener.handed, s.startup.Holds h
  /-- and the thread of the loop is done with the start. -/
  runs : ∀ h ∈ s.listener.handed, ∀ j, h.place = some j →
    s.startup.worker j = .runLoop ∨ s.startup.worker j = .running
  /-- A loop has its share of the connections, or one more. -/
  shares : ∀ j, j < s.startup.threadNum →
    s.listener.handed.length / s.startup.threadNum ≤
        (s.listener.handed.map Handed.place).count (some j) ∧
      (s.listener.handed.map Handed.place).count (some j) ≤
        s.listener.handed.length / s.startup.threadNum + 1

theorem Inv.balanced (h : s.Inv) : s.Balanced where
  turns := h.turns
  loops := h.loops
  runs handed hmem j hplace := by
    have hholds := h.loops handed hmem
    unfold Startup.Holds at hholds
    rw [hplace] at hholds
    refine h.startup.passed ?_ j hholds.1
    by_cases hm : s.startup.main = .returned true
    · rw [hm]
      rfl
    · rw [h.idle hm] at hmem
      cases hmem
  shares j hj := by
    have hpos : 0 < s.startup.threadNum := Nat.zero_lt_of_lt hj
    have hcount : (s.listener.handed.map Handed.place).count (some j) =
        RoundRobin.share s.startup.threadNum j s.listener.handed.length := by
      have hturn : s.startup.turn = some ∘ (· % s.startup.threadNum) :=
        funext fun k => if_neg hpos.ne'
      rw [h.turns, hturn, ← List.map_map, List.count_map_of_injective _ _ (Option.some_injective _),
        RoundRobin.count_turns hj]
    rw [hcount]
    exact ⟨RoundRobin.le_share hpos j _, RoundRobin.share_le hpos j _⟩

/-- **The loops have equal shares**: while the system lets every thread make its loop, and the main
thread the queues of its timers, nothing fails, however the threads and the arrivals take turns, and
the connections go round the loops. -/
theorem safely_balanced (threadNum : Int) (acts : List Act)
    (hgranted : Run.Meets step Granted (init threadNum) acts) :
    Run.Safely step Balanced (init threadNum) acts :=
  Run.safely_of_meets (I := Inv) (fun _ h => h.balanced) (fun _ _ h hg => step_inv h hg)
    (init_inv threadNum) hgranted

/-- A step of a thread to which the system grants everything. -/
def granted (t : Thread) : Act := .thread ⟨t, ⟨true, 3, true⟩⟩

/-- A start with two loops, whose threads take turns, and three connections. -/
def threeConnections : List Act :=
  List.replicate 5 (granted .main) ++
    (List.replicate 6 [granted (.worker 0), granted (.worker 1)]).flatten ++
    List.replicate 3 (granted (.worker 1)) ++ List.replicate 7 (granted .main) ++
    [.accept (.connfd 7 true true), .accept (.failed .eintr), .accept (.connfd 8 true true),
      .accept (.connfd 9 true true)]

/-- **The third connection** is on the loop of the first. -/
theorem safely_balanced_threeConnections :
    Run.Safely step Balanced (init 2) threeConnections ∧
      ∃ s, Run.run step (init 2) threeConnections = .ok s ∧
        s.listener.handed.map Handed.place = [some 0, some 1, some 0] := by
  refine ⟨safely_balanced 2 threeConnections (Run.meets_of_forall ?_ _), ?_⟩
  · intro act hact s
    have hcases : (∃ t, act = granted t) ∨ ∃ a, act = .accept a := by
      simp only [threeConnections, List.mem_append, List.mem_replicate, List.mem_flatten,
        List.mem_cons, List.not_mem_nil, or_false] at hact
      grind
    rcases hcases with ⟨t, rfl⟩ | ⟨a, rfl⟩
    · exact ⟨fun _ _ _ => nofun, fun _ _ => rfl⟩
    · trivial
  · exact ⟨_, rfl, rfl⟩

end Serving

end MWebServer
