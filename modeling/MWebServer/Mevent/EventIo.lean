import MWebServer.Mevent.Connection

/-!
# An event between two threads (`mevent/event.c`, `mevent/epoll.c`)

`connection_start` runs in the main thread.  `event_add_io` puts the event into the epoll set of
a loop first, and writes `epoll_fd` and `is_working` behind that, which `event_create` leaves as
the memory has them.  In between, the thread of the loop may already call `event_modify_flag`
and `event_free`, which read both.

An `EventIo` is one event with the places of the two threads, and what the kernel holds of the
event.  A step is one statement of one thread, in any order.

* `EventIo.Intact` — the kernel waits for what `event_flag` says, nobody holds a pointer to an
  event that is freed, and the process lives.
* `EventIo.Early` — the steps of the loop that come too early.
* `EventIo.step_inv` — any other step keeps things intact.
* `EventIo.safely_intact_iff` — which interleavings do.
-/

namespace MWebServer

/-- Where the main thread stands in `event_add_io`. -/
inductive AddIoAt where
  /-- `epoller_add(epoll_fd, ev)` -/
  | add
  /-- `ev->epoll_fd = epoll_fd` -/
  | setEpollFd
  /-- `ev->is_working = 1` -/
  | setWorking
  | returned
  deriving DecidableEq, Repr

/-- Where the thread of the loop stands. -/
inductive LoopAt where
  /-- Outside of the functions on the event. -/
  | outside
  /-- The test of `is_working` in `event_modify_flag`. -/
  | testModify (flag : EpollMask)
  /-- The rest of `event_modify_flag`. -/
  | modify (flag : EpollMask)
  /-- The test of `is_working` in `event_stop`. -/
  | testStop
  /-- `epoller_del(ev->epoll_fd, ev)` -/
  | del
  /-- `ev->is_working = 0` -/
  | clearWorking
  /-- `close(ev->fd)` -/
  | close
  /-- `free(ev)` -/
  | free
  | gone
  deriving DecidableEq, Repr

/-- What a callback calls on its event. -/
inductive EventCall where
  | enableWriting
  | disableWriting
  | free
  deriving DecidableEq, Repr

/-- An event, two threads and the kernel. -/
structure EventIo where
  /-- The descriptor of the epoll set. -/
  loopFd : Int
  eventFlag : EpollMask
  isWorking : Int
  epollFd : Int
  /-- The event is not freed. -/
  live : Bool
  main : AddIoAt
  loop : LoopAt
  /-- What the epoll set waits for on the descriptor of the event, if the event is in it. -/
  registered : Option EpollMask
  /-- `debug_sys` has ended the process. -/
  exited : Bool

namespace EventIo

/-- A step of the main thread, with what `epoll_ctl` answers, or one of the thread of the loop,
with the call that comes next if it is outside of one. -/
inductive Move where
  | main (added : Bool)
  | loop (call : EventCall)

/-- `event_create`: the memory that it gets holds `isWorking` and `epollFd`. -/
def create (loopFd isWorking epollFd : Int) : EventIo where
  loopFd := loopFd
  eventFlag := ⟨true, true, false, false, false⟩
  isWorking := isWorking
  epollFd := epollFd
  live := true
  main := .add
  loop := .outside
  registered := none
  exited := false

/-- A statement of `event_add_io`. -/
def stepMain (added : Bool) (s : EventIo) : Except Fault EventIo :=
  match s.main with
  | .add =>
      .ok (if added then { s with registered := some s.eventFlag, main := .setEpollFd }
        else { s with exited := true })
  | .setEpollFd =>
      if s.live then .ok { s with epollFd := s.loopFd, main := .setWorking }
      else .error .useAfterFree
  | .setWorking =>
      if s.live then .ok { s with isWorking := 1, main := .returned } else .error .useAfterFree
  | .returned => .ok s

/-- `event_add_flag` with `EPOLLOUT`, up to `event_modify_flag`. -/
def eventAddFlag (plus : Bool) (s : EventIo) : EventIo :=
  let flag := { s.eventFlag with epollOut := plus }
  { s with eventFlag := flag, loop := .testModify flag }

/-- `epoll_ctl` through `ev->epoll_fd`, to modify or to delete: it fails on any other descriptor
than that of the set the event is in. -/
def epollCtl (registered : Option EpollMask) (s : EventIo) : EventIo :=
  if s.epollFd = s.loopFd ∧ s.registered.isSome then { s with registered := registered }
  else { s with exited := true }

/-- A statement of the thread of the loop, which hears of the event when it is in the set. -/
def stepLoop (call : EventCall) (s : EventIo) : EventIo :=
  match s.loop with
  | .outside =>
      if s.registered.isNone then s
      else
        match call with
        | .enableWriting => s.eventAddFlag true
        | .disableWriting => s.eventAddFlag false
        | .free => { s with loop := .testStop }
  | .testModify flag => { s with loop := if s.isWorking = 0 then .outside else .modify flag }
  | .modify flag => { s with eventFlag := flag, loop := .outside }.epollCtl (some flag)
  | .testStop => { s with loop := if s.isWorking = 0 then .close else .del }
  | .del => { s with loop := .clearWorking }.epollCtl none
  | .clearWorking => { s with isWorking := 0, loop := .close }
  -- the descriptor is the only one of its socket, which leaves the set with it
  | .close => { s with registered := none, loop := .free }
  | .free => { s with live := false, loop := .gone }
  | .gone => s

/-- One step, in a process that lives. -/
def step (s : EventIo) (m : Move) : Except Fault EventIo :=
  if s.exited then .ok s
  else
    match m with
    | .main added => s.stepMain added
    | .loop call => .ok (s.stepLoop call)

/-! ## What may go wrong -/

/-- **Nothing has gone wrong.** -/
structure Intact (s : EventIo) : Prop where
  lives : s.exited = false
  /-- Between two calls the kernel waits for what `event_flag` says. -/
  mirrors : s.main ≠ .add → s.loop = .outside → s.registered = some s.eventFlag
  /-- The main thread does not write to an event that is freed. -/
  live : s.main ≠ .returned → s.live = true

/-- **The step comes in time.**  `epoll_ctl` adds the event; `event_modify_flag` finds `is_working`
set unless it changes nothing; no `epoll_ctl` is called with another `epoll_fd`; and the event is
freed when `event_add_io` has returned. -/
def InTime (s : EventIo) : Move → Prop
  | .main added => s.main = .add → added = true
  | .loop _ =>
      match s.loop with
      | .testModify flag => s.isWorking = 0 → s.registered = some flag
      | .modify _ | .del => s.epollFd = s.loopFd
      | .free => s.main = .returned
      | _ => True

/-! ## What every step keeps -/

end EventIo

/-- The thread of the loop has not yet taken the event out of the set. -/
def LoopAt.inSet : LoopAt → Bool
  | .outside | .testModify _ | .modify _ | .testStop | .del => true
  | _ => false

namespace EventIo

variable {s s' : EventIo}

/-- Nothing has gone wrong, and the two threads are where they should be. -/
structure Inv (s : EventIo) : Prop where
  intact : s.Intact
  /-- The loop does not know the event before it is in the set. -/
  unknown : s.main = .add → s.loop = .outside ∧ s.registered = none
  inSet : s.main ≠ .add → s.loop.inSet = true → s.registered.isSome = true
  pending : ∀ flag, s.loop = .testModify flag → s.eventFlag = flag
  freed : s.live = true ↔ s.loop ≠ .gone

theorem create_inv (loopFd isWorking epollFd : Int) : (create loopFd isWorking epollFd).Inv where
  intact := ⟨rfl, fun h => absurd rfl h, fun _ => rfl⟩
  unknown _ := ⟨rfl, rfl⟩
  inSet h := absurd rfl h
  pending _ h := by cases h
  freed := by simp [create]

/-- Inside of a function the loop knows the event. -/
theorem Inv.known (h : s.Inv) (hloop : s.loop ≠ .outside) : s.main ≠ .add :=
  fun hmain => hloop (h.unknown hmain).1

/-- A field that `event_add_io` writes behind `epoller_add`. -/
theorem Inv.write (h : s.Inv) (hmain : s.main ≠ .add) (hlive : s.live = true)
    (epollFd isWorking : Int) {at_ : AddIoAt} (hat : at_ ≠ .add) :
    { s with epollFd := epollFd, isWorking := isWorking, main := at_ }.Inv where
  intact := ⟨h.intact.lives, fun _ => h.intact.mirrors hmain, fun _ => hlive⟩
  unknown hadd := absurd hadd hat
  inSet _ := h.inSet hmain
  pending := h.pending
  freed := h.freed

/-- **A statement of `event_add_io`.** -/
theorem stepMain_inv (h : s.Inv) {added : Bool} (htime : s.InTime (.main added)) :
    ∃ s', s.stepMain added = .ok s' ∧ s'.Inv := by
  have hlive : s.main ≠ .returned → s.live = true := h.intact.live
  unfold stepMain
  cases hmain : s.main with
  | add =>
    obtain ⟨hloop, -⟩ := h.unknown hmain
    obtain rfl : added = true := htime hmain
    exact ⟨_, rfl, ⟨h.intact.lives, fun _ _ => rfl, fun _ => hlive (by rw [hmain]; decide)⟩,
      fun hadd => AddIoAt.noConfusion hadd, fun _ _ => rfl, h.pending, h.freed⟩
  | setEpollFd =>
    have hlive := hlive (by rw [hmain]; decide)
    exact ⟨_, if_pos hlive, h.write (by rw [hmain]; decide) hlive s.loopFd s.isWorking (by decide)⟩
  | setWorking =>
    have hlive := hlive (by rw [hmain]; decide)
    exact ⟨_, if_pos hlive, h.write (by rw [hmain]; decide) hlive s.epollFd 1 (by decide)⟩
  | returned => exact ⟨_, rfl, h⟩

/-- A place inside of the functions, behind which the event is still there. -/
theorem Inv.goto (h : s.Inv) {at_ : LoopAt} (hmain : s.main ≠ .add) (hout : at_ ≠ .outside)
    (hset : at_.inSet = true → s.loop.inSet = true) (hlive : s.loop ≠ .gone) (hgone : at_ ≠ .gone)
    (hflag : ∀ flag, at_ = .testModify flag → s.eventFlag = flag) : { s with loop := at_ }.Inv where
  intact := ⟨h.intact.lives, fun _ hloop => absurd hloop hout, h.intact.live⟩
  unknown hadd := absurd hadd hmain
  inSet _ hin := h.inSet hmain (hset hin)
  pending := hflag
  freed := iff_of_true (h.freed.2 hlive) hgone

/-- Out of the functions, with the kernel told of the flag. -/
theorem Inv.back (h : s.Inv) (hmain : s.main ≠ .add) (hlive : s.loop ≠ .gone) {flag : EpollMask}
    {registered : Option EpollMask} (htold : registered = some flag) :
    { s with eventFlag := flag, registered := registered, loop := .outside }.Inv where
  intact := ⟨h.intact.lives, fun _ _ => htold, h.intact.live⟩
  unknown hadd := absurd hadd hmain
  inSet _ _ := by
    rw [htold]
    rfl
  pending _ hloop := LoopAt.noConfusion hloop
  freed := iff_of_true (h.freed.2 hlive) (fun hgone => LoopAt.noConfusion hgone)

/-- A place at which the event has left the set, and is still there. -/
theorem Inv.outOfSet (h : s.Inv) (hmain : s.main ≠ .add) (hlive : s.loop ≠ .gone)
    (registered : Option EpollMask) (isWorking : Int) {at_ : LoopAt} (hset : at_.inSet = false)
    (hgone : at_ ≠ .gone) :
    { s with registered := registered, isWorking := isWorking, loop := at_ }.Inv := by
  have hnot : ∀ l : LoopAt, l.inSet = true → at_ ≠ l := by
    rintro l hin rfl
    exact Bool.noConfusion (hset.symm.trans hin)
  exact ⟨⟨h.intact.lives, fun _ hloop => absurd hloop (hnot .outside rfl), h.intact.live⟩,
    fun hadd => absurd hadd hmain, fun _ hin => absurd rfl (hnot at_ hin),
    fun flag hloop => absurd hloop (hnot (.testModify flag) rfl),
    iff_of_true (h.freed.2 hlive) hgone⟩

/-- The loop changes what the callback asked for, and goes on to tell the kernel. -/
theorem Inv.addFlag (h : s.Inv) (hmain : s.main ≠ .add) (hloop : s.loop = .outside) (plus : Bool) :
    (s.eventAddFlag plus).Inv where
  intact := ⟨h.intact.lives, fun _ hout => LoopAt.noConfusion hout, h.intact.live⟩
  unknown hadd := absurd hadd hmain
  inSet _ _ := h.inSet hmain (by rw [hloop]; rfl)
  pending flag hflag := LoopAt.testModify.inj hflag
  freed := iff_of_true (h.freed.2 (by rw [hloop]; decide)) nofun

/-- An `epoll_ctl` through the right descriptor. -/
theorem epollCtl_eq (registered : Option EpollMask) (hfd : s.epollFd = s.loopFd)
    (hset : s.registered.isSome = true) :
    s.epollCtl registered = { s with registered := registered } := if_pos ⟨hfd, hset⟩

/-- **A statement of the thread of the loop.** -/
theorem stepLoop_inv (h : s.Inv) {call : EventCall} (htime : s.InTime (.loop call)) :
    (s.stepLoop call).Inv := by
  unfold InTime at htime
  unfold stepLoop
  cases hloop : s.loop with
  | outside =>
    simp only
    split_ifs with hnone
    · exact h
    · have hmain : s.main ≠ .add := fun hadd => hnone (by rw [(h.unknown hadd).2]; rfl)
      cases call with
      | enableWriting => exact h.addFlag hmain hloop true
      | disableWriting => exact h.addFlag hmain hloop false
      | free => exact h.goto hmain nofun (fun _ => by rw [hloop]; rfl) (by rw [hloop]; decide) nofun nofun
  | testModify flag =>
    have hmain := h.known (by rw [hloop]; nofun)
    simp only [hloop] at htime ⊢
    split_ifs with hworking
    · -- the change is not passed on, as there is none
      refine h.back hmain (by rw [hloop]; nofun) ?_
      rw [h.pending flag hloop]
      exact htime hworking
    · exact h.goto hmain nofun (fun _ => by rw [hloop]; rfl) (by rw [hloop]; nofun) nofun nofun
  | modify flag =>
    have hmain := h.known (by rw [hloop]; nofun)
    simp only [hloop] at htime ⊢
    rw [epollCtl_eq (s := { s with eventFlag := flag, loop := .outside }) (some flag) htime
      (h.inSet hmain (by rw [hloop]; rfl))]
    exact h.back hmain (by rw [hloop]; nofun) rfl
  | testStop =>
    have hmain := h.known (by rw [hloop]; nofun)
    have hlive : s.loop ≠ .gone := by rw [hloop]; decide
    simp only
    split_ifs
    · exact h.goto hmain nofun nofun hlive nofun nofun
    · exact h.goto hmain nofun (fun _ => by rw [hloop]; rfl) hlive nofun nofun
  | del =>
    have hmain := h.known (by rw [hloop]; nofun)
    simp only [hloop] at htime ⊢
    rw [epollCtl_eq (s := { s with loop := .clearWorking }) none htime
      (h.inSet hmain (by rw [hloop]; rfl))]
    exact h.outOfSet hmain (by rw [hloop]; nofun) none s.isWorking rfl
      (fun hgone => LoopAt.noConfusion hgone)
  | clearWorking =>
    have hmain := h.known (by rw [hloop]; nofun)
    exact h.outOfSet hmain (by rw [hloop]; nofun) s.registered 0 rfl (by decide)
  | close =>
    have hmain := h.known (by rw [hloop]; nofun)
    exact h.outOfSet hmain (by rw [hloop]; nofun) none s.isWorking rfl (by decide)
  | free =>
    have hmain := h.known (by rw [hloop]; nofun)
    simp only [hloop] at htime
    exact ⟨⟨h.intact.lives, fun _ hout => LoopAt.noConfusion hout, fun hnot => absurd htime hnot⟩,
      fun hadd => absurd hadd hmain, nofun, nofun, iff_of_false nofun (fun hne => hne rfl)⟩
  | gone => exact h

/-- **One step that comes in time.** -/
theorem step_inv (h : s.Inv) {m : Move} (htime : s.InTime m) :
    ∃ s', s.step m = .ok s' ∧ s'.Inv := by
  unfold step
  rw [h.intact.lives, if_neg Bool.false_ne_true]
  cases m with
  | main added => exact stepMain_inv h htime
  | loop call => exact ⟨_, rfl, stepLoop_inv h htime⟩

/-- **A step that comes too early**, or an `epoll_ctl` that fails, does harm at once. -/
theorem step_not_intact (h : s.Inv) {m : Move} (htime : ¬ s.InTime m) :
    ∃ s', s.step m = .ok s' ∧ ¬ s'.Intact := by
  unfold step
  rw [h.intact.lives, if_neg Bool.false_ne_true]
  cases m with
  | main added =>
    simp only [InTime, Classical.not_imp, Bool.not_eq_true] at htime
    obtain ⟨hmain, rfl⟩ := htime
    refine ⟨{ s with exited := true }, ?_, fun hintact => Bool.noConfusion hintact.lives⟩
    unfold stepMain
    rw [hmain]
    rfl
  | loop call =>
    refine ⟨_, rfl, fun hintact => ?_⟩
    unfold InTime at htime
    unfold stepLoop at hintact
    cases hloop : s.loop with
    | testModify flag =>
      simp only [hloop, Classical.not_imp] at htime hintact
      have hmirrors := hintact.mirrors (h.known (by rw [hloop]; nofun)) (if_pos htime.1)
      rw [h.pending flag hloop] at hmirrors
      exact htime.2 hmirrors
    | modify flag =>
      simp only [hloop, epollCtl] at htime hintact
      rw [if_neg fun hctl => htime hctl.1] at hintact
      exact Bool.noConfusion hintact.lives
    | del =>
      simp only [hloop, epollCtl] at htime hintact
      rw [if_neg fun hctl => htime hctl.1] at hintact
      exact Bool.noConfusion hintact.lives
    | free =>
      simp only [hloop] at htime hintact
      exact Bool.noConfusion (hintact.live htime)
    | _ =>
      rw [hloop] at htime
      exact htime trivial

/-- **Which interleavings leave the event intact.**  Whatever the memory of the event held before,
no thread writes to a freed event, the process lives and the kernel waits for what `event_flag`
says, in every state of a run, exactly when all its steps come in time. -/
theorem safely_intact_iff (loopFd isWorking epollFd : Int) (moves : List Move) :
    Run.Safely step Intact (create loopFd isWorking epollFd) moves ↔
      Run.Meets step InTime (create loopFd isWorking epollFd) moves := by
  have hinv := create_inv loopFd isWorking epollFd
  constructor
  · intro hsafely
    refine (Run.always_iff_meets (I := Inv) (fun s h => h.intact) (fun s m s' h htime hok => ?_)
      (fun s m h htime => step_not_intact h htime) hinv moves).1 fun bs hbs s hs => ?_
    · obtain ⟨t, ht, hinv'⟩ := step_inv h htime
      exact Run.ok_unique ht hok ▸ hinv'
    · obtain ⟨t, ht, hintact⟩ := hsafely bs hbs
      exact Run.ok_unique ht hs ▸ hintact
  · exact Run.safely_of_meets (fun s h => h.intact) (fun s m h htime => step_inv h htime) hinv

end EventIo

end MWebServer
