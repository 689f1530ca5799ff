import Armsy.Lib.Run
import Armsy.Model.EventLoop

/-! `eventloop_thread.cc`, with what it uses of `thread.cc`: the thread that calls
`startLoop`, the new thread that runs `threadFunc`, the thread that runs
`~EventLoopThread`, and whoever else holds the pointer to the loop. Every lock, wait
and access to `loop_` is a step of its own. -/

namespace Armsy

/-- What `threadFunc` does next, on the new thread. -/
inductive FuncPoint where
  /-- there is no thread yet -/
  | idle
  /-- `sem_post`, in the thread `Thread::start` makes -/
  | post
  /-- the construction of `ev_loop` -/
  | construct
  /-- the rest of `init_callback_` -/
  | init
  | lock
  /-- `loop_ = &ev_loop` -/
  | publish
  | notify
  | unlock
  /-- the rest of `ev_loop.loop()` -/
  | loop
  /-- the second lock of `mutex_` -/
  | relock
  /-- `loop_ = nullptr` -/
  | clear
  /-- the unlock at the end of the scope -/
  | release
  /-- the destruction of `ev_loop` -/
  | leave
  | returned
  deriving DecidableEq, Repr

/-- What `startLoop` does next. -/
inductive StartPoint where
  | idle
  /-- `sem_wait`, in `Thread::start` -/
  | semWait
  /-- the lock of `mutex_`, also after a wait -/
  | lock
  /-- `while (loop_ == nullptr)` -/
  | test
  /-- `cond_.wait`: release the mutex and wait -/
  | sleep
  /-- waiting on the condition variable -/
  | waiting
  /-- `loop = loop_` -/
  | read
  | unlock
  | returned
  deriving DecidableEq, Repr

/-- What `~EventLoopThread` does next. -/
inductive DtorPoint where
  | idle
  /-- `if (loop_ != nullptr)` -/
  | test
  /-- the read of `loop_` for the call -/
  | load
  /-- the call of `quit()` on what was read; `false` is the null pointer -/
  | call (loop : Bool)
  /-- the `wakeup()` of that `quit()` -/
  | wakeup
  | join
  /-- the destruction of the members -/
  | members
  | destroyed
  deriving DecidableEq, Repr

/-- `mutex_` is held. -/
def FuncPoint.holds : FuncPoint → Bool
  | .publish | .notify | .unlock | .clear | .release => true
  | _ => false

def StartPoint.holds : StartPoint → Bool
  | .test | .sleep | .read | .unlock => true
  | _ => false

/-- `ev_loop` is there. -/
def FuncPoint.alive : FuncPoint → Bool
  | .idle | .post | .construct | .returned => false
  | _ => true

/-- The next step is on `loop_`, `mutex_` or `cond_` of the `EventLoopThread`. -/
def FuncPoint.touches : FuncPoint → Bool
  | .lock | .publish | .notify | .unlock | .relock | .clear | .release => true
  | _ => false

structure EventLoopThread (α : Type*) where
  func : FuncPoint
  start : StartPoint
  dtor : DtorPoint
  /-- `loop_` points to `ev_loop`, else it is null -/
  published : Bool
  /-- `ev_loop` -/
  loop : EventLoop α

inductive ThreadEvent (α : Type*) where
  | startLoop
  | threadFunc
  | destructor
  /-- `cond_.wait` returns without a notification -/
  | spurious
  /-- a step of `loop()` or `init_callback_`, or of a thread that holds the pointer -/
  | loop (e : LoopEvent α)

namespace EventLoopThread

variable {α : Type*}

def init : EventLoopThread α where
  func := .idle
  start := .idle
  dtor := .idle
  published := false
  loop := .init

/-- The thread that runs the destructor, as a caller of the loop. -/
def owner : ℕ := 0

/-- The step of the loop may be taken now: by its own thread inside `loop()` or
`init_callback_`, by another thread while the loop is there. -/
def admits (s : EventLoopThread α) : LoopEvent α → Bool
  | .push t _ | .quit t | .wakeup t => s.func.alive && t != owner
  | .ownPush _ | .ownWake | .ownQuit =>
    s.func = .init || (s.func = .loop && s.loop.point != .enter)
  | _ => s.func = .loop

def stepStart (s : EventLoopThread α) : Option (EventLoopThread α) :=
  match s.start with
  -- Thread::start makes the thread and waits for its sem_post
  | .idle => if s.dtor = .idle then some { s with start := .semWait, func := .post } else none
  | .semWait => if s.func = .post then none else some { s with start := .lock }
  | .lock => if s.func.holds then none else some { s with start := .test }
  | .test => some { s with start := if s.published then .read else .sleep }
  | .sleep => some { s with start := .waiting }
  | .waiting => none
  | .read => some { s with start := .unlock }
  | .unlock => some { s with start := .returned }
  | .returned => none

def stepFunc (s : EventLoopThread α) : Option (EventLoopThread α) :=
  match s.func with
  | .idle => none
  | .post => some { s with func := .construct }
  | .construct => some { s with func := .init }
  | .init => if s.loop.own.isSome then none else some { s with func := .lock }
  | .lock => if s.start.holds then none else some { s with func := .publish }
  | .publish => some { s with func := .notify, published := true }
  | .notify =>
    some { s with func := .unlock, start := if s.start = .waiting then .lock else s.start }
  | .unlock => some { s with func := .loop }
  | .loop => if s.loop.point = .stopped then some { s with func := .relock } else none
  | .relock => if s.start.holds then none else some { s with func := .clear }
  | .clear => some { s with func := .release, published := false }
  | .release => some { s with func := .leave }
  | .leave => some { s with func := .returned }
  | .returned => none

/-- A call through the null pointer, or of a loop that is gone, is `none`. `~Thread`
detaches a thread that was not joined. -/
def stepDtor (s : EventLoopThread α) : Option (EventLoopThread α) :=
  match s.dtor with
  | .idle => some { s with dtor := .test }
  | .test => some { s with dtor := if s.published then .load else .members }
  | .load => some { s with dtor := .call s.published }
  | .call loop =>
    if loop && s.func.alive then
      (s.loop.step (.quit owner)).map fun l => { s with loop := l, dtor := .wakeup }
    else none
  | .wakeup =>
    if s.func.alive then
      (s.loop.step (.wakeup owner)).map fun l => { s with loop := l, dtor := .join }
    else none
  | .join => if s.func = .returned then some { s with dtor := .members } else none
  | .members => some { s with dtor := .destroyed }
  | .destroyed => none

def step (s : EventLoopThread α) : ThreadEvent α → Option (EventLoopThread α)
  | .startLoop => s.stepStart
  | .threadFunc => s.stepFunc
  | .destructor => s.stepDtor
  | .spurious => if s.start = .waiting then some { s with start := .lock } else none
  | .loop e => if s.admits e then (s.loop.step e).map fun l => { s with loop := l } else none

/-- The step of the loop that an event takes, if it takes one. -/
def loopEvent (s : EventLoopThread α) : ThreadEvent α → Option (LoopEvent α)
  | .loop e => some e
  | .destructor =>
    match s.dtor with
    | .call _ => some (.quit owner)
    | .wakeup => some (.wakeup owner)
    | _ => none
  | _ => none

end EventLoopThread
end Armsy
