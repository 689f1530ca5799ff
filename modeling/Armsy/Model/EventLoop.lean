import Armsy.Lib.BatchQueue

/-! `eventloop.cc`: the loop thread of an `EventLoop`, any number of other
threads calling `pushLoopCallback` and `quit`, and the eventfd between them.
Every step is one that the threads can interleave at. -/

namespace Armsy

/-- A functor in the queue, with its place in lock order and the number of
batches swapped out before it was appended (neither is in the source). -/
structure Entry (α : Type*) where
  serial : ℕ
  round : ℕ
  functor : α

/-- Where the loop thread stands in `loop()`. -/
inductive LoopPoint where
  | enter
  /-- at `while (!quit_)` -/
  | test
  /-- about to enter `poller_->poll` -/
  | poll
  /-- in `handleEvent` of the active channels -/
  | handle
  /-- in `executePendingFunctors`, before the swap -/
  | swap
  /-- in `executePendingFunctors`, running the batch -/
  | run
  | stopped
  deriving DecidableEq, Repr

/-- Where another thread stands: outside, or before the `wakeup()` of its
`pushLoopCallback` or of its `quit`. -/
inductive CallerPoint where
  | idle
  | pushed (serial : ℕ)
  | quitting
  deriving DecidableEq, Repr

structure EventLoop (α : Type*) where
  point : LoopPoint
  looping : Bool
  quit : Bool
  callingPendingFunctors : Bool
  /-- the counter of `wakeup_fd_` -/
  eventfd : ℕ
  queue : BatchQueue (Entry α)
  /-- the append of the loop thread's own `pushLoopCallback` whose wake-up test is still due -/
  own : Option ℕ
  callers : ℕ → CallerPoint
  /-- every functor appended so far, in lock order -/
  appended : List (Entry α)
  /-- every functor executed so far, with the number of its batch -/
  executed : List (Entry α × ℕ)
  /-- how many batches have been swapped out -/
  rounds : ℕ

inductive LoopEvent (α : Type*) where
  | enter
  | test
  | poll
  | awake
  | setCalling
  | swap
  | runNext
  | clearCalling
  | ownPush (f : α)
  | ownWake
  | ownQuit
  | push (t : ℕ) (f : α)
  | quit (t : ℕ)
  | wakeup (t : ℕ)

namespace EventLoop

variable {α : Type*}

def init : EventLoop α where
  point := .enter
  looping := false
  quit := false
  callingPendingFunctors := false
  eventfd := 0
  queue := .empty
  own := none
  callers := fun _ => .idle
  appended := []
  executed := []
  rounds := 0

/-- `::write` of 1 to a non-blocking eventfd: refused at the largest count. -/
def wakeup (count : ℕ) : ℕ := if count < 2 ^ 64 - 2 then count + 1 else count

theorem wakeup_pos (count : ℕ) : 0 < wakeup count := by
  unfold wakeup
  split_ifs <;> omega

/-- The entry that the next append makes. -/
def next (l : EventLoop α) (f : α) : Entry α := ⟨l.appended.length, l.rounds, f⟩

/-- `emplace_back` under the lock. -/
def append (l : EventLoop α) (f : α) : EventLoop α :=
  { l with queue := l.queue.push (l.next f), appended := l.appended ++ [l.next f] }

/-- The loop thread is where it runs code other than the loop's own. -/
def atCallback (l : EventLoop α) : Bool := l.point = .enter || l.point = .handle || l.point = .run

def step (l : EventLoop α) : LoopEvent α → Option (EventLoop α)
  | .enter =>
    if l.point = .enter ∧ l.own = none then
      some { l with point := .test, looping := true, quit := false }
    else none
  | .test =>
    if l.point = .test then
      some (if l.quit then { l with point := .stopped, looping := false }
        else { l with point := .poll })
    else none
  -- poll may return for any reason: events, a timeout or a signal
  | .poll => if l.point = .poll then some { l with point := .handle } else none
  | .awake =>
    if l.point = .handle ∧ l.own = none then some { l with eventfd := 0 } else none
  | .setCalling =>
    if l.point = .handle ∧ l.own = none then
      some { l with point := .swap, callingPendingFunctors := true }
    else none
  | .swap =>
    if l.point = .swap then
      some { l with point := .run, queue := l.queue.swap, rounds := l.rounds + 1 }
    else none
  | .runNext =>
    if l.point = .run ∧ l.own = none then
      match l.queue.batch with
      | [] => none
      | e :: _ =>
        some { l with queue := l.queue.pop, executed := l.executed ++ [(e, l.rounds)] }
    else none
  | .clearCalling =>
    if l.point = .run ∧ l.own = none ∧ l.queue.batch.isEmpty then
      some { l with point := .test, callingPendingFunctors := false }
    else none
  -- pushLoopCallback on the loop thread, by a channel handler, by a functor or
  -- by the thread's init callback before loop()
  | .ownPush f =>
    if l.atCallback ∧ l.own = none then
      some { l.append f with own := some l.appended.length }
    else none
  -- `!isInLoopThread() || calling_pending_functors_`, on the loop thread
  | .ownWake =>
    if l.own.isSome then
      some (if l.callingPendingFunctors then { l with own := none, eventfd := wakeup l.eventfd }
        else { l with own := none })
    else none
  | .ownQuit =>
    if l.atCallback ∧ l.own = none then some { l with quit := true }
    else none
  | .push t f =>
    if l.callers t = .idle then
      some { l.append f with callers := Function.update l.callers t (.pushed l.appended.length) }
    else none
  | .quit t =>
    if l.callers t = .idle then
      some { l with quit := true, callers := Function.update l.callers t .quitting }
    else none
  | .wakeup t =>
    if l.callers t = .idle then none
    else some { l with
      eventfd := wakeup l.eventfd
      callers := Function.update l.callers t .idle }

end EventLoop
end Armsy
