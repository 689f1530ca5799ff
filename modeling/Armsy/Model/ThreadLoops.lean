import Armsy.Lib.Run

/-! `t_loop_in_this_thread` of `eventloop.cc`: what the constructor and the destructor of
`EventLoop` do to it, for loops made and destroyed on any threads. An object is its
address; the storage of a destroyed one can be used again. -/

namespace Armsy

/-- An `EventLoop` that has been constructed and not destroyed; `threadId` is `thread_id_`. -/
structure LiveLoop where
  self : ℕ
  threadId : ℕ
  deriving DecidableEq, Repr

structure ThreadLoops where
  /-- `t_loop_in_this_thread` of every thread -/
  loopInThisThread : ℕ → Option ℕ
  live : List LiveLoop
  /-- `LOG_FATAL` has ended the process -/
  exited : Bool

inductive LoopLife where
  /-- `EventLoop()` at the address `self`, on thread `t` -/
  | construct (t self : ℕ)
  /-- `~EventLoop()`, on the thread that made it -/
  | destroy (self : ℕ)
  deriving DecidableEq, Repr

namespace ThreadLoops

def init : ThreadLoops := ⟨fun _ => none, [], false⟩

def construct (s : ThreadLoops) (t self : ℕ) : ThreadLoops :=
  match s.loopInThisThread t with
  | some _ => { s with exited := true }
  | none =>
    { s with
      loopInThisThread := Function.update s.loopInThisThread t (some self)
      live := s.live ++ [⟨self, t⟩] }

/-- `t_loop_in_this_thread == nullptr;` compares, and the result is dropped. -/
def destroy (s : ThreadLoops) (self : ℕ) : ThreadLoops :=
  { s with live := s.live.filter fun l => l.self != self }

/-- A loop lives at this address. -/
def occupied (s : ThreadLoops) (self : ℕ) : Bool := s.live.any fun l => l.self == self

def step (s : ThreadLoops) : LoopLife → Option ThreadLoops
  | .construct t self =>
    if s.exited || s.occupied self then none else some (s.construct t self)
  | .destroy self => if !s.exited && s.occupied self then some (s.destroy self) else none

end ThreadLoops
end Armsy
