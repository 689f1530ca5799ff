import Armsy.Model.Server

/-! `~TcpServer` with the `~EventLoopThread`s of its pool in their steps: `quit()` and
`join()` are two, and a thread of the pool may not have entered `loop()` when the first of
them comes. -/

namespace Armsy

/-- Where a `~EventLoopThread` is after `quit_ = true`. -/
inductive JoinPoint where
  /-- before the `wakeup()` of that `quit()` -/
  | wakeup
  /-- in `thread_.join()` -/
  | join
  deriving DecidableEq, Repr

structure Shutdown where
  server : Server
  /-- the thread of the pool has entered `loop()` -/
  entered : ℕ → Bool
  /-- `quit_` of each loop -/
  quit : ℕ → Bool
  /-- the `~EventLoopThread` that the pool's destructor is in -/
  joining : Option (ℕ × JoinPoint)

inductive ShutdownEvent where
  /-- `loop()` is entered: `quit_ = false` -/
  | enter (l : ℕ)
  /-- `quit_ = true` in a `~EventLoopThread`, which has found `loop_` set -/
  | quit (l : ℕ)
  | wakeup
  /-- `thread_.join()` returns -/
  | join
  /-- a step of the server; a thread of the pool stops where it finds `quit_` set -/
  | server (e : ServerEvent)
  deriving DecidableEq, Repr

/-- The loop whose thread takes the step. -/
def Server.thread : ServerEvent → Option ℕ
  | .sendNow l _ _ | .shutdownNow l _ | .drained l | .notice l _ => some l
  | e => mover e

namespace Shutdown

def init (s : Server) : Shutdown := ⟨s, fun _ => false, fun _ => false, none⟩

/-- The server can take the step here. -/
def admits (s : Shutdown) (e : ServerEvent) : Bool :=
  ((Server.thread e).all fun l => l = 0 || s.entered l) &&
    match e with
    | .stop l => s.quit l
    | .destroyed => s.joining.isNone
    | _ => true

/-- `l` is a thread of the pool that runs. -/
def inPool (s : Shutdown) (l : ℕ) : Bool :=
  0 < l && l ≤ s.server.threads && (s.server.loops l).running

/-- The `wakeup()` of a loop that is gone has no meaning: `none`. -/
def step (s : Shutdown) : ShutdownEvent → Option Shutdown
  | .enter l =>
    if s.inPool l && !s.entered l then
      some { s with
        entered := Function.update s.entered l true
        quit := Function.update s.quit l false }
    else none
  | .quit l =>
    if s.server.life = .destructing none [] && s.joining.isNone && s.inPool l then
      some { s with quit := Function.update s.quit l true, joining := some (l, .wakeup) }
    else none
  | .wakeup =>
    match s.joining with
    | some (l, .wakeup) =>
      if (s.server.loops l).running then some { s with joining := some (l, .join) } else none
    | _ => none
  | .join =>
    match s.joining with
    | some (l, .join) =>
      if !(s.server.loops l).running && (s.server.loops l).queue.pending.isEmpty then
        some { s with joining := none }
      else none
    | _ => none
  | .server e =>
    if s.admits e then (s.server.step e).map fun t => { s with server := t } else none

end Shutdown
end Armsy
