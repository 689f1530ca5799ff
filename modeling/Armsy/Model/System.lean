import Armsy.Lib.Run
import Armsy.Model.TcpConnection

/-! One connection, the thread of its loop, and any number of other threads that
call `send()` and `shutdown()` on it. A call is split where another thread can
come between: the test of `state_`, the update of `state_`, and the immediate
run or the enqueue of `runLoopCallback`. The loop thread may carry out its own
operations in any order. -/

namespace Armsy

inductive ThreadId where
  | loop
  | other (n : ℕ)
  deriving DecidableEq, Repr

/-- Where a thread stands inside `send()` or `shutdown()`. -/
inductive Call where
  | idle
  /-- in `send(buf)`, `state_ == kConnected` seen; `snap` is what `buf` held then -/
  | send (buf : Slice) (snap : List Byte)
  /-- in `shutdown()`, `state_ == kConnected` seen -/
  | shutdown
  /-- in `shutdown()`, `setState(kDisconnecting)` done -/
  | shutdownSet
  deriving DecidableEq

structure System where
  conn : TcpConnection
  calls : ThreadId → Call
  mem : Memory Byte
  established : Bool
  /-- some call of `shutdown()` has returned -/
  shutdownReturned : Bool
  /-- the payloads of the calls of `send()` that saw kConnected and have returned -/
  sent : List (List Byte)

inductive Event where
  | connEstablish
  /-- `send(buf)`: the test of `state_` -/
  | send (t : ThreadId) (buf : Slice)
  /-- `send(buf)`: `sendInLoop` at once on the loop thread, else the enqueue -/
  | sendRun (t : ThreadId) (r : WriteResult) (junk : List Byte)
  /-- `shutdown()`: the test of `state_` -/
  | shutdown (t : ThreadId)
  | shutdownSet (t : ThreadId)
  /-- `shutdown()`: `shutdownInLoop` at once on the loop thread, else the enqueue -/
  | shutdownRun (t : ThreadId)
  | handleRead (r : ReadResult) (junk : List Byte)
  | handleWrite (r : WriteResult)
  | handleClose
  | handleError
  /-- `runLoopCallback(connDestory)` on the loop thread -/
  | connDestory
  /-- `runLoopCallback(connDestory)` or `pushLoopCallback(connDestory)` on another thread -/
  | pushDestory
  /-- `executePendingFunctors` swaps the queue out -/
  | swap
  /-- `executePendingFunctors` runs the next functor of the batch -/
  | runFunctor (r : WriteResult) (junk : List Byte)
  /-- a message callback takes bytes out of the input buffer -/
  | retrieve (len : ℕ)
  /-- memory is overwritten: a caller changes, clears or destroys a string, or
  the storage of a destroyed string is used again -/
  | store (p : ℕ) (bytes : List Byte)
  deriving DecidableEq

namespace Functor

/-- What running a functor does. `sendInLoop` reads its payload now. -/
def op (f : Functor) (mem : Memory Byte) (r : WriteResult) (junk : List Byte) : Op :=
  match f with
  | .sendInLoop buf _ => .sendInLoop (mem.read buf) r junk
  | .shutdownInLoop => .shutdownInLoop
  | .connDestory => .connDestory
  | .writeComplete => .callback .writeCompleteCallback
  | .highWaterMark size => .callback (.highWaterMarkCallback size)

end Functor

namespace System

def init (cfg : Config) (mem : Memory Byte) : System where
  conn := TcpConnection.new cfg
  calls := fun _ => .idle
  mem := mem
  established := false
  shutdownReturned := false
  sent := []

/-- `connEstablish` has run and the loop thread is not inside a call. -/
def loopFree (s : System) : Bool := s.established && s.calls .loop == .idle

/-- Thread `t` may start a call. The loop thread gets at the connection only
through its callbacks, once it is established. -/
def free (s : System) (t : ThreadId) : Bool :=
  s.calls t == .idle && (t != .loop || s.established)

/-- The functor that a call in progress is about to hand to `runLoopCallback`. -/
def boundFunctor : Call → Option Functor
  | .send buf snap => some (.sendInLoop buf snap)
  | .shutdownSet => some .shutdownInLoop
  | _ => none

def enabled (s : System) : Event → Bool
  | .connEstablish => !s.established
  | .send t _ => s.free t
  | .sendRun t _ _ => match s.calls t with | .send _ _ => true | _ => false
  | .shutdown t => s.free t
  | .shutdownSet t => s.calls t == .shutdown
  | .shutdownRun t => s.calls t == .shutdownSet
  | .pushDestory => true
  | .swap => s.loopFree && s.conn.loop.functors.batch.isEmpty
  | .runFunctor _ _ => s.loopFree && !s.conn.loop.functors.batch.isEmpty
  | .retrieve len => s.loopFree && len ≤ s.conn.inputBuffer.readableBytes
  | .store _ _ => true
  | .handleRead _ _ | .handleWrite _ | .handleClose | .handleError | .connDestory => s.loopFree

/-- `runLoopCallback(f)` on thread `t`: the operation carried out at once. -/
def runNow (s : System) (t : ThreadId) (r : WriteResult) (junk : List Byte) : Op :=
  match boundFunctor (s.calls t) with
  | some f => if t = .loop then f.op s.mem r junk else .skip
  | none => .skip

/-- `runLoopCallback(f)` on thread `t`: the queue after it. -/
def runLater (s : System) (t : ThreadId) : TcpConnection :=
  match boundFunctor (s.calls t) with
  | some f => if t = .loop then s.conn else s.conn.pushLoopCallback f
  | none => s.conn

/-- The operation that an event carries out on the connection. -/
def op (s : System) : Event → Op
  | .connEstablish => .connEstablish
  | .sendRun t r junk => s.runNow t r junk
  | .shutdownSet _ => .setDisconnecting
  | .shutdownRun t => s.runNow t (.failed .EWOULDBLOCK) []
  | .handleRead r junk => .handleRead r junk
  | .handleWrite r => .handleWrite r
  | .handleClose => .handleClose
  | .handleError => .handleError
  | .connDestory => .connDestory
  | .runFunctor r junk =>
    match s.conn.loop.functors.batch with
    | f :: _ => f.op s.mem r junk
    | [] => .skip
  | .retrieve len => .retrieve len
  | .send _ _ | .shutdown _ | .pushDestory | .swap | .store _ _ => .skip

/-- The connection as the operation finds it: an event may first move the queue. -/
def front (s : System) : Event → TcpConnection
  | .sendRun t _ _ | .shutdownRun t => s.runLater t
  | .pushDestory => s.conn.pushLoopCallback .connDestory
  | .swap => { s.conn with loop := { s.conn.loop with functors := s.conn.loop.functors.swap } }
  | .runFunctor _ _ =>
    { s.conn with loop := { s.conn.loop with functors := s.conn.loop.functors.pop } }
  | _ => s.conn

def nextCalls (s : System) : Event → ThreadId → Call
  | .send t buf =>
    if s.conn.state = .connected then Function.update s.calls t (.send buf (s.mem.read buf))
    else s.calls
  | .shutdown t =>
    if s.conn.state = .connected then Function.update s.calls t .shutdown else s.calls
  | .shutdownSet t => Function.update s.calls t .shutdownSet
  | .sendRun t _ _ | .shutdownRun t => Function.update s.calls t .idle
  | _ => s.calls

def nextMem (s : System) : Event → Memory Byte
  | .store p bytes => s.mem.write p bytes
  | _ => s.mem

/-- `shutdown()` returns after its test fails or after `runLoopCallback`. -/
def returnsShutdown (s : System) : Event → Bool
  | .shutdown _ => s.conn.state != .connected
  | .shutdownRun _ => true
  | _ => false

def returnedSend (s : System) : Event → List (List Byte)
  | .sendRun t _ _ => match s.calls t with | .send _ snap => [snap] | _ => []
  | _ => []

def step (s : System) (e : Event) : Option System :=
  if s.enabled e then
    ((s.front e).exec (s.op e)).map fun c =>
      { conn := c
        calls := s.nextCalls e
        mem := s.nextMem e
        established := s.established || e == .connEstablish
        shutdownReturned := s.shutdownReturned || s.returnsShutdown e
        sent := s.sent ++ s.returnedSend e }
  else none

end System
end Armsy
