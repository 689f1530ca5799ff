import Armsy.Model.System

/-! `EventLoop::loop` as one connection sees it: `epoll_wait` hands out an event
mask for its descriptor, `Channel::handleEvent` invokes the callbacks for that mask
one after the other, and between them run user code, other threads and, once the
dispatch is over, the queued functors. `close_callback_` is
`TcpServer::removeConnection`, which sends `removeConnectionInLoop` to the base loop. -/

namespace Armsy

structure Dispatcher where
  sys : System
  /-- the callbacks the dispatch in progress has still to invoke -/
  remaining : List Channel.Handler
  /-- runs of `removeConnectionInLoop` that the base loop has still to do -/
  removals : ℕ
  /-- runs of `removeConnectionInLoop` that it has done -/
  removed : ℕ

inductive DispatchEvent where
  /-- `epoll_wait` reports the descriptor; `tieAlive` says whether `tie_` can be locked -/
  | poll (revents : Mask) (tieAlive : Bool)
  /-- the next callback of the dispatch, with what `::write` or `::readv` returns in it -/
  | callback (w : WriteResult) (r : ReadResult) (junk : List Byte)
  /-- a step of user code, of another thread or of `executePendingFunctors` -/
  | other (e : Event)
  /-- the base loop runs `removeConnectionInLoop` -/
  | removeConnectionInLoop
  deriving DecidableEq

namespace Channel.Handler

/-- The member function that the constructor binds to a callback, out of these. -/
def bound {α : Type*} (h : Channel.Handler) (handleClose handleError handleRead handleWrite : α) :
    α :=
  match h with
  | .close => handleClose
  | .error => handleError
  | .read => handleRead
  | .write => handleWrite

/-- The callback as a step of the connection's system. -/
def event (h : Channel.Handler) (w : WriteResult) (r : ReadResult) (junk : List Byte) : Event :=
  h.bound .handleClose .handleError (.handleRead r junk) (.handleWrite w)

/-- The callback as an operation of the connection. -/
def op (h : Channel.Handler) (w : WriteResult) (r : ReadResult) (junk : List Byte) : Op :=
  h.bound .handleClose .handleError (.handleRead r junk) (.handleWrite w)

end Channel.Handler

namespace Dispatcher

/-- Every event `epoll_wait` can report to a channel of a connection. -/
def kAnyEvent : Mask := EPOLLIN ||| EPOLLPRI ||| EPOLLOUT ||| EPOLLERR ||| EPOLLHUP

/-- The kernel watches the descriptor on behalf of the channel. -/
def registered (s : System) : Bool :=
  (s.conn.loop.poller.kernel s.conn.channel.fd).any fun r => r.2 == s.conn.channel.self

/-- `setRevents` -/
def setRevents (s : System) (revents : Mask) : System :=
  { s with conn := { s.conn with channel := { s.conn.channel with revents := revents } } }

/-- Steps that may come between the callbacks of a dispatch, or after it. -/
def interleaves (d : Dispatcher) : Event → Bool
  | .send _ _ | .sendRun _ _ _ | .shutdown _ | .shutdownSet _ | .shutdownRun _ | .retrieve _
  | .store _ _ => true
  | .swap | .runFunctor _ _ => d.remaining.isEmpty
  | _ => false

/-- The step of the connection's system that an event takes. -/
def event (d : Dispatcher) : DispatchEvent → Option Event
  | .poll _ _ => none
  | .callback w r junk => d.remaining.head?.map fun h => h.event w r junk
  | .other e => if d.interleaves e then some e else none
  | .removeConnectionInLoop => if 0 < d.removals then some .pushDestory else none

/-- `close_callback_` runs at the end of `handleClose`. -/
def closing (d : Dispatcher) (e : Event) : ℕ := if (d.sys.op e).closes then 1 else 0

def step (d : Dispatcher) : DispatchEvent → Option Dispatcher
  | .poll revents tieAlive =>
    if d.sys.loopFree && d.remaining.isEmpty && registered d.sys &&
        (revents &&& ~~~kAnyEvent) == 0#32 then
      let sys := setRevents d.sys revents
      some { d with sys := sys, remaining := sys.conn.channel.handleEvent tieAlive }
    else none
  | .callback w r junk =>
    (d.event (.callback w r junk)).bind fun e => (d.sys.step e).map fun sys =>
      { d with sys := sys, remaining := d.remaining.tail, removals := d.removals + d.closing e }
  | .other e =>
    (d.event (.other e)).bind fun e => (d.sys.step e).map fun sys => { d with sys := sys }
  | .removeConnectionInLoop =>
    (d.event .removeConnectionInLoop).bind fun e => (d.sys.step e).map fun sys =>
      { d with sys := sys, removals := d.removals - 1, removed := d.removed + 1 }

end Dispatcher

namespace TcpConnection

/-- One `channel_.handleEvent` from end to end for the mask `revents`, with what `::write`
and `::readv` return in it. The user's callbacks leave the connection alone. -/
def handleEvent (c : TcpConnection) (revents : Mask) (tieAlive : Bool) (w : WriteResult)
    (r : ReadResult) (junk : List Byte) : Option TcpConnection :=
  let c := { c with channel := { c.channel with revents := revents } }
  (c.channel.handleEvent tieAlive).foldlM (fun c h => c.exec (h.op w r junk)) c

end TcpConnection
end Armsy
