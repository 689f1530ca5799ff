import Armsy.Model.Registry
import Armsy.Model.Server

/-! A `TcpServer` together with the pollers of its loops: the wakeup channel of every loop,
the channel of the acceptor and those of the connections make the calls that the source
makes, and a failed ADD or MOD ends the process. A descriptor is closed with the object that
owns it, and `accept` may return it again. -/

namespace Armsy

/-- What a channel belongs to. -/
inductive Source where
  /-- `wakeup_channel_` of a loop -/
  | wakeup (l : ℕ)
  /-- `accept_channel_` -/
  | acceptor
  /-- `channel_` of a connection -/
  | conn (c : ℕ)
  deriving DecidableEq, Repr

/-- Where the channels of the loops and of the acceptor lie, and their descriptors. -/
structure Layout extends Sockets Source where
  self_injective : Function.Injective self

/-- The calls on `channel_` that an act of a connection makes, after the `tie` of
`connEstablish`. -/
def Act.calls (state : ConnState) (ch : Channel) : Act → List ChannelOp
  | .connEstablish => [.enableReadEvent]
  | .connDestory _ => if state = .connected then [.disableAllEvent, .remove] else [.remove]
  | .handleClose => [.disableAllEvent]
  | .sendInLoop waits => if waits && !ch.isWriteSet then [.enableWriteEvent] else []
  | .setDisconnecting => []
  | .drained => [.disableWriteEvent]

/-- `channel_` when the calls begin. -/
def Act.prepare (ch : Channel) : Act → Channel
  | .connEstablish => ch.tie
  | _ => ch

namespace Server

/-- The channel and its descriptor are there. -/
def isOpen (s : Server) : Source → Bool
  | .wakeup l => l ≤ s.threads && (s.loops l).running
  | .acceptor => s.life != .destroyed
  | .conn c => c < s.accepted && 0 < s.refCount c

/-- The loop of a channel. -/
def home (s : Server) : Source → ℕ
  | .wakeup l => l
  | .acceptor => 0
  | .conn c => (s.conns c).loop

def sources (s : Server) : List Source :=
  (List.range (s.threads + 1)).map .wakeup ++ .acceptor :: (List.range s.accepted).map .conn

end Server

/-- `EventLoop::EventLoop`: the wakeup channel is enabled on a new poller. -/
def EpollPoller.start (self fd : ℕ) : EpollPoller × Channel :=
  ((Channel.new self fd).enableReadEvent .empty).get rfl

structure Process where
  server : Server
  registry : Registry Source

inductive ProcessEvent where
  /-- a step of the server -/
  | server (e : ServerEvent)
  /-- `Acceptor::listen`, which `TcpServer::start` has the base loop run once -/
  | listen
  deriving DecidableEq, Repr

namespace Process

def init (k : Layout) (s : Server) : Process where
  server := s
  registry :=
    { poller := fun l =>
        if l ≤ s.threads then (EpollPoller.start (k.self (.wakeup l)) (k.fd (.wakeup l))).1
        else .empty
      channel := fun
        | .wakeup l => (EpollPoller.start (k.self (.wakeup l)) (k.fd (.wakeup l))).2
        | i => .new (k.self i) (k.fd i) }

/-- Neither the descriptor nor the address of the channel is in use. -/
def fresh (p : Process) (self fd : ℕ) : Bool :=
  p.server.sources.all fun i =>
    !p.server.isOpen i || (p.registry.channel i).fd != fd && (p.registry.channel i).self != self

/-- The event can come: the acceptor accepts when its channel is watched, and what the kernel
and the allocator return is not in use. -/
def admits (p : Process) : ServerEvent → Bool
  | .accept self fd => (p.registry.channel .acceptor).state = .added && p.fresh self fd
  | _ => true

/-- The channel that the event makes calls on, as it is then, and the calls. -/
def requests (p : Process) : ServerEvent → Option (Source × Channel × List ChannelOp)
  -- `~EventLoop`
  | .stop l => some (.wakeup l, p.registry.channel (.wakeup l), [.disableAllEvent, .remove])
  -- `~Acceptor`
  | .destroyed => some (.acceptor, p.registry.channel .acceptor, [.disableAllEvent, .remove])
  | e =>
    (p.server.acts e).map fun (c, a) =>
      let ch := p.registry.channel (.conn c)
      (.conn c, a.prepare ch, a.calls (p.server.conns c).state ch)

/-- The registry after the calls of the event; `none` when one of them exits the process. -/
def request (p : Process) (e : ServerEvent) : Option (Registry Source) :=
  match p.requests e with
  | some (i, ch, ops) => (p.registry.set i ch).calls (p.server.home i) i ops
  | none => some p.registry

/-- The descriptors that are closed on the way to `s`. -/
def closing (p : Process) (s : Server) : List ℕ :=
  (p.server.sources.filter fun i => p.server.isOpen i && !s.isOpen i).map fun i =>
    (p.registry.channel i).fd

/-- `~EventLoop` ends with the poller of the loop. -/
def joined (e : ServerEvent) (r : Registry Source) : Registry Source :=
  match e with
  | .stop l => r.release l
  | _ => r

/-- `newConnection` makes a channel. -/
def opened (p : Process) (e : ServerEvent) (r : Registry Source) : Registry Source :=
  match e with
  | .accept self fd => r.set (.conn p.server.accepted) (.new self fd)
  | _ => r

def step (p : Process) : ProcessEvent → Option Process
  | .listen =>
    if p.server.free 0 && p.server.life = .alive &&
        (p.registry.channel .acceptor).state = .initialized then
      (p.registry.call 0 .acceptor .enableReadEvent).map fun r => { p with registry := r }
    else none
  | .server e =>
    if p.admits e then
      (p.server.step e).bind fun s =>
        (p.request e).map fun r => ⟨s, p.opened e (joined e (r.close (p.closing s)))⟩
    else none

end Process
end Armsy
