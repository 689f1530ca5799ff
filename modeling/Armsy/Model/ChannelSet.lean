import Armsy.Lib.Run
import Armsy.Model.Poller

/-! Any number of channels that share one `EpollPoller`: the calls of `channel.cc`
that change a registration, in any order, on channels of distinct descriptors. -/

namespace Armsy

/-- The calls on a channel that reach the poller. -/
inductive ChannelOp where
  | enableReadEvent
  | disableReadEvent
  | enableWriteEvent
  | disableWriteEvent
  | disableAllEvent
  | remove
  deriving DecidableEq, Repr

namespace ChannelOp

def run : ChannelOp → Channel → EpollPoller → Option (EpollPoller × Channel)
  | .enableReadEvent => Channel.enableReadEvent
  | .disableReadEvent => Channel.disableReadEvent
  | .enableWriteEvent => Channel.enableWriteEvent
  | .disableWriteEvent => Channel.disableWriteEvent
  | .disableAllEvent => Channel.disableAllEvent
  | .remove => Channel.remove

/-- `events_` after the call. -/
def events (op : ChannelOp) (m : Mask) : Mask :=
  match op with
  | .enableReadEvent => m ||| kReadable
  | .disableReadEvent => m &&& ~~~kReadable
  | .enableWriteEvent => m ||| kWritable
  | .disableWriteEvent => m &&& ~~~kWritable
  | .disableAllEvent => kNoneEvent
  | .remove => m

def disables : ChannelOp → Bool
  | .disableReadEvent | .disableWriteEvent | .disableAllEvent => true
  | _ => false

end ChannelOp

/-- `state_` after `updateChannel`. -/
def Channel.updated (c : Channel) : ChannelState :=
  if c.state = .added ∧ c.isSilent = true then .removed else .added

namespace EpollPoller

def empty : EpollPoller := ⟨fun _ => none, fun _ => none⟩

/-- The operation `updateChannel` passes to `epoll_ctl`. -/
def updateRequest (c : Channel) : EpollOp :=
  if c.state = .initialized ∨ c.state = .removed then .add
  else if c.isSilent then .del else .mod

/-- The operation `removeChannel` passes to `epoll_ctl`, if it calls it. -/
def removeRequest (c : Channel) : Option EpollOp := if c.state = .added then some .del else none

end EpollPoller

/-- The `epoll_ctl` that a call makes, if any, and the channel as it is then. -/
def ChannelOp.request (op : ChannelOp) (c : Channel) : Option (EpollOp × Channel) :=
  match op with
  | .remove => (EpollPoller.removeRequest c).map (·, c)
  | op =>
    let c := { c with events := op.events c.events }
    some (EpollPoller.updateRequest c, c)

/-- The addresses and descriptors of a family of channels. -/
structure Sockets (ι : Type*) where
  self : ι → ℕ
  fd : ι → ℕ
  fd_injective : Function.Injective fd

structure ChannelSet (ι : Type*) where
  poller : EpollPoller
  channel : ι → Channel

namespace ChannelSet

variable {ι : Type*}

def init (k : Sockets ι) : ChannelSet ι :=
  ⟨.empty, fun i => Channel.new (k.self i) (k.fd i)⟩

variable [DecidableEq ι]

def step (s : ChannelSet ι) (e : ι × ChannelOp) : Option (ChannelSet ι) :=
  (e.2.run (s.channel e.1) s.poller).map fun r => ⟨r.1, Function.update s.channel e.1 r.2⟩

end ChannelSet
end Armsy
