import Mathlib.Tactic

/-! `channel.h`, `channel.cc`, `epoll_poller.cc`, `poller.cc`: a channel, the
poller it registers with, and the interest set the kernel keeps for the poller. -/

namespace Armsy

/-- An event mask, an `int` of `EPOLL*` bits. -/
abbrev Mask := BitVec 32

def EPOLLIN : Mask := 0x001#32
def EPOLLPRI : Mask := 0x002#32
def EPOLLOUT : Mask := 0x004#32
def EPOLLERR : Mask := 0x008#32
def EPOLLHUP : Mask := 0x010#32

def kReadable : Mask := EPOLLIN ||| EPOLLPRI
def kWritable : Mask := EPOLLOUT
def kNoneEvent : Mask := 0#32

/-- A mask as a C++ condition. -/
def Mask.test (m : Mask) : Bool := m != 0#32

/-- `kChannelInitialized`, `kChannelAdded`, `kChannelRemoved`. -/
inductive ChannelState where
  | initialized
  | added
  | removed
  deriving DecidableEq, Repr

/-- A channel; `self` is its address, which the poller and the kernel hold. -/
structure Channel where
  self : ℕ
  fd : ℕ
  events : Mask
  revents : Mask
  state : ChannelState
  tied : Bool
  deriving DecidableEq

namespace Channel

def new (self fd : ℕ) : Channel := ⟨self, fd, kNoneEvent, kNoneEvent, .initialized, false⟩

def isWriteSet (c : Channel) : Bool := (c.events &&& kWritable).test
def isSilent (c : Channel) : Bool := c.events == kNoneEvent

end Channel

inductive EpollOp where
  | add
  | mod
  | del
  deriving DecidableEq

/-- `channels_` maps a descriptor to a channel's address; `kernel` is the
interest set, a mask and the pointer registered with it for each descriptor. -/
structure EpollPoller where
  channels : ℕ → Option ℕ
  kernel : ℕ → Option (Mask × ℕ)

namespace EpollPoller

def register (p : EpollPoller) (c : Channel) : EpollPoller :=
  { p with kernel := Function.update p.kernel c.fd (some (c.events, c.self)) }

/-- `::epoll_ctl`: ADD fails on a registered descriptor, MOD and DEL on an
unregistered one. -/
def epollCtl (p : EpollPoller) (op : EpollOp) (c : Channel) : Option EpollPoller :=
  match op with
  | .add => if (p.kernel c.fd).isNone then some (p.register c) else none
  | .mod => if (p.kernel c.fd).isSome then some (p.register c) else none
  | .del =>
    if (p.kernel c.fd).isSome then some { p with kernel := Function.update p.kernel c.fd none }
    else none

/-- `update`. A failed DEL is logged only; a failed ADD or MOD is `LOG_FATAL`,
which exits the process: `none`. -/
def update (p : EpollPoller) (op : EpollOp) (c : Channel) : Option EpollPoller :=
  match p.epollCtl op c with
  | some p' => some p'
  | none => if op = .del then some p else none

def updateChannel (p : EpollPoller) (c : Channel) : Option (EpollPoller × Channel) :=
  if c.state = .initialized ∨ c.state = .removed then
    let p := if c.state = .initialized then
      { p with channels := Function.update p.channels c.fd (some c.self) } else p
    let c := { c with state := .added }
    (p.update .add c).map (·, c)
  else if c.isSilent then
    (p.update .del c).map (·, { c with state := .removed })
  else
    (p.update .mod c).map (·, c)

def removeChannel (p : EpollPoller) (c : Channel) : Option (EpollPoller × Channel) :=
  let p := { p with channels := Function.update p.channels c.fd none }
  let p' := if c.state = .added then p.update .del c else some p
  p'.map (·, { c with state := .initialized })

/-- `Poller::isChannelExist` -/
def isChannelExist (p : EpollPoller) (c : Channel) : Bool := p.channels c.fd = some c.self

end EpollPoller

namespace Channel

/-- The callbacks that `handleEventWithGuard` may invoke. -/
inductive Handler where
  | close
  | error
  | read
  | write
  deriving DecidableEq, Repr

/-- `handleEventWithGuard`: the callbacks it invokes for `revents`, in order. All
four are set on a connection's channel. -/
def handleEventWithGuard (revents : Mask) : List Handler :=
  (if (revents &&& EPOLLHUP).test && !(revents &&& EPOLLIN).test then [.close] else []) ++
  (if (revents &&& EPOLLERR).test then [.error] else []) ++
  -- `revents_ & EPOLLIN | EPOLLPRI` groups to the left
  (if ((revents &&& EPOLLIN) ||| EPOLLPRI).test then [.read] else []) ++
  (if (revents &&& EPOLLOUT).test then [.write] else [])

/-- `handleEvent`. A tied channel does nothing once the object it is tied to is gone. -/
def handleEvent (c : Channel) (tieAlive : Bool) : List Handler :=
  if c.tied then (if tieAlive then handleEventWithGuard c.revents else [])
  else handleEventWithGuard c.revents

def tie (c : Channel) : Channel := { c with tied := true }

def disableAllEvent (c : Channel) (p : EpollPoller) : Option (EpollPoller × Channel) :=
  p.updateChannel { c with events := kNoneEvent }

def enableReadEvent (c : Channel) (p : EpollPoller) : Option (EpollPoller × Channel) :=
  p.updateChannel { c with events := c.events ||| kReadable }

def disableReadEvent (c : Channel) (p : EpollPoller) : Option (EpollPoller × Channel) :=
  p.updateChannel { c with events := c.events &&& ~~~kReadable }

def enableWriteEvent (c : Channel) (p : EpollPoller) : Option (EpollPoller × Channel) :=
  p.updateChannel { c with events := c.events ||| kWritable }

def disableWriteEvent (c : Channel) (p : EpollPoller) : Option (EpollPoller × Channel) :=
  p.updateChannel { c with events := c.events &&& ~~~kWritable }

def remove (c : Channel) (p : EpollPoller) : Option (EpollPoller × Channel) := p.removeChannel c

end Channel

/-! ### Masks -/

theorem Mask.test_and_twoPow (m : Mask) (i : ℕ) :
    (m &&& BitVec.twoPow 32 i).test = m.getLsbD i := by
  simp only [test, BitVec.and_twoPow]
  cases h : m.getLsbD i with
  | false => simp
  | true =>
    have hi : i < 32 := BitVec.lt_of_getLsbD h
    simp only [if_true, bne_iff_ne, ne_eq]
    intro h0
    have := congrArg (fun x : Mask => x.getLsbD i) h0
    simp [hi] at this

theorem isWriteSet_eq (c : Channel) : c.isWriteSet = c.events.getLsbD 2 :=
  Mask.test_and_twoPow c.events 2

@[simp] theorem getLsbD_or_kWritable (m : Mask) : (m ||| kWritable).getLsbD 2 = true := by
  simp [kWritable, EPOLLOUT]

@[simp] theorem getLsbD_and_not_kWritable (m : Mask) : (m &&& ~~~kWritable).getLsbD 2 = false := by
  simp [kWritable, EPOLLOUT]

@[simp] theorem getLsbD_or_kReadable (m : Mask) : (m ||| kReadable).getLsbD 2 = m.getLsbD 2 := by
  simp [kReadable, EPOLLIN, EPOLLPRI]

/-- The test before the read callback holds of every mask. -/
theorem read_guard (revents : Mask) : ((revents &&& EPOLLIN) ||| EPOLLPRI).test = true := by
  simp only [Mask.test, bne_iff_ne, ne_eq]
  intro h
  have := congrArg (fun x : Mask => x.getLsbD 1) h
  simp [EPOLLIN, EPOLLPRI] at this

end Armsy
