import Armsy.Model.ChannelSet

/-! The pollers of several loops and the channels that register with them, while channels
are made and destroyed. The kernel may give a closed descriptor to a later channel. -/

namespace Armsy

structure Registry (ι : Type*) where
  /-- `poller_` of each loop -/
  poller : ℕ → EpollPoller
  channel : ι → Channel

namespace Registry

variable {ι : Type*} [DecidableEq ι]

/-- A call on channel `i`, whose loop is `l`. -/
def call (r : Registry ι) (l : ℕ) (i : ι) (op : ChannelOp) : Option (Registry ι) :=
  (op.run (r.channel i) (r.poller l)).map fun q =>
    ⟨Function.update r.poller l q.1, Function.update r.channel i q.2⟩

/-- Calls on channel `i`, one after the other. -/
def calls (r : Registry ι) (l : ℕ) (i : ι) (ops : List ChannelOp) : Option (Registry ι) :=
  ops.foldlM (fun r op => r.call l i op) r

def set (r : Registry ι) (i : ι) (ch : Channel) : Registry ι :=
  { r with channel := Function.update r.channel i ch }

/-- `::close`. The kernel drops a closed descriptor from every interest set; `channels_` is
left as it is. -/
def close (r : Registry ι) (fds : List ℕ) : Registry ι :=
  { r with poller := fun l => { r.poller l with
      kernel := fun fd => if fd ∈ fds then none else (r.poller l).kernel fd } }

/-- `EpollPoller::~EpollPoller`: `epollfd_` is closed, and the interest set goes with it. -/
def release (r : Registry ι) (l : ℕ) : Registry ι :=
  { r with poller := Function.update r.poller l .empty }

end Registry
end Armsy
