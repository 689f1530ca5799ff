import Armsy.Model.Process

/-! The rounds of `EventLoop::loop` over a process: `EpollPoller::poll` fills
`active_channels_` with pointers, `handleEvent` is called on each without another look at
it, and then the pending functors run. -/

namespace Armsy

/-- Where a loop's thread is in `EventLoop::loop`. -/
inductive Phase where
  /-- before `poll` -/
  | top
  /-- in the `for` over `active_channels_`, with the pointers it has still to come to -/
  | handling (active : List ℕ)
  /-- in `executePendingFunctors` -/
  | executing
  deriving DecidableEq, Repr

structure Rounds where
  process : Process
  phase : ℕ → Phase
  /-- `events_.size()` of each poller -/
  size : ℕ → ℕ

inductive RoundEvent where
  /-- any step that `EventLoop::loop` itself does not take -/
  | process (e : ProcessEvent)
  /-- `epoll_wait` reports these descriptors -/
  | poll (l : ℕ) (ready : List ℕ)
  /-- `handleEvent` of the next active channel; the acceptor's `accept` may return a
  connection -/
  | turn (l : ℕ) (accepted : Option (ℕ × ℕ))
  /-- the `for` is done, `executePendingFunctors` has swapped the queue -/
  | execute (l : ℕ)
  /-- `executePendingFunctors` returns -/
  | again (l : ℕ)
  deriving DecidableEq, Repr

/-- The steps that are taken in `EventLoop::loop` only. -/
def ProcessEvent.inLoop : ProcessEvent → Bool
  | .server (.accept _ _) | .server (.dispatch _ _) | .server (.swap _) => true
  | _ => false

namespace Rounds

def kDefaultChannelListSize : ℕ := 16

def init (p : Process) : Rounds := ⟨p, fun _ => .top, fun _ => kDefaultChannelListSize⟩

/-- The channel at an address, if there is one. -/
def resolve (r : Rounds) (a : ℕ) : Option Source :=
  r.process.server.sources.find? fun i =>
    r.process.server.isOpen i && (r.process.registry.channel i).self = a

/-- What `triggerChannels` appends to `active_channels_`: the pointers that the kernel keeps
with the descriptors. -/
def triggerChannels (r : Rounds) (l : ℕ) (ready : List ℕ) : List ℕ :=
  ready.filterMap fun fd => ((r.process.registry.poller l).kernel fd).map Prod.snd

/-- The step of the process that the event is, if it is one; `none` too for the pointer to a
channel that is gone, where `handleEvent` has no meaning. -/
def inner (r : Rounds) : RoundEvent → Option ProcessEvent
  | .process e => some e
  | .turn l accepted =>
    match r.phase l with
    | .handling (a :: _) =>
      match r.resolve a with
      | some (.conn c) => some (.server (.dispatch l c))
      | some .acceptor => accepted.map fun (self, fd) => .server (.accept self fd)
      | _ => none
    | _ => none
  | .execute l => some (.server (.swap l))
  | _ => none

def enabled (r : Rounds) : RoundEvent → Bool
  | .process e =>
    !e.inLoop && match e with
      -- a loop is left where `quit_` is tested
      | .server (.stop l) => r.phase l = .top
      | _ => true
  | .poll l ready =>
    r.process.server.free l && (r.process.server.loops l).atPoll && r.phase l = .top &&
      decide ready.Nodup && ready.length ≤ r.size l &&
      ready.all fun fd => ((r.process.registry.poller l).kernel fd).isSome
  | .turn l accepted =>
    r.process.server.free l && (r.process.server.loops l).atPoll &&
      match r.phase l with
      | .handling (a :: _) =>
        match r.resolve a with
        | some .acceptor => true
        | some _ => accepted.isNone
        | none => false
      | _ => false
  | .execute l =>
    r.process.server.free l && (r.process.server.loops l).atPoll && r.phase l = .handling []
  | .again l =>
    r.process.server.free l && (r.process.server.loops l).atPoll && r.phase l = .executing

def nextPhase (r : Rounds) : RoundEvent → ℕ → Phase
  | .process _ => r.phase
  | .poll l ready => Function.update r.phase l (.handling (r.triggerChannels l ready))
  | .turn l _ =>
    match r.phase l with
    | .handling (_ :: as) => Function.update r.phase l (.handling as)
    | _ => r.phase
  | .execute l => Function.update r.phase l .executing
  | .again l => Function.update r.phase l .top

/-- `events_` doubles when a poll has filled it. -/
def nextSize (r : Rounds) : RoundEvent → ℕ → ℕ
  | .poll l ready =>
    if 0 < ready.length ∧ ready.length = r.size l then Function.update r.size l (r.size l * 2)
    else r.size
  | _ => r.size

def step (r : Rounds) (ev : RoundEvent) : Option Rounds :=
  if r.enabled ev then
    match r.inner ev with
    | some e => (r.process.step e).map fun p => ⟨p, r.nextPhase ev, r.nextSize ev⟩
    | none => some ⟨r.process, r.nextPhase ev, r.nextSize ev⟩
  else none

end Rounds
end Armsy
