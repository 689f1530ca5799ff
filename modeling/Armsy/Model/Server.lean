import Armsy.Model.ChannelSet
import Armsy.Model.TcpConnection
import Armsy.Model.TcpServer

/-! A `TcpServer` with its loops, its connections and the users that hold pointers to
them. A step is what one thread does between two points where another can come in. Of a
connection it keeps what decides who owns it: a `TcpConnectionPtr` lies in the table, in
a functor, on the stack of a loop's thread or with a user. Loop 0 is the base loop. -/

namespace Armsy

/-- A functor in the queue of a loop. -/
inductive Task where
  | connEstablish (c : ℕ)
  | connDestory (c : ℕ)
  /-- bound to the bare server -/
  | removeConnectionInLoop (c : ℕ)
  /-- bound to the bare connection -/
  | sendInLoop (c : ℕ)
  /-- bound to the bare connection -/
  | shutdownInLoop (c : ℕ)
  /-- a write-complete or high-water callback -/
  | callback (c : ℕ)
  deriving DecidableEq, Repr

/-- The connection that a functor holds a `TcpConnectionPtr` to. -/
def Task.owns : Task → Option ℕ
  | .connEstablish c | .connDestory c | .removeConnectionInLoop c | .callback c => some c
  | .sendInLoop _ | .shutdownInLoop _ => none

/-- What a loop's thread is inside of, besides `handleEvent`. -/
inductive Frame where
  | idle
  /-- `newConnection`, before `runLoopCallback(connEstablish)` -/
  | accepted (c : ℕ)
  /-- `newConnection`, after it -/
  | handedOver (c : ℕ)
  /-- `handleClose`, before `close_callback_` -/
  | closing (c : ℕ)
  /-- `handleClose`, after it -/
  | closed (c : ℕ)
  /-- `removeConnectionInLoop`, before the erase; `nested` when `handleClose` calls it -/
  | removing (c : ℕ) (nested : Bool)
  /-- `removeConnectionInLoop`, after the erase -/
  | removed (c : ℕ) (nested : Bool)
  deriving DecidableEq, Repr

/-- A local `conn_ptr`; when nested, that of `handleClose` and the one bound in the callback. -/
def Frame.refs (c : ℕ) : Frame → ℕ
  | .idle => 0
  | .accepted d | .handedOver d | .closing d | .closed d => if d = c then 1 else 0
  | .removing d nested | .removed d nested => if d = c ∧ nested then 2 else 0

structure LoopThread where
  running : Bool
  queue : BatchQueue Task
  /-- the functors of the batch that have run; they are destroyed after the last has -/
  spent : List Task
  /-- in `handleEvent` of this connection's channel, with the guard held or not -/
  dispatching : Option (ℕ × Bool)
  frame : Frame

namespace LoopThread

def start : LoopThread := ⟨true, .empty, [], none, .idle⟩

def refs (t : LoopThread) (c : ℕ) : ℕ :=
  (t.queue.waiting ++ t.spent).countP (·.owns = some c) +
    (if t.dispatching = some (c, true) then 1 else 0) + t.frame.refs c

/-- Not in `handleEvent` of a connection and not in `executePendingFunctors`. -/
def atPoll (t : LoopThread) : Bool :=
  t.frame = .idle && t.dispatching.isNone && t.queue.batch.isEmpty && t.spent.isEmpty

/-- Code that is passed a pointer to `c` is running, or its functor is not destroyed yet. -/
def passes (t : LoopThread) (c : ℕ) : Bool :=
  t.frame = .closing c || t.dispatching = some (c, true) ||
    t.spent.any fun f => f = .connEstablish c || f = .connDestory c || f = .callback c

def push (t : LoopThread) (f : Task) : LoopThread := { t with queue := t.queue.push f }

end LoopThread

/-- The part of a `TcpConnection` that its registration and its callbacks depend on. The
kernel watches the channel when its state is kChannelAdded. -/
structure Connection where
  name : List Char
  loop : ℕ
  state : ConnState
  channel : Channel
  /-- the loop whose thread `connDestory` has returned on -/
  tornDownOn : Option ℕ

/-- What a step does to a connection. -/
inductive Act where
  | connEstablish
  | connDestory (loop : ℕ)
  | handleClose
  /-- `sendInLoop`; `waits` when bytes are left to be written later -/
  | sendInLoop (waits : Bool)
  | setDisconnecting
  /-- `handleWrite` has emptied the output buffer -/
  | drained
  deriving DecidableEq, Repr

namespace Connection

def new (name : List Char) (loop self fd : ℕ) : Connection :=
  ⟨name, loop, .connecting, .new self fd, none⟩

/-- `channel_` after `updateChannel` with the mask `m`. -/
def request (m : Mask) (ch : Channel) : Channel :=
  { ch with events := m, state := { ch with events := m }.updated }

def act (k : Connection) : Act → Connection
  | .connEstablish =>
    { k with
      state := .connected, channel := request (k.channel.events ||| kReadable) k.channel.tie }
  | .connDestory l =>
    if k.state = .connected then
      { k with
        state := .disconnected
        channel := { request kNoneEvent k.channel with state := .initialized }
        tornDownOn := some l }
    else { k with channel := { k.channel with state := .initialized }, tornDownOn := some l }
  | .handleClose => { k with state := .disconnected, channel := request kNoneEvent k.channel }
  | .sendInLoop waits =>
    if waits && !k.channel.isWriteSet then
      { k with
        state := .disconnected
        channel := request (k.channel.events ||| kWritable) k.channel }
    else { k with state := .disconnected }
  | .setDisconnecting => { k with state := .disconnecting }
  | .drained => { k with channel := request (k.channel.events &&& ~~~kWritable) k.channel }

end Connection

inductive Life where
  | alive
  /-- in `~TcpServer`: its local `conn`, and the entries it has still to come to -/
  | destructing (conn : Option ℕ) (todo : List ℕ)
  | destroyed
  deriving DecidableEq, Repr

inductive UserPoint where
  | idle
  /-- in `send()`, `state_ == kConnected` seen -/
  | send
  /-- in `shutdown()`, `state_ == kConnected` seen -/
  | shutdown
  /-- in `shutdown()`, `setState(kDisconnecting)` done -/
  | shutdownSet
  deriving DecidableEq, Repr

/-- A `TcpConnectionPtr` of the user, and the call that another thread makes through it. -/
structure User where
  conn : ℕ
  point : UserPoint
  deriving DecidableEq, Repr

structure Server where
  table : TcpServer
  life : Life
  /-- `thread_num_` of the pool -/
  threads : ℕ
  /-- `next_` of the pool -/
  next : ℕ
  /-- how many connections have been accepted -/
  accepted : ℕ
  conns : ℕ → Connection
  loops : ℕ → LoopThread
  users : List User

inductive ServerEvent where
  /-- `newConnection` up to the insert -/
  | accept (self fd : ℕ)
  /-- `runLoopCallback(connEstablish)` in `newConnection` -/
  | establish
  | endAccept
  /-- `handleEvent` of a connection's channel is entered -/
  | dispatch (l c : ℕ)
  | endDispatch (l : ℕ)
  /-- `handleClose` up to its close callback -/
  | handleClose (l : ℕ)
  /-- `close_callback_`, which is `TcpServer::removeConnection` -/
  | removeConnection (l : ℕ)
  | endClose (l : ℕ)
  /-- `connections_.erase` in `removeConnectionInLoop` -/
  | erase
  /-- `pushLoopCallback(connDestory)` in `removeConnectionInLoop` -/
  | pushDestory
  | swap (l : ℕ)
  /-- the next functor of the batch; a `sendInLoop` may leave bytes for later -/
  | runFunctor (l : ℕ) (waits : Bool)
  /-- `functors` is destroyed at the end of `executePendingFunctors`, element by element -/
  | dropFunctor (l : ℕ)
  /-- `send()` or `shutdown()` by a callback on the connection's own thread -/
  | sendNow (l c : ℕ) (waits : Bool)
  | shutdownNow (l c : ℕ)
  /-- `handleWrite` empties the output buffer -/
  | drained (l : ℕ)
  /-- `sendInLoop` or `handleWrite` queues a user callback with `shared_from_this()` -/
  | notice (l c : ℕ)
  /-- a user callback, or a user that has one already, copies a pointer -/
  | copy (c : ℕ)
  | drop (i : ℕ)
  | send (i : ℕ)
  | shutdown (i : ℕ)
  | shutdownSet (i : ℕ)
  /-- the call enqueues its functor and returns -/
  | enqueue (i : ℕ)
  /-- `~TcpServer` is entered on the base loop's thread -/
  | destroy
  /-- an entry of `connections_`, in any order -/
  | destroyNext (c : ℕ)
  | endDestroyNext
  /-- the pool's destructor: a loop has quit and its thread is joined -/
  | stop (l : ℕ)
  /-- a functor left in the queue of a joined loop is destroyed -/
  | discard (l : ℕ)
  /-- `~TcpServer` returns -/
  | destroyed
  deriving DecidableEq, Repr

namespace Server

/-- All loops run; the pool's threads that have yet to enter `loop()` are in `Shutdown`. -/
def init (listenAddr : InetAddress) (name : List Char) (threads : ℕ) : Server where
  table := .new listenAddr name
  life := .alive
  threads := threads
  next := 0
  accepted := 0
  conns := fun _ => .new [] 0 0 0
  loops := fun _ => .start
  users := []

/-- `connections_` has the entry of `c`. -/
def mapped (s : Server) (c : ℕ) : Bool := s.table.connections (s.conns c).name = some c

/-- How many `TcpConnectionPtr` to `c` there are. -/
def refCount (s : Server) (c : ℕ) : ℕ :=
  (if s.mapped c then 1 else 0) +
    ((List.range (s.threads + 1)).map fun l => (s.loops l).refs c).sum +
    s.users.countP (·.conn = c) +
    match s.life with
    | .destructing (some d) _ => if d = c then 1 else 0
    | _ => 0

/-- `getNextLoop`: loop `l` of the pool is `loops_[l - 1]`. -/
def nextLoop (s : Server) : ℕ := if s.threads = 0 then 0 else s.next + 1

def destructing (s : Server) : Bool :=
  match s.life with
  | .destructing _ _ => true
  | _ => false

/-- The thread of loop `l` can take a step. The base loop's thread may be in `~TcpServer`. -/
def free (s : Server) (l : ℕ) : Bool :=
  l ≤ s.threads && (s.loops l).running && (l != 0 || !s.destructing)

/-- The thread of loop `l` is in `handleEvent`, in a handler that has not been closed. -/
def inHandler (s : Server) (l : ℕ) : Bool :=
  s.free l && (s.loops l).frame = .idle && (s.loops l).dispatching.isSome

/-- Somebody can copy a pointer to `c`: a user that has one, or a callback that is passed
one. The callback of a functor counts as running until the functor is destroyed. -/
def canCopy (s : Server) (c : ℕ) : Bool :=
  s.users.any (·.conn = c) ||
    ((List.range (s.threads + 1)).any fun l => (s.loops l).passes c) ||
    -- `connEstablish` or `connDestory` called on the base loop's thread itself
    (s.conns c).loop = 0 && ((s.loops 0).frame = .handedOver c ||
      match s.life with
      | .destructing (some d) _ => d = c
      | _ => false)

def enabled (s : Server) : ServerEvent → Bool
  | .accept _ _ =>
    s.free 0 && (s.loops 0).atPoll && s.life = .alive && s.table.nextConnId < 2 ^ 31 - 1
  | .establish => s.free 0 && match (s.loops 0).frame with | .accepted _ => true | _ => false
  | .endAccept => s.free 0 && match (s.loops 0).frame with | .handedOver _ => true | _ => false
  | .dispatch l c =>
    s.free l && (s.loops l).atPoll && c < s.accepted && (s.conns c).loop = l &&
      (s.conns c).channel.state = .added && 0 < s.refCount c
  | .endDispatch l => s.inHandler l
  -- `shared_from_this()` needs an owner
  | .handleClose l =>
    s.inHandler l && (s.loops l).dispatching.any fun d => 0 < s.refCount d.1
  | .removeConnection l =>
    s.free l && match (s.loops l).frame with | .closing _ => true | _ => false
  | .endClose l => s.free l && match (s.loops l).frame with | .closed _ => true | _ => false
  | .erase => s.free 0 && match (s.loops 0).frame with | .removing _ _ => true | _ => false
  | .pushDestory => s.free 0 && match (s.loops 0).frame with | .removed _ _ => true | _ => false
  | .swap l => s.free l && (s.loops l).atPoll
  | .runFunctor l _ =>
    s.free l && (s.loops l).frame = .idle && (s.loops l).dispatching.isNone &&
      !(s.loops l).queue.batch.isEmpty
  | .dropFunctor l =>
    s.free l && (s.loops l).frame = .idle && (s.loops l).queue.batch.isEmpty &&
      !(s.loops l).spent.isEmpty
  | .sendNow l c _ | .shutdownNow l c =>
    s.free l && c < s.accepted && (s.conns c).loop = l && (s.conns c).state = .connected &&
      0 < s.refCount c
  | .drained l =>
    s.inHandler l && (s.loops l).dispatching.any fun d => (s.conns d.1).channel.isWriteSet
  | .notice l c =>
    s.free l && c < s.accepted && (s.conns c).loop = l && (s.conns c).state != .connecting &&
      0 < s.refCount c
  | .copy c => s.canCopy c
  | .drop i | .send i | .shutdown i => s.users[i]?.any (·.point = .idle)
  | .shutdownSet i => s.users[i]?.any (·.point = .shutdown)
  | .enqueue i => s.users[i]?.any fun u =>
      (u.point = .send || u.point = .shutdownSet) && (s.loops (s.conns u.conn).loop).running
  | .destroy =>
    s.free 0 && s.life = .alive &&
      match (s.loops 0).frame with
      | .idle | .handedOver _ | .closing _ | .closed _ => true
      | _ => false
  | .destroyNext c =>
    match s.life with
    | .destructing none todo => c ∈ todo && s.mapped c
    | _ => false
  | .endDestroyNext => match s.life with | .destructing (some _) _ => true | _ => false
  | .stop l =>
    s.life = .destructing none [] && 0 < l && l ≤ s.threads && (s.loops l).running &&
      (s.loops l).atPoll
  | .discard l =>
    0 < l && l ≤ s.threads && !(s.loops l).running && !(s.loops l).queue.pending.isEmpty
  | .destroyed =>
    s.life = .destructing none [] && (List.range (s.threads + 1)).all fun l =>
      l = 0 || !(s.loops l).running && (s.loops l).queue.pending.isEmpty

/-- What the event does to which connection. -/
def acts (s : Server) : ServerEvent → Option (ℕ × Act)
  | .establish =>
    match (s.loops 0).frame with
    | .accepted c => if (s.conns c).loop = 0 then some (c, .connEstablish) else none
    | _ => none
  | .handleClose l => (s.loops l).dispatching.map fun d => (d.1, .handleClose)
  | .runFunctor l waits =>
    match (s.loops l).queue.batch with
    | .connEstablish c :: _ => some (c, .connEstablish)
    | .connDestory c :: _ => some (c, .connDestory l)
    | .sendInLoop c :: _ => some (c, .sendInLoop waits)
    | _ => none
  | .sendNow _ c waits => some (c, .sendInLoop waits)
  | .shutdownNow _ c => some (c, .setDisconnecting)
  | .drained l => (s.loops l).dispatching.map fun d => (d.1, .drained)
  | .shutdownSet i => s.users[i]?.map fun u => (u.conn, .setDisconnecting)
  | .destroyNext c => if (s.conns c).loop = 0 then some (c, .connDestory 0) else none
  | _ => none

/-- The functor that the event appends to the queue of which loop. -/
def pushes (s : Server) : ServerEvent → Option (ℕ × Task)
  | .establish =>
    match (s.loops 0).frame with
    | .accepted c =>
      if (s.conns c).loop = 0 then none else some ((s.conns c).loop, .connEstablish c)
    | _ => none
  | .removeConnection l =>
    match (s.loops l).frame with
    | .closing c => if l = 0 then none else some (0, .removeConnectionInLoop c)
    | _ => none
  | .pushDestory =>
    match (s.loops 0).frame with
    | .removed c _ => some ((s.conns c).loop, .connDestory c)
    | _ => none
  | .notice l c => some (l, .callback c)
  | .enqueue i => s.users[i]?.map fun u => ((s.conns u.conn).loop,
      if u.point = .send then .sendInLoop u.conn else .shutdownInLoop u.conn)
  | .destroyNext c =>
    if (s.conns c).loop = 0 then none else some ((s.conns c).loop, .connDestory c)
  | _ => none

/-- The loop whose thread takes the step, or whose queue is taken apart. -/
def mover : ServerEvent → Option ℕ
  | .accept _ _ | .establish | .endAccept | .erase | .pushDestory => some 0
  | .dispatch l _ | .endDispatch l | .handleClose l | .removeConnection l | .endClose l | .swap l
  | .runFunctor l _ | .dropFunctor l | .stop l | .discard l => some l
  | _ => none

/-- Where that thread stands afterwards. -/
def move (s : Server) (e : ServerEvent) (t : LoopThread) : LoopThread :=
  match e with
  | .accept _ _ => { t with frame := .accepted s.accepted }
  | .establish =>
    match t.frame with
    | .accepted c => { t with frame := .handedOver c }
    | _ => t
  | .endAccept | .endClose _ => { t with frame := .idle }
  | .dispatch _ c => { t with dispatching := some (c, (s.conns c).channel.tied) }
  | .endDispatch _ => { t with dispatching := none }
  | .handleClose _ =>
    match t.dispatching with
    | some (c, _) => { t with frame := .closing c }
    | none => t
  | .removeConnection l =>
    match t.frame with
    | .closing c => { t with frame := if l = 0 then .removing c true else .closed c }
    | _ => t
  | .erase =>
    match t.frame with
    | .removing c nested => { t with frame := .removed c nested }
    | _ => t
  | .pushDestory =>
    match t.frame with
    | .removed c nested => { t with frame := if nested then .closed c else .idle }
    | _ => t
  | .swap _ => { t with queue := t.queue.swap }
  | .runFunctor _ _ =>
    match t.queue.batch with
    | [] => t
    | f :: _ =>
      { t with
        queue := t.queue.pop
        spent := t.spent ++ [f]
        frame := match f with | .removeConnectionInLoop c => .removing c false | _ => t.frame }
  | .dropFunctor _ => { t with spent := t.spent.tail }
  | .stop _ => { t with running := false }
  | .discard _ => { t with queue := { t.queue with pending := t.queue.pending.tail } }
  | _ => t

def nextTable (s : Server) : ServerEvent → TcpServer
  | .accept _ _ => (s.table.newConnection s.accepted).getD s.table
  | .erase =>
    match (s.loops 0).frame with
    | .removing c _ => s.table.erase (s.conns c).name
    | _ => s.table
  -- `item.second.reset()`: what is left under the name is a null pointer
  | .destroyNext c => s.table.erase (s.conns c).name
  | _ => s.table

def nextLife (s : Server) : ServerEvent → Life
  | .destroy => .destructing none ((List.range s.accepted).filter s.mapped)
  | .destroyNext c =>
    match s.life with
    | .destructing _ todo => .destructing (some c) (todo.erase c)
    | life => life
  | .endDestroyNext =>
    match s.life with
    | .destructing _ todo => .destructing none todo
    | life => life
  | .destroyed => .destroyed
  | _ => s.life

/-- `next_` after `getNextLoop`, which `newConnection` calls. -/
def nextCursor (s : Server) : ServerEvent → ℕ
  | .accept _ _ => if s.threads = 0 then s.next else (s.next + 1) % s.threads
  | _ => s.next

def nextAccepted (s : Server) : ServerEvent → ℕ
  | .accept _ _ => s.accepted + 1
  | _ => s.accepted

def nextConns (s : Server) (e : ServerEvent) : ℕ → Connection :=
  match e with
  | .accept self fd =>
    Function.update s.conns s.accepted (.new s.table.connName s.nextLoop self fd)
  | e =>
    match s.acts e with
    | some (c, a) => Function.update s.conns c ((s.conns c).act a)
    | none => s.conns

def moved (s : Server) (e : ServerEvent) : ℕ → LoopThread :=
  match mover e with
  | some l => Function.update s.loops l (s.move e (s.loops l))
  | none => s.loops

def nextLoops (s : Server) (e : ServerEvent) : ℕ → LoopThread :=
  match s.pushes e with
  | some (l, f) => Function.update (s.moved e) l ((s.moved e l).push f)
  | none => s.moved e

def setPoint (users : List User) (i : ℕ) (p : UserPoint) : List User :=
  users.modify i fun u => { u with point := p }

def nextUsers (s : Server) : ServerEvent → List User
  | .copy c => s.users ++ [⟨c, .idle⟩]
  | .drop i => s.users.eraseIdx i
  | .send i =>
    if s.users[i]?.any fun u => (s.conns u.conn).state = .connected then setPoint s.users i .send
    else s.users
  | .shutdown i =>
    if s.users[i]?.any fun u => (s.conns u.conn).state = .connected then
      setPoint s.users i .shutdown
    else s.users
  | .shutdownSet i => setPoint s.users i .shutdownSet
  | .enqueue i => setPoint s.users i .idle
  | _ => s.users

def step (s : Server) (e : ServerEvent) : Option Server :=
  if s.enabled e then
    some {
      table := s.nextTable e
      life := s.nextLife e
      threads := s.threads
      next := s.nextCursor e
      accepted := s.nextAccepted e
      conns := s.nextConns e
      loops := s.nextLoops e
      users := s.nextUsers e }
  else none

end Server
end Armsy
