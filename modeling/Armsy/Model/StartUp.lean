import Armsy.Lib.Run
import Armsy.Model.EventLoopThreadPool

/-! `TcpServer::start`, which any thread may call and call again, with the loop of
`EventLoopThreadPool::start` a turn at a time, and `Acceptor::listen`, which the base loop
runs. Thread 0 is the thread of the base loop. -/

namespace Armsy

/-- What a thread does next in `TcpServer::start`. -/
inductive StartCall where
  /-- it is not in there -/
  | idle
  /-- `if (started_++ == 0)` -/
  | count
  /-- `started_ = true` of the pool -/
  | flag
  /-- `i < thread_num_`, and when it holds the body: `startLoop` has come back and its loop
  is appended -/
  | fill (i : ℕ)
  /-- `loop_->runLoopCallback` -/
  | listen
  deriving DecidableEq, Repr

/-- The call has gone through the test of `started_`. -/
def StartCall.works : StartCall → Bool
  | .idle | .count => false
  | _ => true

structure StartUp where
  server : PooledServer
  /-- `started_` of the server; an atomic integer wraps -/
  started : BitVec 32
  calls : ℕ → StartCall
  /-- how many `Acceptor::listen` are in `pending_functors_` of the base loop -/
  queued : ℕ
  /-- how many have run; the acceptor is listening from the first one on -/
  listens : ℕ

inductive StartEvent where
  | setThreadPoolSize (num : ℤ)
  /-- a thread calls `start()` -/
  | call (t : ℕ)
  | step (t : ℕ)
  /-- the base loop runs a queued `Acceptor::listen` -/
  | runListen
  /-- `Acceptor::handleRead` has a connection and calls `newConnection` -/
  | accept
  deriving DecidableEq, Repr

namespace EventLoopThreadPool

/-- The body of the loop in `start`. -/
def startOne (p : EventLoopThreadPool) : EventLoopThreadPool :=
  { p with loops := p.loops ++ [.thread p.loops.length] }

end EventLoopThreadPool

namespace StartUp

/-- `TcpServer::TcpServer` -/
def init (listenAddr : InetAddress) (name : List Char) : StartUp where
  server := ⟨.new listenAddr name, .new, []⟩
  started := 0
  calls := fun _ => .idle
  queued := 0
  listens := 0

def setCall (s : StartUp) (t : ℕ) (c : StartCall) : StartUp :=
  { s with calls := Function.update s.calls t c }

def setPool (s : StartUp) (p : EventLoopThreadPool) : StartUp :=
  { s with server := { s.server with pool := p } }

def stepCall (s : StartUp) (t : ℕ) : Option StartUp :=
  match s.calls t with
  | .idle => none
  | .count =>
    some ({ s with started := s.started + 1 }.setCall t (if s.started = 0 then .flag else .idle))
  | .flag => some ((s.setPool { s.server.pool with started := true }).setCall t (.fill 0))
  | .fill i =>
    if (i : ℤ) < s.server.pool.threadNum then
      some ((s.setPool s.server.pool.startOne).setCall t (.fill (i + 1)))
    else some (s.setCall t .listen)
  | .listen =>
    -- on the base loop's thread `runLoopCallback` makes the call, elsewhere it is queued
    if t = 0 then some ({ s with listens := s.listens + 1 }.setCall t .idle)
    else some ({ s with queued := s.queued + 1 }.setCall t .idle)

def step (s : StartUp) : StartEvent → Option StartUp
  | .setThreadPoolSize num => some (s.setPool (s.server.pool.setPoolSize num))
  | .call t => if s.calls t = .idle then some (s.setCall t .count) else none
  | .step t => s.stepCall t
  | .runListen =>
    if s.calls 0 = .idle && 0 < s.queued then
      some { s with queued := s.queued - 1, listens := s.listens + 1 }
    else none
  | .accept =>
    if s.calls 0 = .idle && 0 < s.listens then
      s.server.newConnection.map fun server => { s with server := server }
    else none

end StartUp
end Armsy
