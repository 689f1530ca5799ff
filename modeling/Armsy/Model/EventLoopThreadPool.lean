import Armsy.Model.TcpServer

/-! `eventloop_threadpool.cc`, and the part of `TcpServer::newConnection` that draws a
loop from the pool. A loop is the base loop or the one that lives on the stack of the
i-th thread of the pool. `none` is undefined behaviour. -/

namespace Armsy

inductive PoolLoop where
  | base
  | thread (i : ℕ)
  deriving DecidableEq, Repr

/-- An `int` as a `size_t`. -/
def sizeOfInt (i : ℤ) : ℕ := (i % 2 ^ 64).toNat

/-- A `size_t` as an `int`. -/
def intOfSize (n : ℕ) : ℤ := Int.bmod n (2 ^ 32)

structure EventLoopThreadPool where
  started : Bool
  threadNum : ℤ
  next : ℤ
  loops : List PoolLoop

namespace EventLoopThreadPool

/-- The constructor. -/
def new : EventLoopThreadPool := ⟨false, 0, 0, []⟩

def setPoolSize (p : EventLoopThreadPool) (threadNum : ℤ) : EventLoopThreadPool :=
  { p with threadNum := threadNum }

/-- `start`: each turn of the loop makes a thread and appends the loop it runs. -/
def start (p : EventLoopThreadPool) : EventLoopThreadPool :=
  { p with
    started := true
    loops := p.loops ++
      (List.range p.threadNum.toNat).map fun i => .thread (p.loops.length + i) }

/-- `getNextLoop`; `loops_[next_]` is checked, and so is `next_ + 1` in `int`. -/
def getNextLoop (p : EventLoopThreadPool) : Option (PoolLoop × EventLoopThreadPool) :=
  if p.loops.isEmpty then some (.base, p)
  else
    p.loops[sizeOfInt p.next]?.bind fun loop =>
      if p.next < 2 ^ 31 - 1 then
        some (loop, { p with next := intOfSize (sizeOfInt (p.next + 1) % p.loops.length) })
      else none

def getAllLoops (p : EventLoopThreadPool) : List PoolLoop :=
  if !p.loops.isEmpty then [.base] else p.loops

/-- `k` calls of `getNextLoop`. -/
def getNextLoops (p : EventLoopThreadPool) : ℕ → Option (List PoolLoop × EventLoopThreadPool)
  | 0 => some ([], p)
  | k + 1 => (p.getNextLoops k).bind fun r => r.2.getNextLoop.map fun r' => (r.1 ++ [r'.1], r'.2)

/-- The pool after `setPoolSize(n)` and `start()`. -/
def ofSize (n : ℕ) : EventLoopThreadPool := (new.setPoolSize n).start

end EventLoopThreadPool

/-- A server, its pool, and the loop of every connection it has accepted. -/
structure PooledServer where
  server : TcpServer
  pool : EventLoopThreadPool
  assigned : List PoolLoop

namespace PooledServer

def init (listenAddr : InetAddress) (name : List Char) (n : ℕ) : PooledServer :=
  ⟨.new listenAddr name, .ofSize n, []⟩

/-- `newConnection` -/
def newConnection (s : PooledServer) : Option PooledServer :=
  s.pool.getNextLoop.bind fun r =>
    (s.server.newConnection s.assigned.length).map fun server =>
      ⟨server, r.2, s.assigned ++ [r.1]⟩

def step (s : PooledServer) (_ : Unit) : Option PooledServer := s.newConnection

end PooledServer
end Armsy
