import Armsy.Lib.BatchQueue
import Armsy.Model.Buffer
import Armsy.Model.Poller

/-! `tcp_connection.cc`: the operations of one `TcpConnection`, each on the
thread that runs it. What a system call returned is an argument. `log` records
what the socket and the callbacks have seen. `none` is an exit of the process
or undefined behaviour. -/

namespace Armsy

/-! ### Memory -/

/-- An address range. -/
structure Slice where
  ptr : ℕ
  len : ℕ
  deriving DecidableEq, Repr

/-- The contents of every address. -/
abbrev Memory (β : Type*) := ℕ → β

namespace Memory

variable {β : Type*}

def read (m : Memory β) (s : Slice) : List β := (List.range s.len).map fun i => m (s.ptr + i)

def write (m : Memory β) (p : ℕ) (bs : List β) : Memory β := fun a =>
  if a < p then m a else (bs[a - p]?).getD (m a)

end Memory

/-! ### The connection -/

inductive ConnState where
  | disconnected
  | connecting
  | connected
  | disconnecting
  deriving DecidableEq, Repr

/-- What the loop's queue may hold for a connection. `sendInLoop` is bound to
the raw `buf.c_str()` and `buf.size()`; `snap` is what `buf` held when `send`
was called, which the source does not keep. -/
inductive Functor where
  | sendInLoop (buf : Slice) (snap : List Byte)
  | shutdownInLoop
  | connDestory
  | writeComplete
  | highWaterMark (size : ℕ)
  deriving DecidableEq

inductive Effect where
  /-- `sendInLoop` was entered with these bytes. -/
  | sendInLoop (data : List Byte)
  | write (data : List Byte) (r : WriteResult)
  /-- `sendInLoop` gave up on bytes that `::write` refused for good. -/
  | giveUp (data : List Byte)
  | shutdownWrite
  | readv (r : ReadResult)
  | connCallback (isConnected : Bool)
  | msgCallback
  | closeCallback
  | writeCompleteCallback
  | highWaterMarkCallback (size : ℕ)
  deriving DecidableEq

/-- The part of `loop_` that a connection uses: its poller and its functor queue. -/
structure IoLoop where
  poller : EpollPoller
  functors : BatchQueue Functor

structure TcpConnection where
  state : ConnState
  channel : Channel
  loop : IoLoop
  writeCompleteCallback : Bool
  highwaterMarkCallback : Bool
  highWaterMark : ℕ
  inputBuffer : Buffer
  outputBuffer : Buffer
  log : List Effect

/-- What a connection is built from. The poller of its loop has not seen its
descriptor yet. -/
structure Config where
  self : ℕ
  fd : ℕ
  poller : EpollPoller
  writeCompleteCallback : Bool
  highwaterMarkCallback : Bool
  inputJunk : List Byte
  outputJunk : List Byte
  unregistered : poller.kernel fd = none
  unmapped : poller.channels fd = none

namespace TcpConnection

/-- The constructor. -/
def new (cfg : Config) : TcpConnection where
  state := .connecting
  channel := Channel.new cfg.self cfg.fd
  loop := ⟨cfg.poller, .empty⟩
  writeCompleteCallback := cfg.writeCompleteCallback
  highwaterMarkCallback := cfg.highwaterMarkCallback
  highWaterMark := 64 * 1024 * 1024
  inputBuffer := Buffer.new Buffer.kInitialSize cfg.inputJunk
  outputBuffer := Buffer.new Buffer.kInitialSize cfg.outputJunk
  log := []

def isConnected (c : TcpConnection) : Bool := c.state = .connected

def setState (c : TcpConnection) (st : ConnState) : TcpConnection := { c with state := st }

def emit (c : TcpConnection) (e : Effect) : TcpConnection := { c with log := c.log ++ [e] }

/-- `loop_->pushLoopCallback` -/
def pushLoopCallback (c : TcpConnection) (f : Functor) : TcpConnection :=
  { c with loop := { c.loop with functors := c.loop.functors.push f } }

/-- A call on `channel_`, which goes through to the loop's poller. -/
def onChannel (c : TcpConnection)
    (f : Channel → EpollPoller → Option (EpollPoller × Channel)) : Option TcpConnection :=
  (f c.channel c.loop.poller).map fun r =>
    { c with channel := r.2, loop := { c.loop with poller := r.1 } }

/-- `errno` values after which `sendInLoop` drops the payload. -/
def faultError (e : Errno) : Bool := e != .EWOULDBLOCK && (e == .EPIPE || e == .ECONNRESET)

/-- What the first half of `sendInLoop` leaves for the second. -/
structure Attempt where
  conn : TcpConnection
  wroteLen : ℕ
  faultError : Bool

/-- Nothing is queued in front of the payload of `sendInLoop`. -/
def writesDirectly (c : TcpConnection) : Bool :=
  !c.channel.isWriteSet && c.outputBuffer.readableBytes == 0

/-- The first half of `sendInLoop`: a `::write` on the socket itself. -/
def attemptWrite (c : TcpConnection) (data : List Byte) (r : WriteResult) : Option Attempt :=
  if c.writesDirectly then
    if r.fits data.length then
      let c := c.emit (.write data r)
      match r with
      | .wrote n =>
        let c := if data.length - n = 0 ∧ c.writeCompleteCallback then
          c.pushLoopCallback .writeComplete else c
        some ⟨c, n, false⟩
      | .failed e =>
        if faultError e then some ⟨c.emit (.giveUp data), 0, true⟩ else some ⟨c, 0, false⟩
    else none
  else some ⟨c, 0, false⟩

/-- Queue the high-water callback when `remained` more bytes cross the mark. -/
def noteHighWater (c : TcpConnection) (remained : ℕ) : TcpConnection :=
  let inBuffer := c.outputBuffer.readableBytes
  if inBuffer + remained ≥ c.highWaterMark ∧ inBuffer < c.highWaterMark ∧
      c.highwaterMarkCallback then
    c.pushLoopCallback (.highWaterMark (inBuffer + remained))
  else c

def requestWrite (c : TcpConnection) : Option TcpConnection :=
  if c.channel.isWriteSet then some c else c.onChannel Channel.enableWriteEvent

/-- The second half of `sendInLoop`: what `::write` did not take goes to the buffer. -/
def appendRest (c : TcpConnection) (rest junk : List Byte) : Option TcpConnection :=
  let c := c.noteHighWater rest.length
  (c.outputBuffer.put rest junk).bind fun b => { c with outputBuffer := b }.requestWrite

def sendInLoop (c : TcpConnection) (data : List Byte) (r : WriteResult) (junk : List Byte) :
    Option TcpConnection :=
  -- `if (state_ = kDisconnected)` assigns; the value is 0, so its branch is never taken
  let c := (c.setState .disconnected).emit (.sendInLoop data)
  (c.attemptWrite data r).bind fun a =>
    if !a.faultError && data.length - a.wroteLen > 0 then
      a.conn.appendRest (data.drop a.wroteLen) junk
    else some a.conn

/-- `send` on the loop thread. -/
def send (c : TcpConnection) (data : List Byte) (r : WriteResult) (junk : List Byte) :
    Option TcpConnection :=
  if c.state = .connected then c.sendInLoop data r junk else some c

def shutdownInLoop (c : TcpConnection) : TcpConnection :=
  if c.channel.isWriteSet then c else c.emit .shutdownWrite

def connEstablish (c : TcpConnection) : Option TcpConnection :=
  let c := c.setState .connected
  let c := { c with channel := c.channel.tie }
  (c.onChannel Channel.enableReadEvent).map fun c => c.emit (.connCallback c.isConnected)

def connDestory (c : TcpConnection) : Option TcpConnection :=
  if c.state = .connected then
    ((c.setState .disconnected).onChannel Channel.disableAllEvent).bind fun c =>
      (c.emit (.connCallback c.isConnected)).onChannel Channel.remove
  else c.onChannel Channel.remove

def handleClose (c : TcpConnection) : Option TcpConnection :=
  ((c.setState .disconnected).onChannel Channel.disableAllEvent).map fun c =>
    (c.emit (.connCallback c.isConnected)).emit .closeCallback

/-- `handleError` reads `SO_ERROR` and logs it. -/
def handleError (c : TcpConnection) : TcpConnection := c

def handleRead (c : TcpConnection) (r : ReadResult) (junk : List Byte) : Option TcpConnection :=
  (c.inputBuffer.read r junk).bind fun b =>
    let c := { c with inputBuffer := b }.emit (.readv r)
    match r with
    | .delivered bytes => if bytes.length > 0 then some (c.emit .msgCallback) else c.handleClose
    | .failed _ => some c.handleError

/-- The part of `handleWrite` after the buffer has drained. -/
def drained (c : TcpConnection) : Option TcpConnection :=
  (c.onChannel Channel.disableWriteEvent).map fun c =>
    let c := if c.writeCompleteCallback then c.pushLoopCallback .writeComplete else c
    if c.state = .disconnecting then c.shutdownInLoop else c

def handleWrite (c : TcpConnection) (r : WriteResult) : Option TcpConnection :=
  if c.channel.isWriteSet then
    c.outputBuffer.write.bind fun data =>
      if r.fits data.length then
        let c := c.emit (.write data r)
        match r with
        | .wrote n =>
          if n > 0 then
            let c := { c with outputBuffer := c.outputBuffer.pushState n }
            if c.outputBuffer.readableBytes = 0 then c.drained else some c
          else some c
        | .failed _ => some c
      else none
  else some c

/-- A message callback takes `len` bytes out of the input buffer. -/
def retrieve (c : TcpConnection) (len : ℕ) : TcpConnection :=
  { c with inputBuffer := c.inputBuffer.pushState len }

end TcpConnection

/-- One operation carried out on a connection by the thread that runs it. -/
inductive Op where
  | connEstablish
  | sendInLoop (data : List Byte) (r : WriteResult) (junk : List Byte)
  | shutdownInLoop
  | setDisconnecting
  | handleRead (r : ReadResult) (junk : List Byte)
  | handleWrite (r : WriteResult)
  | handleClose
  | handleError
  | connDestory
  | callback (e : Effect)
  | retrieve (len : ℕ)
  | skip
  deriving DecidableEq

/-- The operation ends in `handleClose`. -/
def Op.closes : Op → Bool
  | .handleClose | .handleRead (.delivered []) _ => true
  | _ => false

namespace TcpConnection

def exec (c : TcpConnection) : Op → Option TcpConnection
  | .connEstablish => c.connEstablish
  | .sendInLoop data r junk => c.sendInLoop data r junk
  | .shutdownInLoop => some c.shutdownInLoop
  | .setDisconnecting => some (c.setState .disconnecting)
  | .handleRead r junk => c.handleRead r junk
  | .handleWrite r => c.handleWrite r
  | .handleClose => c.handleClose
  | .handleError => some c.handleError
  | .connDestory => c.connDestory
  | .callback e => some (c.emit e)
  | .retrieve len => some (c.retrieve len)
  | .skip => some c

end TcpConnection
end Armsy
