import Armsy.Model.TcpConnection

/-! `example/test_server.cc`: a connection of the `EchoServer`, on the thread of its loop.
`onConnection` only logs; `onMessage` runs inside of `handleRead`. The server's teardown is
its `connDestory`. -/

namespace Armsy
namespace EchoServer

/-- `onMessage`; `w` is what `::write` returns if `send` gets that far. -/
def onMessage (c : TcpConnection) (w : WriteResult) (junk : List Byte) : Option TcpConnection :=
  c.inputBuffer.getAll.bind fun msg => { c with inputBuffer := msg.2 }.send msg.1 w junk

/-- `TcpConnection::handleRead` with `onMessage` for its message callback. -/
def handleRead (c : TcpConnection) (r : ReadResult) (junk : List Byte) (w : WriteResult)
    (outJunk : List Byte) : Option TcpConnection :=
  (c.handleRead r junk).bind fun c =>
    match r with
    | .delivered (_ :: _) => onMessage c w outJunk
    | _ => some c

end EchoServer

/-- What a dispatch calls, in whatever order, or the functor that tears down. -/
inductive EchoEvent where
  | handleRead (r : ReadResult) (junk : List Byte) (w : WriteResult) (outJunk : List Byte)
  | handleWrite (r : WriteResult)
  | handleClose
  | handleError
  | connDestory
  deriving DecidableEq

namespace EchoServer

def step (c : TcpConnection) : EchoEvent → Option TcpConnection
  | .handleRead r junk w outJunk => handleRead c r junk w outJunk
  | .handleWrite r => c.handleWrite r
  | .handleClose => c.handleClose
  | .handleError => some c.handleError
  | .connDestory => c.connDestory

end EchoServer
end Armsy
