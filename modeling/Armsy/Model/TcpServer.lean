import Armsy.Lib.Run
import Armsy.Model.Buffer

/-! `inet_address.cc` and the table of `tcp_server.cc`: the names that `newConnection`
builds, the map of connections, and the removals on their way to the base loop. A
string is the list of its characters, a connection the number of its accept. -/

namespace Armsy

/-- `sockaddr_in`: the bytes of the address and of the port, in network order. -/
structure InetAddress where
  sinAddr : Byte × Byte × Byte × Byte
  sinPort : Byte × Byte

/-- `%u`, and `%d` of a number that is not negative. -/
def decimal (n : ℕ) : List Char := Nat.toDigits 10 n

def ntohs (p : Byte × Byte) : ℕ := 256 * p.1.toNat + p.2.toNat

/-- `inet_ntop(AF_INET, ..)` -/
def inetNtop (a : Byte × Byte × Byte × Byte) : List Char :=
  decimal a.1.toNat ++ '.' :: decimal a.2.1.toNat ++ '.' :: decimal a.2.2.1.toNat ++
    '.' :: decimal a.2.2.2.toNat

def InetAddress.getIpAndPort (a : InetAddress) : List Char :=
  inetNtop a.sinAddr ++ ':' :: decimal (ntohs a.sinPort)

/-- What `snprintf` leaves in a buffer of `size` bytes of the text it prints: the last
byte is for the terminator. -/
def snprintf (size : ℕ) (text : List Char) : List Char := text.take (size - 1)

structure TcpServer where
  ipPort : List Char
  name : List Char
  nextConnId : ℕ
  connections : List Char → Option ℕ

namespace TcpServer

def new (listenAddr : InetAddress) (name : List Char) : TcpServer where
  ipPort := listenAddr.getIpAndPort
  name := name
  nextConnId := 1
  connections := fun _ => none

/-- `conn_name` in `newConnection` -/
def connName (s : TcpServer) : List Char :=
  s.name ++ snprintf 64 ('-' :: s.ipPort ++ '#' :: decimal s.nextConnId)

/-- `newConnection` makes the connection `c`. `++next_conn_id_` on the largest `int`
is undefined. -/
def newConnection (s : TcpServer) (c : ℕ) : Option TcpServer :=
  if s.nextConnId < 2 ^ 31 - 1 then
    some { s with
      nextConnId := s.nextConnId + 1
      connections := Function.update s.connections s.connName (some c) }
  else none

/-- `connections_.erase(name)` -/
def erase (s : TcpServer) (name : List Char) : TcpServer :=
  { s with connections := Function.update s.connections name none }

end TcpServer

/-- A server with the connections it has accepted and the removals it has been told of. -/
structure ConnectionTable where
  server : TcpServer
  /-- `name_` of every connection accepted so far -/
  names : List (List Char)
  /-- the connections whose `removeConnectionInLoop` is queued to the base loop -/
  queued : List ℕ
  /-- the connections whose `removeConnectionInLoop` has run -/
  removed : List ℕ

inductive TableEvent where
  | newConnection
  /-- a close notification from another thread: `removeConnectionInLoop` is queued -/
  | removeConnection (c : ℕ)
  /-- a close notification on the base loop's thread: it runs at once -/
  | removeConnectionNow (c : ℕ)
  /-- the base loop runs one of the queued `removeConnectionInLoop` -/
  | removeConnectionInLoop (i : ℕ)
  deriving DecidableEq, Repr

namespace ConnectionTable

def init (listenAddr : InetAddress) (name : List Char) : ConnectionTable :=
  ⟨.new listenAddr name, [], [], []⟩

/-- `removeConnectionInLoop(c)`: the entry under the name of `c` is erased. -/
def removeConnectionInLoop (s : ConnectionTable) (c : ℕ) : Option ConnectionTable :=
  s.names[c]?.map fun n => { s with server := s.server.erase n, removed := c :: s.removed }

def step (s : ConnectionTable) : TableEvent → Option ConnectionTable
  | .newConnection =>
    (s.server.newConnection s.names.length).map fun server =>
      { s with server := server, names := s.names ++ [s.server.connName] }
  | .removeConnection c =>
    if c < s.names.length then some { s with queued := s.queued ++ [c] } else none
  | .removeConnectionNow c => s.removeConnectionInLoop c
  | .removeConnectionInLoop i =>
    s.queued[i]?.bind { s with queued := s.queued.eraseIdx i }.removeConnectionInLoop

end ConnectionTable
end Armsy
