import Armsy.Model.TcpServer

/-! The rest of `inet_address.cc`, with the library functions under it: the constructor from
a port and a text, which `inet_addr` reads in any of its forms (one part to four, each
decimal, octal or hexadecimal), and the getters. -/

namespace Armsy

def htons (port : UInt16) : Byte × Byte := (UInt8.ofNat (port.toNat / 256), port.toUInt8)

def isOctalDigit (c : Char) : Bool := '0' ≤ c && c ≤ '7'

def isHexDigit (c : Char) : Bool := c.isDigit || 'a' ≤ c.toLower && c.toLower ≤ 'f'

/-- `isspace` in the C locale -/
def isSpace (c : Char) : Bool := c = ' ' || '\t' ≤ c && c ≤ '\r'

def digitValue (c : Char) : ℕ :=
  if c.isDigit then c.toNat - '0'.toNat else c.toLower.toNat - 'a'.toNat + 10

/-- The number that the text begins with, and the rest of the text. -/
def numeral (base : ℕ) (isDigit : Char → Bool) (s : List Char) : ℕ × List Char :=
  ((s.takeWhile isDigit).foldl (fun n c => base * n + digitValue c) 0, s.dropWhile isDigit)

/-- `strtoul(s, &end, 0)` where `s` begins with a digit, before any overflow -/
def strtoul : List Char → ℕ × List Char
  | '0' :: x :: c :: s =>
    if (x = 'x' || x = 'X') && isHexDigit c then numeral 16 isHexDigit (c :: s)
    else numeral 8 isOctalDigit ('0' :: x :: c :: s)
  | '0' :: s => numeral 8 isOctalDigit ('0' :: s)
  | s => numeral 10 Char.isDigit s

/-- The last part of an address is for all the bytes that are left. -/
def lastPart (dots : ℕ) (part : ℕ × List Char) : Option ℕ :=
  if part.2.head?.all isSpace && part.1 < 256 ^ (dots + 1) then some part.1 else none

/-- `inet_aton`, from a part with at most `dots` more behind it. -/
def inetAton : ℕ → List Char → Option ℕ
  | 0, s => if s.head?.any Char.isDigit then lastPart 0 (strtoul s) else none
  | dots + 1, s =>
    if s.head?.any Char.isDigit then
      match strtoul s with
      | (val, '.' :: rest) =>
        if val ≤ 255 then (inetAton dots rest).map (val * 256 ^ (dots + 1) + ·) else none
      | part => lastPart (dots + 1) part
    else none

/-- `htonl` -/
def htonl (word : ℕ) : Byte × Byte × Byte × Byte :=
  (UInt8.ofNat (word / 256 ^ 3), UInt8.ofNat (word / 256 ^ 2), UInt8.ofNat (word / 256),
    UInt8.ofNat word)

/-- `inet_addr`: what it cannot read is `INADDR_NONE`. -/
def inetAddr (s : List Char) : Byte × Byte × Byte × Byte :=
  htonl ((inetAton 3 s).getD (2 ^ 32 - 1))

namespace InetAddress

/-- The constructor; `ip.c_str()` ends at the first null character. -/
def new (port : UInt16 := 0) (ip : List Char := "127.0.0.1".toList) : InetAddress where
  sinAddr := inetAddr (ip.takeWhile (· ≠ '\x00'))
  sinPort := htons port

def getNumberAndDotIp (a : InetAddress) : List Char := inetNtop a.sinAddr

def getShortIntPort (a : InetAddress) : UInt16 := UInt16.ofNat (ntohs a.sinPort)

end InetAddress
end Armsy
