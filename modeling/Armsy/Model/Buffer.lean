import Armsy.Lib.Window

/-! `buffer.h`, `buffer.cc`: a byte buffer over `std::vector<char>` and two
indices. Sizes are `ℕ`; `size_t` subtraction wraps as `sizeSub` says. An access
outside the allocated storage (undefined behaviour) is `none`. -/

namespace Armsy

abbrev Byte := UInt8

/-- The values of `errno` that the code tells apart, and every other one. -/
inductive Errno where
  | EWOULDBLOCK
  | EPIPE
  | ECONNRESET
  | other (code : ℕ)
  deriving DecidableEq, Repr

/-- What one `::write` returned: a count, or -1 with `errno`. -/
inductive WriteResult where
  | wrote (n : ℕ)
  | failed (e : Errno)
  deriving DecidableEq, Repr

/-- What one `::readv` returned: the bytes it delivered, or -1 with `errno`. -/
inductive ReadResult where
  | delivered (bytes : List Byte)
  | failed (e : Errno)
  deriving DecidableEq, Repr

/-- A count returned by `::write` never exceeds the length it was given. -/
def WriteResult.fits : WriteResult → ℕ → Bool
  | .wrote n, len => n ≤ len
  | .failed _, _ => true

/-- `a - b` in `size_t`, for operands below `2 ^ 64`. -/
def sizeSub (a b : ℕ) : ℕ := if b ≤ a then a - b else 2 ^ 64 - (b - a)

theorem sizeSub_of_le {a b : ℕ} (h : b ≤ a) : sizeSub a b = a - b := if_pos h

/-- `std::vector<char>`: `capacity()` cells of storage, of which the first
`size` are elements. -/
structure Vec where
  store : List Byte
  size : ℕ
  size_le : size ≤ store.length

namespace Vec

def capacity (v : Vec) : ℕ := v.store.length

/-- `vector(n)`: `n` zeroed elements; `junk` is what the allocation holds beyond them. -/
def ofSize (n : ℕ) (junk : List Byte) : Vec where
  store := List.replicate n 0 ++ junk
  size := n
  size_le := by simp

/-- `resize(n)`. Past `capacity()` only the elements move to the new allocation;
`junk` is what that one holds beyond `n`. -/
def resize (v : Vec) (n : ℕ) (junk : List Byte) : Vec :=
  if h : n ≤ v.capacity then
    { store := overwrite v.store v.size (List.replicate (n - v.size) 0)
      size := n
      size_le := Nat.le_trans h (le_overwrite_length _ _ _) }
  else
    { store := v.store.take v.size ++ List.replicate (n - v.size) 0 ++ junk
      size := n
      size_le := by
        have := v.size_le
        simp only [capacity] at h
        simp only [List.length_append, List.length_take, List.length_replicate]
        omega }

/-- `std::copy` of `ys` to offset `i` of the storage. -/
def copyIn (v : Vec) (i : ℕ) (ys : List Byte) : Option Vec :=
  if i + ys.length ≤ v.capacity then
    some { v with
      store := overwrite v.store i ys
      size_le := Nat.le_trans v.size_le (le_overwrite_length _ _ _) }
  else none

end Vec

structure Buffer where
  buffer : Vec
  readIndex : ℕ
  writeIndex : ℕ

namespace Buffer

def kCheapPrepend : ℕ := 0
def kInitialSize : ℕ := 1024

/-- The constructor. -/
def new (initSize : ℕ) (junk : List Byte) : Buffer where
  buffer := Vec.ofSize (kCheapPrepend + initSize) junk
  readIndex := kCheapPrepend
  writeIndex := kCheapPrepend

def readableBytes (b : Buffer) : ℕ := sizeSub b.writeIndex b.readIndex

def writableBytes (b : Buffer) : ℕ := sizeSub b.buffer.capacity b.writeIndex

def prependableBytes (b : Buffer) : ℕ := b.readIndex

def pushState (b : Buffer) (len : ℕ) : Buffer :=
  if len < b.readableBytes then { b with readIndex := b.readIndex + len }
  else { b with readIndex := kCheapPrepend, writeIndex := kCheapPrepend }

def get (b : Buffer) (len : ℕ) : Option (List Byte × Buffer) :=
  if b.readIndex + len ≤ b.buffer.capacity then
    some (window b.buffer.store b.readIndex (b.readIndex + len), b.pushState len)
  else none

def getAll (b : Buffer) : Option (List Byte × Buffer) := b.get b.readableBytes

def makeSpace (b : Buffer) (len : ℕ) (junk : List Byte) : Option Buffer :=
  if b.writableBytes + b.prependableBytes < len + kCheapPrepend then
    some { b with buffer := b.buffer.resize (b.writeIndex + len) junk }
  else if b.readIndex ≤ b.writeIndex ∧ b.writeIndex ≤ b.buffer.capacity then
    -- the unread bytes move to the front; std::copy may overlap in that direction
    (b.buffer.copyIn kCheapPrepend (window b.buffer.store b.readIndex b.writeIndex)).map fun v =>
      { buffer := v
        readIndex := kCheapPrepend
        writeIndex := kCheapPrepend + b.readableBytes }
  else none

def checkBuffer (b : Buffer) (len : ℕ) (junk : List Byte) : Option Buffer :=
  if b.writableBytes < len then b.makeSpace len junk else some b

/-- `put`; `junk` is used only when the storage is reallocated. -/
def put (b : Buffer) (data junk : List Byte) : Option Buffer :=
  (b.checkBuffer data.length junk).bind fun b =>
    (b.buffer.copyIn b.writeIndex data).map fun v =>
      { b with buffer := v, writeIndex := b.writeIndex + data.length }

/-- `sizeof extrabuf` -/
def kExtraSize : ℕ := 65536

/-- `read` from a descriptor whose `::readv` returns `r`. -/
def read (b : Buffer) (r : ReadResult) (junk : List Byte) : Option Buffer :=
  match r with
  | .failed _ => some b
  | .delivered bytes =>
    let writable := b.writableBytes
    let total := if writable < kExtraSize then writable + kExtraSize else writable
    if total < bytes.length then none
    else
      -- vec[0], the space behind write_index_, is filled before vec[1]
      (b.buffer.copyIn b.writeIndex (bytes.take writable)).bind fun v =>
        if bytes.length ≤ writable then
          some { b with buffer := v, writeIndex := b.writeIndex + bytes.length }
        else
          put { b with buffer := v, writeIndex := v.size } (bytes.drop writable) junk

/-- `write`: the bytes it passes to `::write`. -/
def write (b : Buffer) : Option (List Byte) :=
  if b.readIndex + b.readableBytes ≤ b.buffer.capacity then
    some (window b.buffer.store b.readIndex (b.readIndex + b.readableBytes))
  else none

/-- The unread bytes, oldest first. -/
def unread (b : Buffer) : List Byte := window b.buffer.store b.readIndex b.writeIndex

end Buffer

end Armsy
