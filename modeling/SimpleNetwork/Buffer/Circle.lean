import SimpleNetwork.Buffer.Basic

/-! `buffer::circle`, the default representation of `buffer<>`: a growing ring
with masked counts. Sizes are 64-bit words, the contiguous-run helpers pass
through `int`, and every `memcpy` is checked against the array. -/
namespace SimpleNetwork
open Words

structure Circle where
  data : Data
  head : UInt64
  tail : UInt64
  deriving DecidableEq, Repr

namespace Circle

def new (maxSize defaultSize : UInt64) : Circle := ⟨Data.new maxSize defaultSize, 0, 0⟩

def reset (c : Circle) : Circle := { c with head := 0, tail := 0 }

def getSize (c : Circle) : UInt64 := c.data.getSize

/-- `get_count(head, tail, size)`. -/
def countOf (head tail size : UInt64) : UInt64 := (tail - head) &&& (size - 1)

/-- `get_continguious_count(head, tail, size)`. -/
def continguiousCountOf (head tail size : UInt64) : UInt64 :=
  let last := toInt (size - head)
  let n := toInt ((tail + ofInt last) &&& (size - 1))
  ofInt (if n < last then n else last)

/-- `get_continguious_space(head, tail, size)`. -/
def continguiousSpaceOf (head tail size : UInt64) : UInt64 :=
  let last := toInt (size - 1 - tail)
  let n := toInt ((ofInt last + head) &&& (size - 1))
  ofInt (if n ≤ last then n else last + 1)

def getCount (c : Circle) : UInt64 := countOf c.head c.tail c.getSize

def getContinguiousCount (c : Circle) : UInt64 := continguiousCountOf c.head c.tail c.getSize

/-- Move to an array four times as large, unless that reaches the maximum. -/
def expand : EStateM Fault Circle Unit := do
  let c ← get
  let size := c.getSize <<< 2
  if size ≥ c.data.maxSize then throw (.thrown .writeNoSpace)
  else
    let fresh ← Data.alloc c.data.maxSize size
    let count := c.getCount
    let readCount := sizeMin c.getContinguiousCount count
    let remainCount := count - readCount
    let first ← c.data.load c.head readCount
    let fresh ← fresh.store 0 first
    if remainCount = 0 then set (Circle.mk fresh 0 count)
    else
      let second ← c.data.load ((c.head + readCount) % c.getSize) remainCount
      let fresh ← fresh.store readCount second
      set (Circle.mk fresh 0 count)

/-- One space query with a recursion bound. Quadrupling leaves no bit of a
64-bit size after 32 rounds, so 64 rounds cover every call that returns. -/
def spaceFuel (space : Circle → UInt64) : Nat → EStateM Fault Circle UInt64
  | 0 => throw .diverged
  | fuel + 1 => do
    let c ← get
    if space c ≠ 0 then pure (space c)
    else
      expand
      spaceFuel space fuel

def getSpace : EStateM Fault Circle UInt64 :=
  spaceFuel (fun c => countOf (c.tail + 1) c.head c.getSize) 64

def getContinguiousSpace : EStateM Fault Circle UInt64 :=
  spaceFuel (fun c => continguiousSpaceOf c.head c.tail c.getSize) 64

def peekStart (count : UInt64) : EStateM Fault Circle (List UInt8) := do
  let c ← get
  c.data.load c.head count

def pokeEnd (bytes : List UInt8) : EStateM Fault Circle Unit := do
  let c ← get
  let data ← c.data.store c.tail bytes
  set { c with data := data }

def written (count : UInt64) : EStateM Fault Circle Unit :=
  modify fun c => { c with tail := (c.tail + count) % c.getSize }

def remove (count : UInt64) : EStateM Fault Circle Unit :=
  modify fun c => { c with head := (c.head + count) % c.getSize }

/-- The sign test of the source is kept; on an unsigned cursor it never fires. -/
def removeFromBack (count : UInt64) : EStateM Fault Circle Unit :=
  modify fun c =>
    let tail := c.tail - count
    { c with tail := if tail < 0 then tail + c.getSize else tail }

/-- `read` with a recursion bound; a call that makes no progress recurs on the
same arguments, so one round per byte and one more cover every call that returns. -/
def readFuel : Nat → (count offset : UInt64) → (peek : Bool) → EStateM Fault Circle (List UInt8)
  | 0, _, _, _ => throw .diverged
  | fuel + 1, count, offset, peek => do
    let peek := if offset = noOffset then false else peek
    let offset := if offset = noOffset then 0 else offset
    let c ← get
    if c.getCount < offset + count then throw (.thrown .readInvalidOffset)
    else
      let head := (c.head + offset) % c.getSize
      let readCount := sizeMin (continguiousCountOf head c.tail c.getSize) count
      let bytes ← c.data.load head readCount
      let offset := if peek then offset + readCount else offset
      set (if peek then c else { c with head := (c.head + readCount) % c.getSize })
      let remainCount := count - readCount
      if remainCount = 0 then pure bytes
      else
        let rest ← readFuel fuel remainCount offset peek
        pure (bytes ++ rest)

def read (count offset : UInt64) : EStateM Fault Circle (List UInt8) :=
  readFuel (count.toNat + 1) count offset true

/-- `write` with a recursion bound: one round per byte, and the expansions. -/
def writeFuel : Nat → (data : List UInt8) → (offset : UInt64) → EStateM Fault Circle Unit
  | 0, _, _ => throw .diverged
  | fuel + 1, data, offset => do
    let count := UInt64.ofNat data.length
    let place (offset : UInt64) : EStateM Fault Circle Unit := do
      let c ← get
      let head := (c.head + offset) % c.getSize
      let writeCount := sizeMin (continguiousSpaceOf head c.tail c.getSize) count
      let stored ← c.data.store head (data.take writeCount.toNat)
      set { c with data := stored }
      if count - writeCount = 0 then pure ()
      else writeFuel fuel (data.drop writeCount.toNat) (offset + writeCount)
    if offset ≠ noOffset then
      let c ← get
      if c.getCount < offset + count then throw (.thrown .writeInvalidOffset)
      else place offset
    else
      let space ← getSpace
      if space < count then
        expand
        writeFuel fuel data offset
      else
        let c ← get
        written count
        place c.getCount

def write (data : List UInt8) (offset : UInt64) : EStateM Fault Circle Unit :=
  writeFuel (data.length + 64) data offset

/-- `write(const circle&, offset, count)`: one append per contiguous piece. -/
def writeFromFuel : Nat → (source : Circle) → (offset count : UInt64) → EStateM Fault Circle Unit
  | 0, _, _, _ => throw .diverged
  | fuel + 1, source, offset, count => do
    let head := (source.head + offset) % source.getSize
    let readCount := sizeMin (continguiousCountOf head source.tail source.getSize) count
    if readCount = 0 then pure ()
    else
      let bytes ← source.data.load head readCount
      write bytes noOffset
      if count - readCount = 0 then pure ()
      else writeFromFuel fuel source (offset + readCount) (count - readCount)

def writeFrom (source : Circle) (offset count : UInt64) : EStateM Fault Circle Unit :=
  writeFromFuel (count.toNat + 1) source offset count

instance : Buffer Circle where
  getCount := getCount
  read := read
  write := write
  writeFrom := writeFrom
  remove := remove
  removeFromBack := removeFromBack
  reset := reset

instance : SendBuffer Circle where
  getContinguiousCount := getContinguiousCount
  peekStart := peekStart

end Circle

/-- `buffer<>` as default-constructed: 1024 bytes, growing below 409600. -/
def freshBuffer : Circle := Circle.new 409600 1024

end SimpleNetwork
