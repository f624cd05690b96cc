import SimpleNetwork.Buffer.QueueOps

/-! `bip`: two runs of bytes in one array. Region B is opened at the start of the
array once there is more room before region A than behind it, and takes A's
place when A is used up. -/
namespace SimpleNetwork
open Words

/-- `bip`, with pointers as offsets from `data_.start`. -/
structure Bip where
  data : Data
  regionAStart : UInt64
  regionACount : UInt64
  regionBStart : Option UInt64
  regionBCount : UInt64
  deriving DecidableEq, Repr

namespace Bip

def sizeMax (a b : UInt64) : UInt64 := if a < b then b else a

def reset (b : Bip) : Bip :=
  { b with regionAStart := 0, regionACount := 0, regionBStart := none, regionBCount := 0 }

def new (maxSize defaultSize : UInt64) : Except Fault Bip :=
  if defaultSize.toNat < 2 ^ 62 then .ok ⟨Data.new maxSize defaultSize, 0, 0, none, 0⟩ else .error .badAlloc

def getCount (b : Bip) : UInt64 := b.regionACount + b.regionBCount

def getContinguiousCount (b : Bip) : UInt64 := if b.regionACount ≠ 0 then b.regionACount else b.regionBCount

def getASpace (b : Bip) : UInt64 := b.data.getSize - b.regionAStart - b.regionACount

def getBSpace (b : Bip) : UInt64 :=
  match b.regionBStart with
  | none => 0
  | some start => b.regionAStart - start - b.regionBCount

def getSpaceBeforeA (b : Bip) : UInt64 := b.regionAStart

def getStart (b : Bip) : Option UInt64 := if b.regionACount ≠ 0 then some b.regionAStart else b.regionBStart

def getEnd (b : Bip) : UInt64 :=
  match b.regionBStart with
  | some start => start + b.regionBCount
  | none => b.regionAStart + b.regionACount

def loadAt {σ : Type} (b : Bip) (start : Option UInt64) (count : UInt64) : EStateM Fault σ (List UInt8) :=
  match start with
  | some start => b.data.load start count
  | none => if count = 0 then pure [] else throw .outOfBounds

def copyIf {σ : Type} (p : Prop) [Decidable p] (copy : EStateM Fault σ (List UInt8)) :
    EStateM Fault σ (List UInt8) :=
  if p then copy else pure []

def expand : EStateM Fault Bip Unit := do
  let b ← get
  if b.data.getSize = b.data.maxSize then throw (.thrown .writeNoSpace)
  else
    let data ← Data.alloc b.data.maxSize b.data.nextSize
    let front ← copyIf (b.regionACount > 0) (b.data.load b.regionAStart b.regionACount)
    let data ← data.store 0 front
    let count := if b.regionACount > 0 then b.getCount - b.regionACount else b.getCount
    let back ← copyIf (count > 0) (b.loadAt b.regionBStart b.regionBCount)
    let data ← data.store b.regionACount back
    set (Bip.mk data 0 b.getCount none 0)

/-- `get_space()`, with a bound on its recursion. -/
def getSpaceFuel : Nat → EStateM Fault Bip UInt64
  | 0 => throw .diverged
  | fuel + 1 => do
    let b ← get
    let space := b.data.getSize - b.getCount
    if space ≠ 0 then pure space
    else
      expand
      getSpaceFuel fuel

def getSpace : EStateM Fault Bip UInt64 := getSpaceFuel 64

/-- The space query opens region B when it has more room than there is behind region A. -/
def openB (b : Bip) : Bip :=
  if b.regionBCount = 0 ∧ b.getASpace < b.getSpaceBeforeA then { b with regionBStart := some 0 } else b

/-- The space of a B just opened is computed in the source and then overwritten by that of A. -/
def continguiousSpace (b : Bip) : UInt64 := if b.regionBCount ≠ 0 then b.getBSpace else b.getASpace

/-- `get_continguious_space()`, with a bound on its recursion. -/
def getContinguiousSpaceFuel : Nat → EStateM Fault Bip UInt64
  | 0 => throw .diverged
  | fuel + 1 => do
    modify openB
    let b ← get
    if b.continguiousSpace ≠ 0 then pure b.continguiousSpace
    else
      expand
      getContinguiousSpaceFuel fuel

def getContinguiousSpace : EStateM Fault Bip UInt64 := getContinguiousSpaceFuel 64

def pokeEnd (bytes : List UInt8) : EStateM Fault Bip Unit := do
  let b ← get
  let data ← b.data.store b.getEnd bytes
  set { b with data := data }

def written (count : UInt64) : EStateM Fault Bip Unit :=
  modify fun b =>
    if b.regionBStart.isSome then { b with regionBCount := b.regionBCount + count }
    else { b with regionACount := b.regionACount + count }

def advance (count : UInt64) : EStateM Fault Bip Unit := do
  let b ← get
  let fromA := if b.regionACount > 0 then sizeMin b.regionACount count else 0
  let rest := count - fromA
  let b := { b with regionAStart := b.regionAStart + fromA, regionACount := b.regionACount - fromA }
  let b := if rest > 0 then
    { b with regionBStart := b.regionBStart.map (· + rest), regionBCount := b.regionBCount - rest } else b
  if b.regionACount = 0 then
    if b.regionBCount = 0 then set { b with regionAStart := 0, regionBStart := none }
    else
      match b.regionBStart with
      | some start =>
        set { b with regionAStart := start, regionACount := b.regionBCount, regionBStart := none, regionBCount := 0 }
      | none => throw .outOfBounds
  else set b

def remove (count : UInt64) : EStateM Fault Bip Unit := do
  let b ← get
  if b.getCount < count then throw (.thrown .removeNoSpace) else advance count

/-- Unlike `remove()` this returns when there is too little to remove. -/
def removeFromBack (count : UInt64) : EStateM Fault Bip Unit := do
  let b ← get
  if b.getCount < count then pure ()
  else
    let fromB := if b.regionBCount > 0 then sizeMin b.regionBCount count else 0
    let rest := count - fromB
    let b := { b with regionBCount := b.regionBCount - fromB }
    let b := if rest > 0 then { b with regionACount := b.regionACount - sizeMin b.regionACount rest } else b
    if b.regionBCount = 0 then
      if b.regionACount = 0 then set { b with regionAStart := 0, regionBStart := none }
      else set { b with regionBStart := none }
    else set b

/-- The two copies of `read()`. A read that starts behind region A takes the front of region B. -/
def copyOut (b : Bip) (count offset : UInt64) : EStateM Fault Bip (List UInt8) := do
  let inA := b.regionACount > 0 ∧ ¬ b.regionACount < offset
  let fromA := if inA then sizeMin (b.regionACount - offset) count else 0
  let front ← copyIf inA (b.data.load (b.regionAStart + offset) fromA)
  let back ← copyIf (count - fromA > 0) (b.loadAt b.regionBStart (count - fromA))
  pure (front ++ back)

def read (count offset : UInt64) : EStateM Fault Bip (List UInt8) := do
  let peek := offset ≠ noOffset
  let offset := if offset = noOffset then 0 else offset
  let b ← get
  if b.getCount < offset + count then throw (.thrown .readInvalidOffset)
  else
    let bytes ← b.copyOut count offset
    if peek then pure bytes
    else
      advance count
      pure bytes

def writeRest (data : List UInt8) (offset remain : UInt64) : EStateM Fault Bip Unit := do
  let b ← get
  let count := UInt64.ofNat data.length
  match b.regionBStart with
  | some start =>
    let regionBCount := sizeMax b.regionBCount (offset - b.regionACount + remain)
    if b.getBSpace < regionBCount - b.regionBCount then throw (.thrown .writeNoSpace)
    else
      let place := if remain ≠ count then start else start + (offset - b.regionACount)
      let bytes := if remain ≠ count then data.drop (count - remain).toNat else data
      let stored ← b.data.store place bytes
      set { b with data := stored, regionBCount := regionBCount }
  | none =>
    if b.getASpace > b.getSpaceBeforeA then
      if b.getASpace < remain then throw (.thrown .writeNoSpace)
      else
        let stored ← b.data.store (b.regionAStart + b.regionACount) (data.drop (count - remain).toNat)
        set { b with data := stored, regionACount := b.regionACount + remain }
    else if b.getSpaceBeforeA < remain then throw (.thrown .writeNoSpace)
    else
      let stored ← b.data.store 0 (data.take remain.toNat)
      set { b with data := stored, regionBStart := some 0, regionBCount := b.regionBCount + remain }

def writeA (data : List UInt8) (offset : UInt64) : EStateM Fault Bip UInt64 := do
  let b ← get
  if b.regionACount > offset then
    let inA := sizeMin (b.regionACount - offset) (UInt64.ofNat data.length)
    let stored ← b.data.store (b.regionAStart + offset) (data.take inA.toNat)
    set { b with data := stored }
    pure inA
  else pure 0

def writeRound (data : List UInt8) (offset : UInt64) : EStateM Fault Bip Bool := do
  let inA ← writeA data offset
  let remain := UInt64.ofNat data.length - inA
  if remain > 0 then catchAll (do writeRest data offset remain; pure false) (do expand; pure true)
  else pure false

/-- The loop of `write()`, with a bound on its rounds: a round that goes on has
made the array four times as long or as long as it may get. -/
def writeFuel : Nat → (data : List UInt8) → (offset : UInt64) → EStateM Fault Bip Unit
  | 0, _, _ => throw .diverged
  | fuel + 1, data, offset => do
    let retry ← writeRound data offset
    if retry then writeFuel fuel data offset else pure ()

def write (data : List UInt8) (offset : UInt64) : EStateM Fault Bip Unit := do
  let b ← get
  if offset = noOffset then writeFuel 64 data b.getCount
  else if b.getCount < offset + UInt64.ofNat data.length then throw (.thrown .writeInvalidOffset)
  else writeFuel 64 data offset

def writeFrom (source : Bip) (offset count : UInt64) : EStateM Fault Bip Unit :=
  let append (data : List UInt8) := write data noOffset
  if source.getCount < offset + count then throw (.thrown .readNoEnoughSpace)
  else if source.regionACount > 0 ∧ ¬ source.regionACount < offset then do
    let fromA := sizeMin (source.regionACount - offset) count
    source.data.appendAt append (some (source.regionAStart + offset)) fromA
    if count - fromA > 0 then source.data.appendAt append source.regionBStart (count - fromA) else pure ()
  else
    let offset := if source.regionACount > 0 then offset - source.regionACount else offset
    if count > 0 then source.data.appendAt append (source.regionBStart.map (· + offset)) count else pure ()

def perform : BufferOp → EStateM Fault Bip (List UInt8)
  | .append data => do
    write data noOffset
    pure []
  | .patch data offset => do
    write data offset
    pure []
  | .read count => read count noOffset
  | .peek count offset => read count offset
  | .remove count => do
    remove count
    pure []
  | .removeFromBack count => do
    removeFromBack count
    pure []
  | .fill bytes => do
    let _ ← getContinguiousSpace
    pokeEnd bytes
    written (UInt64.ofNat bytes.length)
    pure []
  | .take count => do
    let b ← get
    let bytes ← b.loadAt b.getStart count
    remove count
    pure bytes
  | .reset => do
    modify reset
    pure []

end Bip
end SimpleNetwork
