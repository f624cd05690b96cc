import SimpleNetwork.Buffer.Circle

/-! `packet::reader` and `packet::writer`: length-prefixed packets addressed by
32-bit offsets from the front of a buffer. -/
namespace SimpleNetwork
open Words

/-- `packet::reader`. Offsets count from the front of the buffer. -/
structure Reader where
  head : UInt32
  tail : UInt32
  length : UInt32
  deriving DecidableEq, Repr

/-- `packet::writer`. The link to an enclosing writer is passed where it is used. -/
structure Writer where
  head : UInt32
  length : UInt32
  deriving DecidableEq, Repr

abbrev placeholder : UInt32 := -1

section
variable {β : Type} [Buffer β]

namespace Reader

/-- `reader(buffer&)`. -/
def new : EStateM Fault β Reader := do
  let bytes ← Buffer.read 4 0
  pure ⟨0, 4, ofLe32 bytes⟩

/-- `reader(reader&)`: the child, and the parent moved past it. -/
def child (r : Reader) : EStateM Fault β (Reader × Reader) := do
  let bytes ← Buffer.read 4 r.tail.toUInt64
  let length := ofLe32 bytes
  pure (⟨r.tail, r.tail + 4, length⟩, { r with tail := r.tail + length + 4 })

def get (r : Reader) (size : UInt64) : EStateM Fault β (List UInt8 × Reader) := do
  let old ← MonadState.get
  let bytes ← Buffer.read size r.tail.toUInt64
  let now ← MonadState.get
  let moved := Buffer.getCount now - Buffer.getCount old
  pure (bytes, { r with tail := (r.tail.toUInt64 + moved).toUInt32 })

def getAll (r : Reader) : List UInt64 → EStateM Fault β (List (List UInt8) × Reader)
  | [] => pure ([], r)
  | size :: sizes => do
    let (value, r) ← r.get size
    let (values, r) ← r.getAll sizes
    pure (value :: values, r)

end Reader

namespace Writer

/-- `writer(buffer&)`. -/
def new : EStateM Fault β Writer := do
  let b ← get
  Buffer.write (le32 placeholder) noOffset
  pure ⟨(Buffer.getCount b).toUInt32, 0⟩

/-- `writer(writer&)`: a child behind the parent's counted bytes. -/
def child (parent : Writer) : EStateM Fault β Writer := do
  Buffer.write (le32 placeholder) noOffset
  pure ⟨parent.head + parent.length + 4, 0⟩

def put (w : Writer) (value : List UInt8) : EStateM Fault β Writer := do
  let old ← get
  Buffer.write value noOffset
  let now ← get
  let added := Buffer.getCount now - Buffer.getCount old
  pure { w with length := (w.length.toUInt64 + added).toUInt32 }

def putAll (w : Writer) : List (List UInt8) → EStateM Fault β Writer
  | [] => pure w
  | value :: values => do
    let w ← w.put value
    w.putAll values

/-- `operator<<(const reader&)`: the unread rest of a packet in another buffer. -/
def forward (w : Writer) (source : β) (r : Reader) : EStateM Fault β Writer := do
  let length : UInt64 := r.length.toUInt64 + 4 - r.tail.toUInt64
  Buffer.writeFrom source r.tail.toUInt64 length
  pure { w with length := (w.length.toUInt64 + length).toUInt32 }

/-- `flush()`: store the length in the header, and count the packet in the
enclosing writer if there is one. -/
def flush (w : Writer) (parent : Option Writer) : EStateM Fault β (Option Writer) := do
  Buffer.write (le32 w.length) w.head.toUInt64
  pure (parent.map fun p => { p with length := p.length + w.length + 4 })

/-- `~writer()`: take back an unflushed packet. -/
def destroy (w : Writer) : EStateM Fault β Unit := do
  let b ← get
  if Buffer.getCount b > w.head.toUInt64 then
    let bytes ← Buffer.read 4 w.head.toUInt64
    if ofLe32 bytes = placeholder then Buffer.removeFromBack (4 + w.length.toUInt64)
    else pure ()
  else pure ()

end Writer
end
end SimpleNetwork
