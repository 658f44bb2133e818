import MeterRadio.Frame.Access
import MeterRadio.Log

/-!
# A ring of frames

Frames wait in a ring of bytes between the side that captures them and the side that decodes them.
Each one is stored as its length (two bytes, least significant first) and its bytes, and never runs
over the physical end of the storage. Where a frame does not fit before the end, a length of zero is
left there as a *sentinel*, if there is room for one, and the frame goes to the start:

```text
 tail                   head
  |                      |
  [len][frame][len][frame]           [0 0]
```

The writer moves `head`, the reader moves `tail`, and `head = tail` means that the ring is empty.
So that a full ring is not taken for an empty one, `head` never moves onto `tail`.

Lengths have 16 bits and the smallest frame needs three bytes, so storage must have 3 to 65535
bytes. Over any other storage the ring is *uninitialized*: it has no room and never holds a frame.

`Placement` and `Front` say where a frame goes and where the oldest one lies; `push`, `peek` and
`pop` act on them. Storage is read and written by `read` and `write` alone, which keep a record of
every access: `pushTraced`, `peekTraced` and `popTraced` are the operations with that record.
-/

namespace MeterRadio

/-- Why a frame is not taken. -/
inductive PushError
  /-- The ring has no storage. -/
  | uninitialized
  /-- A frame must have at least one byte: a length of zero is the sentinel. -/
  | emptyFrame
  /-- There is not enough room in one piece. -/
  | full (requested free : Nat)
  deriving DecidableEq, Repr

def PushError.message : PushError → String
  | uninitialized => "ring is not initialized"
  | emptyFrame => "cannot push an empty frame"
  | full requested free => s!"ring full: {requested} bytes requested, {free} free"

/-- A ring of frames. -/
structure FrameRing where
  /-- The bytes of the ring; none if it is uninitialized. -/
  storage : Array UInt8
  /-- Where the next frame is written. -/
  head : Nat
  /-- Where the oldest frame is read. -/
  tail : Nat
  /-- Frames refused for want of room since this was last asked. -/
  overflow : UInt32

namespace FrameRing

/-- Bytes of a stored length. -/
def prefixSize : Nat := 2

/-- Largest storage whose frame lengths fit into 16 bits. -/
def maxStorage : Nat := 65535

/-- Whether a ring can be built over this many bytes. -/
def Usable (size : Nat) : Prop :=
  prefixSize < size ∧ size ≤ maxStorage

instance (size : Nat) : Decidable (Usable size) :=
  inferInstanceAs (Decidable (_ ∧ _))

/-- An empty ring with `size` bytes of storage, uninitialized if that is not usable. -/
def ofCapacity (size : Nat) : FrameRing where
  storage := if Usable size then Array.replicate size 0 else #[]
  head := 0
  tail := 0
  overflow := 0

/-- An empty ring that takes over storage; what the storage held is erased. -/
def ofStorage (storage : Bytes) : FrameRing :=
  ofCapacity storage.length

/-- The warning that goes with building a ring over unusable storage. -/
def warning? (size : Nat) : Option LogLine :=
  if Usable size then none
  else some
    { level := .warn
      text := s!"Ring storage of {size} bytes is outside {prefixSize + 1}..={maxStorage}; ring left uninitialized" }

def capacity (r : FrameRing) : Nat :=
  r.storage.size

def isInitialized (r : FrameRing) : Bool :=
  0 < r.capacity

def isEmpty (r : FrameRing) : Bool :=
  r.head == r.tail

/-! ### Storage access -/

/-- The storage with the bytes from `pos` on overwritten by `d`. -/
def overwrite (storage : Array UInt8) (pos : Nat) : Bytes → Array UInt8
  | [] => storage
  | b :: d => overwrite (storage.setIfInBounds pos b) (pos + 1) d

/-- Overwrites the bytes from `pos` on with `d`. -/
def write (storage : Array UInt8) (pos : Nat) (d : Bytes) : Traced (Array UInt8) where
  value := overwrite storage pos d
  accesses := [.write pos d]

/-- The `len` bytes from `pos` on. -/
def bytesAt (storage : Array UInt8) (pos len : Nat) : Bytes :=
  (storage.extract pos (pos + len)).toList

/-- Reads the `len` bytes from `pos` on. -/
def read (r : FrameRing) (pos len : Nat) : Traced Bytes where
  value := bytesAt r.storage pos len
  accesses := [.read pos len]

/-- Reads the length stored at `pos`. -/
def readLength (r : FrameRing) (pos : Nat) : Traced Nat := do
  return leNat (← r.read pos prefixSize)

/-! ### Writing -/

/-- The end of the bytes that `head` may reach: it may wrap to the start only if `tail` is not
there. -/
def limit (r : FrameRing) : Nat :=
  if r.tail = 0 then r.capacity - 1 else r.capacity

/-- Largest frame that can be pushed now: the room in one piece less the stored length and, where
`head` would come up behind `tail`, less the byte that keeps them apart. -/
def freeSpace (r : FrameRing) : Nat :=
  if r.capacity = 0 then 0
  else if r.tail ≤ r.head then
    max (r.limit - (r.head + prefixSize)) (r.tail - (prefixSize + 1))
  else
    (r.tail - r.head) - (prefixSize + 1)

/-- Where a frame is going to be stored. -/
structure Placement where
  /-- Where a sentinel is left, if one is needed and there is room for it. -/
  sentinel : Option Nat
  /-- Where the length and the frame go. -/
  start : Nat
  deriving DecidableEq, Repr

/-- The place for a frame of `len` bytes, for which there must be room: at `head` if it fits there,
else at the start of the storage. -/
def place (r : FrameRing) (len : Nat) : Placement :=
  if r.head < r.tail ∨ r.head + prefixSize + len ≤ r.limit then
    { sentinel := none, start := r.head }
  else
    { sentinel := if r.head + prefixSize ≤ r.capacity then some r.head else none, start := 0 }

/-- The position after `pos`, which is the start of the storage when `pos` is its end. -/
def wrap (r : FrameRing) (pos : Nat) : Nat :=
  if pos = r.capacity then 0 else pos

/-- Leaves a sentinel, if there is a place for one. -/
def leaveSentinel (storage : Array UInt8) : (place : Option Nat) → Traced (Array UInt8)
  | some pos => write storage pos (leBytes prefixSize 0)
  | none => pure storage

/-- Stores a frame at its place. -/
def store (r : FrameRing) (p : Placement) (frame : Bytes) : Traced FrameRing := do
  let head := r.wrap (p.start + prefixSize + frame.length)
  let { storage, tail, overflow, .. } := r
  let storage ← leaveSentinel storage p.sentinel
  let storage ← write storage p.start (leBytes prefixSize frame.length)
  let storage ← write storage (p.start + prefixSize) frame
  return { storage, head, tail, overflow }

def countOverflow (r : FrameRing) : FrameRing :=
  { r with overflow := r.overflow + 1 }

/-- Appends a frame. A frame for which there is no room is counted and dropped. -/
def pushTraced (r : FrameRing) (frame : Bytes) : Traced (Except PushError Unit × FrameRing) := do
  if r.capacity = 0 then return (.error .uninitialized, r)
  else if frame = [] then return (.error .emptyFrame, r)
  else
    let free := r.freeSpace
    if free < frame.length then return (.error (.full frame.length free), r.countOverflow)
    else return (.ok (), ← r.store (r.place frame.length) frame)

def push (r : FrameRing) (frame : Bytes) : Except PushError Unit × FrameRing :=
  (r.pushTraced frame).value

/-! ### Reading -/

/-- What is found where the oldest frame is looked for. -/
inductive Front
  /-- No frame is waiting. -/
  | empty
  /-- The oldest frame has `len` bytes from `start` on. -/
  | frame (start len : Nat)
  /-- The stored lengths do not lead to a frame. -/
  | broken
  deriving DecidableEq, Repr

/-- Reads the length stored at `tail`. Where there is no room for a frame before the end of the storage
nothing is stored, which counts as a sentinel. -/
def lengthAtTail (r : FrameRing) : Traced Nat :=
  if r.capacity ≤ r.tail + prefixSize then pure 0 else r.readLength r.tail

/-- The frame whose length is stored at `tail`. -/
def frontAt (r : FrameRing) (len : Nat) : Front :=
  let start := r.tail + prefixSize
  if len = 0 ∨ r.capacity < start + len then .broken else .frame start len

/-- Looks for the oldest frame. Where `tail` has come to a sentinel, or so near to the end that
there is no room for a frame, the frame is at the start of the storage, and `tail` moves there. -/
def front (r : FrameRing) : Traced (Front × FrameRing) := do
  if r.capacity = 0 then return (.empty, r)
  else if r.tail = r.head then return (.empty, r)
  else
    let len ← r.lengthAtTail
    if len = 0 then
      let r := { r with tail := 0 }
      if r.tail = r.head then return (.broken, r)
      else return (r.frontAt (← r.readLength 0), r)
    else return (r.frontAt len, r)

/-- Looks at the oldest frame, which stays in the ring. -/
def peekTraced (r : FrameRing) : Traced (Option Bytes × FrameRing) := do
  match ← r.front with
  | (.frame start len, r) => return (some (← r.read start len), r)
  | (_, r) => return (none, r)

/-- The oldest frame, which stays in the ring. -/
def peek (r : FrameRing) : Option Bytes × FrameRing :=
  r.peekTraced.value

/-- What removing a frame leaves with the caller. -/
structure Popped where
  /-- Bytes copied, or the length of the frame when there was nowhere to copy it; 0 if there was no
  frame. -/
  count : Nat
  /-- The caller's buffer. -/
  out : Option Bytes
  deriving DecidableEq, Repr

/-- Copies bytes to the start of a buffer and leaves the rest of it alone. -/
def copyInto (out d : Bytes) : Bytes :=
  d ++ out.drop d.length

/-- Copies as much of the frame at `start` as there is room for, if a non-empty buffer is given. -/
def copyOut (r : FrameRing) (start len : Nat) (out : Option Bytes) : Traced Popped :=
  match out with
  | none => pure ⟨len, none⟩
  | some [] => pure ⟨len, some []⟩
  | some buf => do
    let n := min buf.length len
    return ⟨n, some (copyInto buf (← r.read start n))⟩

/-- Removes the oldest frame, copying what fits into a buffer if a non-empty one is given. -/
def popTraced (r : FrameRing) (out : Option Bytes) : Traced (Popped × FrameRing) := do
  match ← r.front with
  | (.frame start len, r) =>
    return (← r.copyOut start len out, { r with tail := r.wrap (start + len) })
  | (_, r) => return (⟨0, out⟩, r)

def pop (r : FrameRing) (out : Option Bytes) : Popped × FrameRing :=
  (r.popTraced out).value

/-- Takes out frames until none is waiting, at most `rounds` of them. -/
def takeFrames (r : FrameRing) : (rounds : Nat) → List Bytes × FrameRing
  | 0 => ([], r)
  | rounds + 1 =>
    match r.peek with
    | (none, r) => ([], r)
    | (some frame, r) =>
      let (_, r) := r.pop none
      let (frames, r) := r.takeFrames rounds
      (frame :: frames, r)

/-- Takes out all frames, the oldest first. Every frame uses more than one byte, so there are fewer
of them than the ring has bytes. -/
def drain (r : FrameRing) : List Bytes × FrameRing :=
  r.takeFrames r.capacity

/-- The number of frames refused since the last call. -/
def takeOverflow (r : FrameRing) : UInt32 × FrameRing :=
  (r.overflow, { r with overflow := 0 })

end FrameRing

end MeterRadio
