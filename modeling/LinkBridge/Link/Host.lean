import LinkBridge.Word

/-!
# LinkBridge.Link.Host

The USB FIFO chip with the host software behind it: one bounded queue in each direction. The device
reads words when there are some (`hasWord`) and writes words when there is room (`hasRoom`); host
software fills the one queue and drains the other, whole words or bytes at a time, and may stop
draining for a while.
-/

namespace LinkBridge.Link

/-- The chip and its two queues. -/
structure Host where
  /-- Words each queue holds at most. -/
  capacity : Nat
  /-- Words on their way to the device, oldest first. -/
  toDevice : List Word := []
  /-- Words the device has sent, oldest first. -/
  fromDevice : Array Word := #[]
  /-- Whether the host has stopped draining. -/
  paused : Bool := false
  deriving DecidableEq, Inhabited

namespace Host

/-- A chip with empty queues that hold at least one word each. -/
def empty (capacity : Nat) : Host :=
  { capacity := max capacity 1 }

/-! ## Device side -/

/-- Whether the device can read a word. -/
def hasWord (h : Host) : Bool :=
  !h.toDevice.isEmpty

/-- Whether the device can write a word. -/
def hasRoom (h : Host) : Bool :=
  !h.paused && decide (h.fromDevice.size < h.capacity)

/-- The next word the device reads. -/
def nextWord (h : Host) : Option Word :=
  h.toDevice.head?

/-- Removes the word the device read. -/
def takeWord (h : Host) : Host :=
  { h with toDevice := h.toDevice.tail }

/-- Stores a word the device writes, if there is room. -/
def putWord (h : Host) (w : Word) : Host :=
  if h.hasRoom then { h with fromDevice := h.fromDevice.push w } else h

/-! ## Host side -/

/-- How many further words the queue to the device takes. -/
def free (h : Host) : Nat :=
  h.capacity - h.toDevice.length

/-- How many of `n` further words the queue to the device takes. -/
def accepted (h : Host) (n : Nat) : Nat :=
  min n h.free

/-- Queues words for the device as far as there is room. -/
def writeWords (h : Host) (words : List Word) : Host :=
  { h with toDevice := h.toDevice ++ words.take h.free }

/-- The words the device has sent. -/
def sentWords (h : Host) : List Word :=
  h.fromDevice.toList

/-- Removes the words the device has sent. -/
def drain (h : Host) : Host :=
  { h with fromDevice := #[] }

/-- Stops or resumes draining. -/
def pause (h : Host) (paused : Bool) : Host :=
  { h with paused }

theorem length_toDevice_writeWords (h : Host) (words : List Word) :
    (h.writeWords words).toDevice.length = h.toDevice.length + h.accepted words.length := by
  simp [writeWords, accepted, Nat.min_comm]

end Host

end LinkBridge.Link
