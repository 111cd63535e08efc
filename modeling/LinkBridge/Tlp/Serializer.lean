import LinkBridge.Framing.Packet
import LinkBridge.Stream.Handshake
import LinkBridge.Tlp.Beat

/-!
# LinkBridge.Tlp.Serializer

The component that turns TLPs, 64-bit beats, into tagged packets of 32-bit words. A whole TLP is
stored before the first word of it is sent, because the length travels with every word. Each beat
yields its low dword and, if it carries one, its high dword.

Lengths are words, and words wrap around: a TLP of `2 ^ 32` dwords or more is sent as a packet of
what is left of its length, and the rest of its beats stay in the buffer.

A TLP that fills the buffer without ending is too long: what is stored of it is thrown away and the
rest of it is skipped.
-/

namespace LinkBridge.Tlp

/-- What the serializer is sending. -/
inductive Serializer.Phase where
  | idle
  /-- In a packet of `length` words of which `sent` are gone; `high` says that the low dword of the
  oldest beat is gone too. -/
  | sending (length sent : Word) (high : Bool)
  deriving DecidableEq, Inhabited

/-- The serializer. -/
structure Serializer where
  /-- Destination tag of the packets it sends. -/
  tag : UInt8
  /-- Beats the buffer holds at most. -/
  depth : Nat
  /-- Stored beats, oldest first. -/
  buffer : List Beat := []
  /-- Whole TLPs in the buffer. -/
  complete : Nat := 0
  /-- Whether the rest of a TLP that is too long is being skipped. -/
  skipping : Bool := false
  phase : Serializer.Phase := .idle
  deriving DecidableEq, Inhabited

namespace Serializer

/-- An empty serializer; its buffer holds at least one beat. -/
def empty (tag : UInt8) (depth : Nat) : Serializer :=
  { tag, depth := max depth 1 }

/-- Number of stored beats. -/
def level (s : Serializer) : Nat :=
  s.buffer.length

/-- The number of words in the TLP at the front of a buffer, as far as a word can hold it. -/
def headLength : List Beat → Word
  | [] => 0
  | b :: rest => UInt32.ofNat b.dwords.length + if b.last then 0 else headLength rest

/-! ## Sending -/

/-- Starts on the next TLP as soon as one is complete. -/
def start (s : Serializer) : Serializer :=
  match s.phase with
  | .sending .. => s
  | .idle =>
    if s.complete = 0 then s
    else { s with phase := .sending (max (headLength s.buffer) 1) 0 false }

/-- Sends one word. -/
def send (s : Serializer) (ready : Bool) : Transfer Serializer PacketBeat :=
  let s := s.start
  match s.phase, s.buffer with
  | .sending length sent high, beat :: rest =>
    if ready then
      let beatDone := high || !beat.hasHigh
      let last := sent + 1 == length
      let word : PacketBeat :=
        { dst := s.tag, length, data := if high then beat.high else beat.low, last }
      let s := if beatDone then { s with buffer := rest } else s
      if last then
        { next := { s with complete := s.complete - 1, phase := .idle }, sent := some word,
          counted := { tlpPacketsSent := 1 } }
      else { next := { s with phase := .sending length (sent + 1) (!beatDone) }, sent := some word }
    else { next := s }
  | _, _ => { next := s }

/-! ## Storing -/

/-- Whether the buffer is filled by one TLP that has not ended. -/
def overflowing (s : Serializer) : Bool :=
  decide (s.phase = .idle) && s.complete == 0 && decide (s.depth ≤ s.level)

/-- Stores one beat, or skips it. -/
def store (s : Serializer) (input : Option Beat) : Transfer Serializer PacketBeat :=
  if s.skipping then
    match input with
    | some beat => { next := { s with skipping := !beat.last }, taken := true }
    | none => { next := s }
  else if s.overflowing then
    { next := { s with buffer := [], skipping := true }, counted := { tlpOverflows := 1 } }
  else
    match input with
    | some beat =>
      if s.level < s.depth then
        { next := { s with
            buffer := s.buffer ++ [beat]
            complete := s.complete + beat.last.toNat }
          taken := true, counted := { tlpBeatsIn := 1 } }
      else { next := s }
    | none => { next := s }

/-! ## Both -/

/-- One tick. -/
def tick (s : Serializer) (input : Option Beat) (ready : Bool) : Transfer Serializer PacketBeat :=
  let sending := s.send ready
  let storing := sending.next.store input
  { next := storing.next, taken := storing.taken, sent := sending.sent,
    counted := sending.counted + storing.counted }

/-- Forgets every stored beat. -/
def reset (s : Serializer) : Serializer :=
  { tag := s.tag, depth := s.depth }

/-- Whether nothing is stored, sent or skipped. -/
def isIdle (s : Serializer) : Bool :=
  decide (s.phase = .idle) && s.buffer.isEmpty && !s.skipping

end Serializer

end LinkBridge.Tlp
