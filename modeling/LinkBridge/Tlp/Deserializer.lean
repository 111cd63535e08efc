import LinkBridge.Framing.Packet
import LinkBridge.Stream.Handshake
import LinkBridge.Tlp.Beat

/-!
# LinkBridge.Tlp.Deserializer

The component that pairs the 32-bit words of a packet into 64-bit TLP beats. A packet with an odd
number of words ends in a beat whose high dword is not enabled.
-/

namespace LinkBridge.Tlp

/-- The deserializer. -/
structure Deserializer where
  /-- The low dword that waits for its partner. -/
  low : Option Word := none
  deriving DecidableEq, Inhabited

namespace Deserializer

/-- The beat that `word` completes, if it completes one. -/
def beat? (d : Deserializer) (word : PacketBeat) : Option Beat :=
  match d.low with
  | some low => some (.pair low word.data word.last)
  | none => if word.last then some (.lone word.data) else none

/-- One tick. A word that completes no beat is taken whether or not there is room for one. -/
def tick (d : Deserializer) (input : Option PacketBeat) (ready : Bool) :
    Transfer Deserializer Beat :=
  match input with
  | none => { next := d }
  | some word =>
    match d.beat? word with
    | none => { next := ⟨some word.data⟩, taken := true }
    | some beat =>
      if ready then
        { next := {}, taken := true, sent := some beat,
          counted := { tlpBeatsOut := 1, tlpPacketsReceived := beat.last.toNat } }
      else { next := d }

/-- Forgets a waiting dword. -/
def reset (_ : Deserializer) : Deserializer :=
  {}

/-- Whether no dword waits. -/
def isIdle (d : Deserializer) : Bool :=
  d.low.isNone

end Deserializer

end LinkBridge.Tlp
