import LinkBridge.Stream.Handshake
import LinkBridge.Word

/-!
# LinkBridge.Wishbone.Msi

The interrupt controller: three registers through which a register access raises a
message-signalled interrupt.

- `SEND` at offset 0: writing a value with bit 0 set starts a send, if none is under way;
- `DONE` at offset 4: reads 1 while no send is under way;
- `DATA` at offset 8: the vector to send, eight bits.

A started send offers the vector on every tick until it is accepted.
-/

namespace LinkBridge.Wishbone

/-- The interrupt controller. -/
structure Msi where
  /-- Byte address of the first register. -/
  base : Nat
  /-- Whether a send is under way. -/
  sending : Bool := false
  /-- The vector register. -/
  vector : UInt8 := 0
  deriving DecidableEq, Inhabited

namespace Msi

/-- Offset of the register that starts a send. -/
def sendOffset : Nat := 0

/-- Offset of the register that tells whether a send is under way. -/
def doneOffset : Nat := 4

/-- Offset of the vector register. -/
def dataOffset : Nat := 8

/-- Size of the register range in bytes. -/
def size : Nat := 12

/-- The register an offset falls into. -/
def register (offset : Nat) : Nat :=
  offset / 4 * 4

/-- Reads the register at an offset. -/
def read (m : Msi) (offset : Nat) : Word :=
  if register offset = doneOffset then (if m.sending then 0 else 1)
  else if register offset = dataOffset then m.vector.toUInt32
  else 0

/-- Writes the register at an offset. -/
def write (m : Msi) (offset : Nat) (w : Word) : Msi :=
  if register offset = sendOffset then { m with sending := m.sending || w.toNat % 2 == 1 }
  else if register offset = dataOffset then { m with vector := w.toUInt8 }
  else m

/-- Writes consecutive registers, one after the other. -/
def writeBlock (m : Msi) (offset : Nat) : List Word → Msi
  | [] => m
  | w :: rest => (m.write offset w).writeBlock (offset + 4) rest

/-- Offers the vector of a send under way. -/
def offer (m : Msi) (ready : Bool) : Transfer Msi UInt8 :=
  if m.sending && ready then
    { next := { m with sending := false }, sent := some m.vector, counted := { msiSent := 1 } }
  else { next := m }

/-- Gives up a send under way; the vector register is kept. -/
def reset (m : Msi) : Msi :=
  { m with sending := false }

end Msi

end LinkBridge.Wishbone
