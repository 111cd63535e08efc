import LinkBridge.Wishbone.Msi
import LinkBridge.Wishbone.Sram

/-!
# LinkBridge.Wishbone.Device

The devices a Wishbone bus can reach, each behind one range of byte addresses.
-/

namespace LinkBridge.Wishbone

/-- A device on the bus. -/
inductive Device where
  | sram (s : Sram)
  | msi (m : Msi)
  deriving Inhabited

namespace Device

/-- The name of a kind of device. -/
def name : Device → String
  | sram _ => "SRAM"
  | msi _ => "MSI"

/-- First byte address of the device. -/
def base : Device → Nat
  | sram s => s.base
  | msi m => m.base

/-- Bytes of address space the device covers. -/
def size : Device → Nat
  | sram s => s.size
  | msi _ => Msi.size

/-- Whether an address falls into the range of the device. -/
def covers (d : Device) (address : Nat) : Bool :=
  decide (d.base ≤ address) && decide (address < d.base + d.size)

/-- Reads the word at a byte offset. -/
def read : Device → Nat → Word
  | sram s, offset => s.read offset
  | msi m, offset => m.read offset

/-- Writes the word at a byte offset. -/
def write : Device → Nat → Word → Device
  | sram s, offset, w => sram (s.write offset w)
  | msi m, offset, w => msi (m.write offset w)

/-- Writes consecutive words from a byte offset upwards. -/
def writeBlock : Device → Nat → List Word → Device
  | sram s, offset, ws => sram (s.writeBlock offset ws)
  | msi m, offset, ws => msi (m.writeBlock offset ws)

/-- Whether an operation is under way. -/
def isBusy : Device → Bool
  | sram _ => false
  | msi m => m.sending

/-- Whether the device raises interrupts. -/
def isMsi : Device → Bool
  | sram _ => false
  | msi _ => true

/-- Offers a pending interrupt. -/
def offer (d : Device) (ready : Bool) : Transfer Device UInt8 :=
  match d with
  | sram _ => { next := d }
  | msi m => (m.offer ready).map msi

/-- Gives up what is under way; stored words and registers are kept. -/
def reset : Device → Device
  | sram s => sram s
  | msi m => msi m.reset

end Device

end LinkBridge.Wishbone
