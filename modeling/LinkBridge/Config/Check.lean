import LinkBridge.Config.Basic
import LinkBridge.Error
import LinkBridge.Wishbone.Msi

/-!
# LinkBridge.Config.Check

Which settings describe a working bridge: every depth and ratio is usable, the two users have
different destinations, and the two Wishbone devices lie apart from each other inside the 32-bit
address space.
-/

namespace LinkBridge.Config

/-- Where the Wishbone devices are. -/
structure Layout where
  sramBase : Nat
  /-- Size of the scratch memory in bytes. -/
  sramSize : Nat
  msiBase : Nat
  deriving DecidableEq, Inhabited

/-- Number of addresses on the Wishbone bus. -/
def addressSpace : Nat := UInt32.size

namespace Etherbone

/-- The number one of the address settings stands for. -/
def address (setting text : String) : Except Fault Nat :=
  match Address.parse text with
  | .ok n => .ok n
  | .error fault => .error (.badAddress setting text fault)

/-- The numbers the address settings stand for. -/
def layout (e : Etherbone) : Except Fault Layout := do
  let sramBase ← address "etherbone.sram_base" e.sramBase
  let sramSize ← address "etherbone.sram_size" e.sramSize
  let msiBase ← address "etherbone.msi_base" e.msiBase
  return { sramBase, sramSize, msiBase }

end Etherbone

/-- The end of an address range, which has to lie inside the address space. -/
def regionEnd (device : String) (base size : Nat) : Except Fault Nat :=
  if base + size ≤ addressSpace then .ok (base + size) else .error (.outOfSpace device base size)

/-- Finds fault with a layout. -/
def Layout.check (l : Layout) : Except Fault Unit := do
  if l.sramSize = 0 ∨ l.sramSize % 4 ≠ 0 then throw .badSramSize
  if l.sramBase % 4 ≠ 0 ∨ l.msiBase % 4 ≠ 0 then throw .unaligned
  let sramEnd ← regionEnd "etherbone.sram" l.sramBase l.sramSize
  let msiEnd ← regionEnd "etherbone.msi" l.msiBase Wishbone.Msi.size
  if l.sramBase < msiEnd ∧ l.msiBase < sramEnd then
    throw (.overlap l.sramBase sramEnd l.msiBase msiEnd)

/-- Finds fault with the depths and ratios. -/
def checkSizes (c : Config) : Except Fault Unit := do
  if c.general.clockRatio = 0 then throw .zeroClockRatio
  if c.link.fifoDepth < 2 then throw .shallowLinkFifo
  if c.link.hostBufferWords = 0 then throw .zeroHostBuffer
  if c.core.streamDepth = 0 then throw .zeroStreamDepth
  if c.core.maxPayloadWords = 0 then throw .zeroMaxPayload
  if c.tlp.fifoDepth = 0 then throw .zeroTlpFifo

/-- The layout of a checked Etherbone path. -/
def Etherbone.check (e : Etherbone) : Except Fault Layout := do
  let layout ← e.layout
  layout.check
  return layout

/-- Checks a whole configuration; sizes come before tags and tags before addresses. -/
def check (c : Config) : Except Error Layout := do
  c.checkSizes.mapError .invalidConfig
  if c.core.ports.etherbone = c.core.ports.tlp then throw (.crossbar (.assigned c.core.ports.tlp))
  c.etherbone.check.mapError .invalidConfig

end LinkBridge.Config
