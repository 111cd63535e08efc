import LinkBridge.Allocator
import LinkBridge.System.Bridge

/-!
# LinkBridge.System.Construct

How a bridge is set up. The configuration is checked first. Then come steps that could fail again:
the two users are registered at the crossbar, the address settings are read once more for the
devices, and every queue gets its memory. There is no way to go on without memory, so what is
missing is no `Error` that is reported, but the end of the program.
-/

namespace LinkBridge

/-- Why there is no bridge. -/
inductive Failure where
  /-- The configuration is refused. -/
  | refused (error : Error)
  /-- The program ends because a storage cannot be had. -/
  | exhausted (storage : Storage)
  deriving DecidableEq, Inhabited

/-- Asks for storages one after the other. -/
def Allocator.provide (a : Allocator) (storages : List Storage) : Except Failure Unit :=
  match a.lacking? storages with
  | none => .ok ()
  | some s => .error (.exhausted s)

/-! ## Sizes -/

/-- Bytes of a stored word. -/
def Word.storedBytes : Nat := 4

/-- Bytes of a stored beat of a packet: two words, the destination and two flags, padded. -/
def PacketBeat.storedBytes : Nat := 12

/-- Bytes of a stored beat of a TLP: two dwords and two flags, padded. -/
def Tlp.Beat.storedBytes : Nat := 16

/-- Bytes of a slot between two clock domains: a word and a stamp, padded. -/
def CrossFifo.slotBytes : Nat := 16

/-- The storage of a channel. -/
def Channel.storage {α : Type} (c : Channel α) (itemBytes : Nat) : Storage :=
  { items := c.capacity, itemBytes }

/-- The storage of a queue between two clock domains, but for the presented item. -/
def CrossFifo.storage {α : Type} (q : CrossFifo α) : Storage :=
  { items := q.capacity - 1, itemBytes := slotBytes }

/-- The storages of a port. -/
def Port.storages (p : Port) : List Storage :=
  [p.sink.storage PacketBeat.storedBytes, p.source.storage PacketBeat.storedBytes]

/-- The storage of the buffer of a serializer. -/
def Tlp.Serializer.storage (s : Serializer) : Storage :=
  { items := s.depth, itemBytes := Beat.storedBytes }

/-- The storages of a device. -/
def Wishbone.Device.storages : Device → List Storage
  | .sram s => [{ items := s.words, itemBytes := Word.storedBytes }]
  | .msi _ => []

/-- The storages of one direction and the other of a host. -/
def Link.Host.storages (h : Host) : List Storage :=
  List.replicate 2 { items := h.capacity, itemBytes := Word.storedBytes }

/-- The storages of a system domain, apart from those it shares with the link. -/
def Core.storages (c : Core) : List Storage :=
  c.crossbar.ports.flatMap Port.storages ++ c.bus.devices.flatMap Wishbone.Device.storages ++
    [c.arriving.storage PacketBeat.storedBytes, c.leaving.storage PacketBeat.storedBytes,
      c.serializer.storage, c.down.storage Tlp.Beat.storedBytes, c.up.storage Tlp.Beat.storedBytes,
      c.interrupts.storage 1]

/-- The storages of the link: the queues between the domains and those of the host. -/
def Bridge.linkStorages (b : Bridge) : List Storage :=
  [b.core.inbound.storage, b.core.outbound.storage] ++ b.host.storages

/-- All storages of a bridge. -/
def Bridge.storages (b : Bridge) : List Storage :=
  b.core.storages ++ b.linkStorages

/-! ## Construction -/

/-- Sets up a serializer. -/
def Tlp.Serializer.construct (a : Allocator) (tag : UInt8) (depth : Nat) :
    Except Failure Serializer := do
  let s := empty tag depth
  a.provide [s.storage]
  return s

/-- Sets up the system domain: registers the users, reads the addresses and attaches the devices. -/
def Core.construct (a : Allocator) (config : Config) : Except Failure Core := do
  let ports := config.core.ports
  let crossbar : Crossbar := { depth := config.core.streamDepth }
  let crossbar ← (crossbar.register ports.etherbone).mapError (.refused <| .crossbar ·)
  let crossbar ← (crossbar.register ports.tlp).mapError (.refused <| .crossbar ·)
  let layout ← config.etherbone.layout.mapError (.refused <| .invalidConfig ·)
  let sram : Wishbone.Sram := .ofSize layout.sramBase layout.sramSize
  let bus := (Wishbone.Bus.add {} (.sram sram)).add (.msi { base := layout.msiBase })
  let core := { assemble config layout with crossbar := crossbar.close, bus }
  a.provide core.storages
  return core

/-- Sets up a bridge: checks the configuration and goes through the steps. -/
def Bridge.construct (a : Allocator) (config : Config) : Except Failure Bridge := do
  let layout ← config.check.mapError .refused
  let core ← Core.construct a config
  let b := { assemble config layout with core }
  a.provide b.linkStorages
  return b

end LinkBridge
