import LinkBridge.Framing.Frame
import LinkBridge.System.Bridge

/-!
# LinkBridge.System.Demo

The built-in exchange between a host and the bridge: an Etherbone write to the scratch memory and
its read-back, an interrupt raised through the registers of the interrupt controller, and a TLP
memory write followed by a memory read that the endpoint completes.
-/

namespace LinkBridge

/-! ## Replies -/

/-- A frame from the device, read according to its destination. -/
inductive Reply where
  | etherbone (packet : Etherbone.Packet)
  | tlp (record : Tlp.Record)
  /-- A frame for another destination, or one that does not read as it should. -/
  | raw (packet : Packet)
  deriving DecidableEq, Inhabited

/-- Reads a frame from the device. -/
def Reply.ofPacket (ports : Config.Ports) (p : Packet) : Reply :=
  if p.dst = ports.etherbone then
    match Etherbone.Packet.decode p.payload with
    | .ok packet => .etherbone packet
    | .error _ => .raw p
  else if p.dst = ports.tlp then
    match Tlp.Record.ofDwords p.payload with
    | .ok record => .tlp record
    | .error _ => .raw p
  else .raw p

/-- Reads every frame in what the host received. -/
def Reply.ofWords (ports : Config.Ports) (words : List Word) : List Reply :=
  (Frame.packets words).map (.ofPacket ports)

/-! ## The exchange -/

namespace Demo

/-- The words written to the scratch memory. -/
def sramWords : List Word := [0x12345678, 0xCAFEBABE]

/-- The interrupt vector raised. -/
def vector : Word := 5

/-- The endpoint address written and read. -/
def tlpAddress : UInt32 := 0x1000

/-- The dword written to the endpoint. -/
def tlpData : Word := 0xDEADBEEF

/-- The Etherbone requests of the exchange. -/
def etherboneRequests (layout : Config.Layout) : List Etherbone.Packet :=
  let sram := UInt32.ofNat layout.sramBase
  let msi := UInt32.ofNat layout.msiBase
  [{ records := [.write sram sramWords] },
    { records := [.read [sram, sram + 4]] },
    { records :=
        [.write (msi + UInt32.ofNat Wishbone.Msi.dataOffset) [vector],
          .write (msi + UInt32.ofNat Wishbone.Msi.sendOffset) [1]] }]

/-- The TLPs of the exchange. -/
def tlpRequests : List Tlp.Record :=
  [.memWrite 0 0 tlpAddress [tlpData], .memRead 0 1 tlpAddress]

/-- The words the host sends. -/
def words (ports : Config.Ports) (layout : Config.Layout) : List Word :=
  (etherboneRequests layout).flatMap
      (fun p => Frame.ofPacket { dst := ports.etherbone, payload := p.encode })
    ++ tlpRequests.flatMap (fun r => Frame.ofPacket { dst := ports.tlp, payload := r.toDwords })

/-- The words the host sends under a configuration. -/
def wordsFor (config : Config) : Except Error (List Word) :=
  (config.etherbone.layout.mapError .invalidConfig).map (words config.core.ports)

/-- Runs the exchange on a bridge: the replies in the order in which the host received them, or the
failure to finish in time. -/
def run (config : Config) (b : Bridge) (maxTicks : Nat) : Except Error (List Reply) × Bridge :=
  match wordsFor config with
  | .error e => (.error e, b)
  | .ok words =>
    let (ticks, b) := b.runStream words maxTicks
    if b.isIdle then
      (.ok (Reply.ofWords config.core.ports b.host.sentWords), b.modifyHost Link.Host.drain)
    else (.error (.notIdle ticks), b)

end Demo

end LinkBridge
