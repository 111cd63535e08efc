import LinkBridge.Config.Check
import LinkBridge.Crossbar
import LinkBridge.Etherbone.Responder
import LinkBridge.Framing.Deframer
import LinkBridge.Framing.Framer
import LinkBridge.Stream.CrossFifo
import LinkBridge.Tlp.Deserializer
import LinkBridge.Tlp.Endpoint
import LinkBridge.Tlp.Serializer

/-!
# LinkBridge.System.Core

The system clock domain: everything behind the link, wired together.

```
inbound → deframer → crossbar → deserializer → endpoint
                      ↑    ↘                      ↓ ↑ interrupts
outbound ← framer ← crossbar ← serializer ←───────┘ │
                       ↕                            │
                   responder ──── Wishbone bus ─────┘
```

A tick evaluates every stage once and then commits every queue. Queues show a stage nothing of what
another stage does on the same tick, so the order of the stages makes no difference, with one
exception: the responder and the Wishbone bus share the devices.
-/

namespace LinkBridge

/-- The system clock domain with the two queues that lead to the link. -/
structure Core where
  /-- Words from the link. -/
  inbound : CrossFifo Word
  /-- Words to the link. -/
  outbound : CrossFifo Word
  deframer : Deframer
  /-- Packets from the deframer to the crossbar. -/
  arriving : Channel PacketBeat
  crossbar : Crossbar
  /-- Packets from the crossbar to the framer. -/
  leaving : Channel PacketBeat
  framer : Framer
  tlpTag : UInt8
  serializer : Tlp.Serializer
  deserializer : Tlp.Deserializer
  /-- TLPs towards the endpoint. -/
  down : Channel Tlp.Beat
  /-- TLPs from the endpoint. -/
  up : Channel Tlp.Beat
  endpoint : Tlp.Endpoint
  etherboneTag : UInt8
  responder : Etherbone.Responder
  bus : Wishbone.Bus
  /-- Interrupts from the bus to the endpoint. -/
  interrupts : Channel UInt8
  counters : Counters
  deriving Inhabited

namespace Core

/-- The domain that a checked configuration describes, with nothing under way. -/
def assemble (config : Config) (layout : Config.Layout) : Core :=
  let depth := config.core.streamDepth
  let ports := config.core.ports
  { inbound := .empty config.link.fifoDepth
    outbound := .empty config.link.fifoDepth
    deframer := { timeout := config.core.frameTimeout, maxPayload := config.core.maxPayloadWords }
    arriving := .empty depth
    crossbar :=
      { depth, closed := true, ports := [.empty ports.etherbone depth, .empty ports.tlp depth] }
    leaving := .empty depth
    framer := {}
    tlpTag := ports.tlp
    serializer := .empty ports.tlp config.tlp.fifoDepth
    deserializer := {}
    down := .empty depth
    up := .empty depth
    endpoint := { autoComplete := config.tlp.autoComplete, completerId := config.tlp.completerId }
    etherboneTag := ports.etherbone
    responder := { tag := ports.etherbone }
    bus := .ofDevices
      [.sram (.ofSize layout.sramBase layout.sramSize), .msi { base := layout.msiBase }]
    interrupts := .empty 1
    counters := {} }

/-! ## Stages -/

/-- The components that are evaluated once per tick. -/
inductive Stage where
  | deframer
  | crossbar
  | framer
  | deserializer
  | serializer
  | responder
  | bus
  | endpoint
  deriving DecidableEq, Inhabited

/-- The stages in the order in which a tick evaluates them. -/
def Stage.all : List Stage :=
  [.deframer, .crossbar, .framer, .deserializer, .serializer, .responder, .bus, .endpoint]

/-- Adds what a stage reports to the totals. -/
def count (c : Core) (counted : Counters) : Core :=
  { c with counters := c.counters + counted }

/-- Moves words from the link into packets. -/
def stepDeframer (c : Core) : Core :=
  let (t, inbound, arriving) := Transfer.between c.deframer.tick c.inbound c.arriving
  { c with deframer := t.next, inbound, arriving, counters := c.counters + t.counted }

/-- Moves packets between the master streams and the ports. -/
def stepCrossbar (c : Core) : Core :=
  let (t, arriving, leaving) := Transfer.between c.crossbar.tick c.arriving c.leaving
  { c with crossbar := t.next, arriving, leaving, counters := c.counters + t.counted }

/-- Moves packets into words for the link. -/
def stepFramer (c : Core) : Core :=
  let (t, leaving, outbound) := Transfer.between c.framer.tick c.leaving c.outbound
  { c with framer := t.next, leaving, outbound, counters := c.counters + t.counted }

/-- Moves packets for the TLP port into TLPs. -/
def stepDeserializer (c : Core) : Core :=
  match c.crossbar.port? c.tlpTag with
  | none => c
  | some port =>
    let (t, source, down) := Transfer.between c.deserializer.tick port.source c.down
    { c with
      deserializer := t.next, down
      crossbar := c.crossbar.modifyPort c.tlpTag fun p => { p with source }
      counters := c.counters + t.counted }

/-- Moves TLPs into packets from the TLP port. -/
def stepSerializer (c : Core) : Core :=
  match c.crossbar.port? c.tlpTag with
  | none => c
  | some port =>
    let (t, up, sink) := Transfer.between c.serializer.tick c.up port.sink
    { c with
      serializer := t.next, up
      crossbar := c.crossbar.modifyPort c.tlpTag fun p => { p with sink }
      counters := c.counters + t.counted }

/-- Performs Etherbone packets on the bus. -/
def stepResponder (c : Core) : Core :=
  match c.crossbar.port? c.etherboneTag with
  | none => c
  | some port =>
    let (t, source, sink) := Transfer.between (c.responder.tick c.bus) port.source port.sink
    { c with
      responder := t.next.1, bus := t.next.2
      crossbar := c.crossbar.modifyPort c.etherboneTag fun p => { p with source, sink }
      counters := c.counters + t.counted }

/-- Lets the interrupt controller offer its vector. -/
def stepBus (c : Core) : Core :=
  let t := c.bus.tick c.interrupts.ready
  { c with
    bus := t.next, interrupts := t.fill c.interrupts, counters := c.counters + t.counted }

/-- Exchanges TLPs and interrupts with the endpoint. -/
def stepEndpoint (c : Core) : Core :=
  let t := c.endpoint.tick c.down.peek c.interrupts.peek c.up.ready
  { c with
    endpoint := t.next, down := t.drain c.down, interrupts := t.drain c.interrupts
    up := t.fill c.up, counters := c.counters + t.counted }

/-- Evaluates one stage. -/
def step (c : Core) : Stage → Core
  | .deframer => c.stepDeframer
  | .crossbar => c.stepCrossbar
  | .framer => c.stepFramer
  | .deserializer => c.stepDeserializer
  | .serializer => c.stepSerializer
  | .responder => c.stepResponder
  | .bus => c.stepBus
  | .endpoint => c.stepEndpoint

/-! ## Ticks -/

/-- Ends the tick on every queue, as far as it belongs to this domain. -/
def commit (c : Core) : Core :=
  { c with
    inbound := c.inbound.commitReader
    outbound := c.outbound.commitWriter
    arriving := c.arriving.commit
    leaving := c.leaving.commit
    crossbar := c.crossbar.commit
    down := c.down.commit
    up := c.up.commit
    interrupts := c.interrupts.commit }

/-- One system tick. -/
def tick (c : Core) : Core :=
  ((Stage.all.foldl step c).count { systemTicks := 1 }).commit

/-- Returns every component to its initial state and empties the queues of the domain. Memories,
registers, histories, counters and the words shared with the link are kept. -/
def reset (c : Core) : Core :=
  { c with
    deframer := c.deframer.reset
    framer := c.framer.reset
    crossbar := c.crossbar.reset
    serializer := c.serializer.reset
    deserializer := c.deserializer.reset
    responder := c.responder.reset
    endpoint := c.endpoint.reset
    bus := c.bus.reset
    arriving := c.arriving.flush
    leaving := c.leaving.flush
    down := c.down.flush
    up := c.up.flush
    interrupts := c.interrupts.flush }

/-- Whether no word and no packet is under way in the domain. -/
def isIdle (c : Core) : Bool :=
  c.inbound.readerEmpty && c.outbound.writerEmpty && c.deframer.isIdle && c.framer.isIdle
    && c.crossbar.isIdle && c.serializer.isIdle && c.deserializer.isIdle && c.responder.isIdle
    && c.endpoint.isIdle && c.bus.isIdle && c.arriving.isEmpty && c.leaving.isEmpty
    && c.down.isEmpty && c.up.isEmpty && c.interrupts.isEmpty

end Core

end LinkBridge
