import LinkBridge.Framing.Packet
import LinkBridge.Stream.Channel

/-!
# LinkBridge.Crossbar

The crossbar joins one master stream in each direction with any number of user ports.

- Inbound, the head beat of a packet decides the port: the one registered for its destination. A
  packet for an unregistered destination is taken to its end and dropped.
- Outbound, ports are served round-robin, one whole packet per grant. A round starts behind the
  port that was granted last.

Ports are kept in the order of their registration, which closes before traffic starts.
-/

namespace LinkBridge

/-- A user port. -/
structure Port where
  tag : UInt8
  /-- Packets from the user into the crossbar. -/
  sink : Channel PacketBeat
  /-- Packets delivered to the user. -/
  source : Channel PacketBeat
  deriving DecidableEq, Inhabited

namespace Port

/-- A port whose channels hold `depth` beats each. -/
def empty (tag : UInt8) (depth : Nat) : Port :=
  { tag, sink := .empty depth, source := .empty depth }

/-- Ends the tick on both channels. -/
def commit (p : Port) : Port :=
  { p with sink := p.sink.commit, source := p.source.commit }

/-- Discards every beat on both channels. -/
def flush (p : Port) : Port :=
  { p with sink := p.sink.flush, source := p.source.flush }

/-- Whether both channels are empty. -/
def isIdle (p : Port) : Bool :=
  p.sink.isEmpty && p.source.isEmpty

end Port

/-- Where the inbound packet in progress goes. -/
inductive Crossbar.Route where
  | port (tag : UInt8)
  | dropped
  deriving DecidableEq, Inhabited

/-- Why a crossbar refuses a request. -/
inductive Crossbar.Fault where
  /-- The destination already has a port. -/
  | assigned (tag : UInt8)
  /-- Registration is closed. -/
  | closed (tag : UInt8)
  /-- The destination has no port. -/
  | unknown (tag : UInt8)
  deriving DecidableEq, Inhabited

/-- The crossbar. -/
structure Crossbar where
  /-- Channel depth of the ports. -/
  depth : Nat
  /-- The ports in the order of their registration. -/
  ports : List Port := []
  /-- Whether registration is closed. -/
  closed : Bool := false
  /-- The port that owns the outbound master stream until its packet ends. -/
  grant : Option UInt8 := none
  /-- Where the next arbitration round starts. -/
  turn : Nat := 0
  /-- Where the inbound packet in progress goes. -/
  route : Option Crossbar.Route := none
  deriving DecidableEq, Inhabited

namespace Crossbar

/-! ## Ports -/

/-- The registered destinations, in the order of registration. -/
def tags (x : Crossbar) : List UInt8 :=
  x.ports.map (·.tag)

/-- The port of a destination. -/
def port? (x : Crossbar) (tag : UInt8) : Option Port :=
  x.ports.find? (·.tag == tag)

/-- Changes the port of a destination. -/
def modifyPort (x : Crossbar) (tag : UInt8) (f : Port → Port) : Crossbar :=
  { x with ports := x.ports.map fun p => if p.tag == tag then f p else p }

/-- The port of a destination, or the fault of asking for it. -/
def port (x : Crossbar) (tag : UInt8) : Except Fault Port :=
  match x.port? tag with
  | some p => .ok p
  | none => .error (.unknown tag)

/-- Registers a port for a destination. -/
def register (x : Crossbar) (tag : UInt8) : Except Fault Crossbar :=
  if x.closed then .error (.closed tag)
  else if (x.port? tag).isSome then .error (.assigned tag)
  else .ok { x with ports := x.ports ++ [.empty tag x.depth] }

/-- Queues a beat at the port of a destination, for the outbound direction. -/
def pushTo (x : Crossbar) (tag : UInt8) (beat : PacketBeat) : Crossbar :=
  x.modifyPort tag fun p => { p with sink := p.sink.push beat }

/-- Takes the beat that was delivered first to the port of a destination. -/
def takeFrom (x : Crossbar) (tag : UInt8) : Crossbar :=
  x.modifyPort tag fun p => { p with source := p.source.take }

/-- Closes registration. -/
def close (x : Crossbar) : Crossbar :=
  { x with closed := true }

/-! ## Outbound -/

/-- The ports with their positions, in the order in which the next round looks at them. -/
def rotation (x : Crossbar) : List (Port × Nat) :=
  x.ports.zipIdx.rotateLeft x.turn

/-- Grants the outbound stream to the next port that has a beat, unless it is already granted. -/
def chooseGrant (x : Crossbar) : Crossbar × Counters :=
  match x.grant with
  | some _ => (x, {})
  | none =>
    match x.rotation.find? (·.1.sink.peek.isSome) with
    | some (p, i) => ({ x with grant := some p.tag, turn := i + 1 }, { packetsArbitrated := 1 })
    | none => (x, {})

/-- Passes on one beat of the port that holds the grant. -/
def sendGranted (x : Crossbar) (ready : Bool) : Transfer Crossbar PacketBeat :=
  match x.grant with
  | none => { next := x }
  | some tag =>
    match x.port? tag with
    | none => { next := { x with grant := none } }
    | some p =>
      match p.sink.peek with
      | none => { next := x }
      | some beat =>
        if ready then
          let x := x.modifyPort tag fun p => { p with sink := p.sink.take }
          { next := { x with grant := if beat.last then none else some tag }, sent := some beat }
        else { next := x }

/-- One tick of the outbound direction. -/
def arbitrate (x : Crossbar) (ready : Bool) : Transfer Crossbar PacketBeat :=
  let (x, counted) := x.chooseGrant
  { x.sendGranted ready with counted }

/-! ## Inbound -/

/-- Decides where a packet goes by its head beat, unless one is in progress. -/
def chooseRoute (x : Crossbar) (beat : PacketBeat) : Crossbar × Counters :=
  match x.route with
  | some _ => (x, {})
  | none =>
    if (x.port? beat.dst).isSome then
      ({ x with route := some (.port beat.dst) }, { packetsRouted := 1 })
    else ({ x with route := some .dropped }, { packetsUnrouted := 1 })

/-- Delivers one beat of the packet in progress. -/
def deliver (x : Crossbar) (beat : PacketBeat) : Transfer Crossbar PacketBeat :=
  match x.route with
  | none => { next := x }
  | some .dropped =>
    { next := if beat.last then { x with route := none } else x, taken := true }
  | some (.port tag) =>
    match x.port? tag with
    | none => { next := x }
    | some p =>
      if p.source.ready then
        let x := x.modifyPort tag fun p => { p with source := p.source.push beat }
        { next := if beat.last then { x with route := none } else x, taken := true }
      else { next := x }

/-- One tick of the inbound direction. -/
def dispatch (x : Crossbar) (input : Option PacketBeat) : Transfer Crossbar PacketBeat :=
  match input with
  | none => { next := x }
  | some beat =>
    let (x, counted) := x.chooseRoute beat
    { x.deliver beat with counted }

/-! ## Both directions -/

/-- One tick. -/
def tick (x : Crossbar) (input : Option PacketBeat) (ready : Bool) :
    Transfer Crossbar PacketBeat :=
  let outbound := x.arbitrate ready
  let inbound := outbound.next.dispatch input
  { next := inbound.next, taken := inbound.taken, sent := outbound.sent,
    counted := outbound.counted + inbound.counted }

/-- Ends the tick on every port. -/
def commit (x : Crossbar) : Crossbar :=
  { x with ports := x.ports.map Port.commit }

/-- Forgets the packets in progress and empties every port. -/
def reset (x : Crossbar) : Crossbar :=
  { x with ports := x.ports.map Port.flush, grant := none, turn := 0, route := none }

/-- Whether no packet is in progress and every port is empty. -/
def isIdle (x : Crossbar) : Bool :=
  x.grant.isNone && x.route.isNone && x.ports.all Port.isIdle

end Crossbar

end LinkBridge
