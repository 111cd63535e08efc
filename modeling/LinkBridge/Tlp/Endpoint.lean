import LinkBridge.Memory
import LinkBridge.Stream.Handshake
import LinkBridge.Tlp.Record

/-!
# LinkBridge.Tlp.Endpoint

The PCIe endpoint at the far side of the bridge. Memory writes go to a memory of dwords, memory
reads are answered from it with one completion each (unless that is switched off), interrupts are
recorded, and TLPs queued from outside are sent towards the host. The last `historyLimit` TLPs and
interrupts are kept for inspection.
-/

namespace LinkBridge.Tlp

/-- The endpoint. -/
structure Endpoint where
  /-- Whether memory reads are answered. -/
  autoComplete : Bool
  completerId : UInt16
  /-- Beats of the TLP that is arriving. -/
  inbound : Array Beat := #[]
  /-- Beats on their way to the host, oldest first. -/
  outbound : List Beat := []
  memory : Memory := .empty
  /-- TLPs received, oldest first. -/
  received : List Record := []
  /-- Interrupt vectors received, oldest first. -/
  vectors : List UInt8 := []
  deriving Inhabited

namespace Endpoint

/-! ## History -/

/-- How many TLPs, and how many interrupts, are kept. -/
def historyLimit : Nat := 1024

/-- Appends to a history that keeps the last `historyLimit` items. -/
def record {α : Type} (history : List α) (item : α) : List α :=
  (if historyLimit ≤ history.length then history.tail else history) ++ [item]

/-! ## Memory -/

/-- The dword at a byte address; the two low bits of the address do not count. -/
def readMemory (e : Endpoint) (address : UInt32) : Word :=
  e.memory.read (address.toNat / 4)

/-- Stores the dword at a byte address. -/
def writeMemory (e : Endpoint) (address : UInt32) (w : Word) : Endpoint :=
  { e with memory := e.memory.write (address.toNat / 4) w }

/-- Stores consecutive dwords; addresses wrap around. -/
def writeBlock (e : Endpoint) (address : UInt32) : List Word → Endpoint
  | [] => e
  | w :: rest => (e.writeMemory address w).writeBlock (address + 4) rest

/-- Reads consecutive dwords; addresses wrap around. -/
def readBlock (e : Endpoint) (address : UInt32) : Nat → List Word
  | 0 => []
  | n + 1 => e.readMemory address :: e.readBlock (address + 4) n

/-! ## TLPs -/

/-- Queues a TLP towards the host. -/
def inject (e : Endpoint) (r : Record) : Endpoint :=
  { e with outbound := e.outbound ++ r.toBeats }

/-- The answer to a memory read. -/
def completionFor (e : Endpoint) (r : Request) : Record :=
  let count := Header.dwordCount r.length
  { header := .completionWithData
      { length := r.length, completer := e.completerId, status := 0, bcm := false,
        byteCount := UInt16.ofNat (count * 4 % 4096), requester := r.requester, tag := r.tag,
        lowerAddress := UInt8.ofNat (r.address.toNat % 128) }
    data := e.readBlock r.address count }

/-- What a TLP does to the endpoint. -/
def perform (e : Endpoint) (r : Record) : Endpoint :=
  match r.header with
  | .memWrite request => e.writeBlock request.address r.data
  | .memRead request => if e.autoComplete then e.inject (e.completionFor request) else e
  | _ => e

/-- Performs a TLP and keeps it. -/
def handle (e : Endpoint) (r : Record) : Endpoint :=
  let e := e.perform r
  { e with received := record e.received r }

/-- Takes one beat of an arriving TLP and handles the TLP when it is complete. -/
def accept (e : Endpoint) (beat : Beat) : Endpoint × Counters :=
  let inbound := e.inbound.push beat
  if beat.last then
    let e := { e with inbound := #[] }
    match Record.ofBeats inbound.toList with
    | .ok r => (e.handle r, {})
    | .error _ => (e, { tlpMalformed := 1 })
  else ({ e with inbound }, {})

/-! ## Tick -/

/-- Keeps an interrupt. -/
def interrupt (e : Endpoint) (vector : UInt8) : Endpoint :=
  { e with vectors := record e.vectors vector }

/-- One tick. A presented beat and a presented interrupt are always taken. A completion made on
this tick is not sent before the next. -/
def tick (e : Endpoint) (input : Option Beat) (vector : Option UInt8) (ready : Bool) :
    Transfer Endpoint Beat :=
  let sent := if ready then e.outbound.head? else none
  let e := { e with outbound := e.outbound.drop sent.toList.length }
  let (e, counted) := match input with
    | some beat => e.accept beat
    | none => (e, {})
  let e := match vector with
    | some v => e.interrupt v
    | none => e
  { next := e, taken := true, sent, counted }

/-- Forgets the TLPs under way; memory and histories are kept. -/
def reset (e : Endpoint) : Endpoint :=
  { e with inbound := #[], outbound := [] }

/-- Whether no TLP is under way. -/
def isIdle (e : Endpoint) : Bool :=
  e.inbound.isEmpty && e.outbound.isEmpty

/-- Forgets the TLPs received. -/
def clearReceived (e : Endpoint) : Endpoint :=
  { e with received := [] }

/-- Forgets the interrupts received. -/
def clearVectors (e : Endpoint) : Endpoint :=
  { e with vectors := [] }

end Endpoint

end LinkBridge.Tlp
