import LinkBridge.Etherbone.Packet
import LinkBridge.Framing.Packet
import LinkBridge.Stream.Handshake
import LinkBridge.Wishbone.Bus

/-!
# LinkBridge.Etherbone.Responder

The component that performs Etherbone packets on the Wishbone bus and answers their reads. Requests
and answers go through one crossbar port. One request is handled at a time: nothing of the next one
is taken before the answer has left. A request that is no Etherbone packet has no effect at all.
-/

namespace LinkBridge.Etherbone

open LinkBridge.Wishbone (Bus)

/-- The responder. -/
structure Responder where
  /-- Destination tag of the answers. -/
  tag : UInt8
  /-- Words of the request that is arriving. -/
  request : Array Word := #[]
  /-- Words of the answer still to be sent. -/
  response : List Word := []
  /-- Length of the whole answer. -/
  responseLength : Word := 0
  deriving DecidableEq, Inhabited

/-- What performing a request leads to. -/
structure Performed where
  bus : Bus
  /-- One record for every record that reads, in order. -/
  replies : List Record := []
  counted : Counters := {}

/-! ## Performing requests -/

/-- Reads the words at `addresses`; those that no device holds read zero and are counted. -/
def readAll (bus : Bus) : List Word → List Word × Bus × Nat
  | [] => ([], bus, 0)
  | a :: rest =>
    let (value, bus) := bus.read a.toNat
    let (values, bus, missed) := readAll bus rest
    (value.getD 0 :: values, bus, missed + value.isNone.toNat)

/-- Performs the writes of a record. -/
def performWrites (bus : Bus) (s : Section) : Performed :=
  if s.words.isEmpty then { bus }
  else
    let (missed, bus) := bus.writeBlock s.base.toNat s.words
    { bus
      counted := { wishboneUnmapped := missed, etherboneWrites := s.words.length } }

/-- Performs the reads of a record. -/
def performReads (bus : Bus) (s : Section) : Performed :=
  if s.words.isEmpty then { bus }
  else
    let (values, bus, missed) := readAll bus s.words
    { bus
      replies := [.write s.base values]
      counted := { wishboneUnmapped := missed, etherboneReads := s.words.length } }

/-- Performs one record: its writes, then its reads. -/
def performRecord (bus : Bus) (r : Record) : Performed :=
  let written := performWrites bus r.writes
  let read := performReads written.bus r.reads
  { read with counted := written.counted + read.counted }

/-- Performs records in order. -/
def performAll (bus : Bus) : List Record → Performed
  | [] => { bus }
  | r :: rest =>
    let first := performRecord bus r
    let others := performAll first.bus rest
    { bus := others.bus
      replies := first.replies ++ others.replies
      counted := first.counted + others.counted }

namespace Responder

/-- Performs a complete request and prepares the answer, if there is anything to answer. -/
def perform (r : Responder) (bus : Bus) (words : List Word) :
    Transfer (Responder × Bus) PacketBeat :=
  match Packet.decode words with
  | .error _ => { next := (r, bus), counted := { etherboneMalformed := 1 } }
  | .ok packet =>
    let done := performAll bus packet.records
    if done.replies.isEmpty then { next := (r, done.bus), counted := done.counted }
    else
      let response := Packet.encode { records := done.replies }
      { next := ({ r with response, responseLength := UInt32.ofNat response.length }, done.bus)
        counted := done.counted }

/-- One tick: sends a word of the answer, if there is one, and else takes a word of a request. -/
def tick (r : Responder) (bus : Bus) (input : Option PacketBeat) (ready : Bool) :
    Transfer (Responder × Bus) PacketBeat :=
  match r.response, input with
  | data :: rest, _ =>
    if ready then
      { next := ({ r with response := rest }, bus)
        sent := some { dst := r.tag, length := r.responseLength, data, last := rest.isEmpty } }
    else { next := (r, bus) }
  | [], none => { next := (r, bus) }
  | [], some beat =>
    let request := r.request.push beat.data
    if beat.last then
      { ({ r with request := #[] } : Responder).perform bus request.toList with taken := true }
    else { next := ({ r with request }, bus), taken := true }

/-- Forgets the request and the answer under way. -/
def reset (r : Responder) : Responder :=
  { tag := r.tag }

/-- Whether neither a request nor an answer is under way. -/
def isIdle (r : Responder) : Bool :=
  r.request.isEmpty && r.response.isEmpty

end Responder

end LinkBridge.Etherbone
