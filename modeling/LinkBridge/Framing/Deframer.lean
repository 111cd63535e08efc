import LinkBridge.Framing.Frame
import LinkBridge.Stream.Handshake

/-!
# LinkBridge.Framing.Deframer

The component that recovers packets from the word stream of the link.

Payloads are stored and forwarded: nothing of a packet is passed on before its last word arrived,
so a frame that breaks off leaks nothing. A packet longer than the limit is read to its end and
thrown away. Between the preamble and the last payload word a timer watches the stream: on the
`timeout`-th tick in a row without a word the frame is abandoned. A timeout of zero switches the
timer off.
-/

namespace LinkBridge

/-- Where the deframer stands in the stream. -/
inductive Deframer.Phase where
  /-- Looking for a preamble. -/
  | hunt
  /-- Behind a preamble; `dst` is the destination word once it was read. -/
  | header (dst : Option Word) (idle : Nat)
  /-- Collecting the payload. -/
  | collect (dst : UInt8) (length : Word) (payload : Array Word) (idle : Nat)
  /-- Passing the collected packet on; `rest` are the words still to go. -/
  | deliver (dst : UInt8) (length : Word) (rest : List Word)
  /-- Skipping the payload of a packet that is too long; `left` words are still to come. -/
  | discard (left : Nat) (idle : Nat)
  deriving DecidableEq, Inhabited

/-- The deframer. -/
structure Deframer where
  /-- Ticks without a word after which a frame is abandoned; zero means never. -/
  timeout : Nat
  /-- Longest payload passed on, in words. -/
  maxPayload : Nat
  phase : Deframer.Phase := .hunt
  deriving DecidableEq, Inhabited

namespace Deframer

/-- Moves to another phase. -/
def goto (d : Deframer) (phase : Phase) : Deframer :=
  { d with phase }

/-- A tick without a word inside a frame, after `idle` such ticks in a row: either the frame is
abandoned or the deframer stays, one tick later. -/
def wait (d : Deframer) (idle : Nat) (stay : Nat → Phase) : Transfer Deframer PacketBeat :=
  if d.timeout = 0 then { next := d }
  else if d.timeout ≤ idle + 1 then
    { next := d.goto .hunt, counted := { frameTimeouts := 1 } }
  else { next := d.goto (stay (idle + 1)) }

/-- What a frame's length word leads to. -/
def announce (d : Deframer) (dst length : Word) : Transfer Deframer PacketBeat :=
  let length := Frame.payloadLength length
  if d.maxPayload < length.toNat then
    { next := d.goto (.discard length.toNat 0), taken := true, counted := { oversizePackets := 1 } }
  else
    { next := d.goto (.collect (Frame.destination dst) length #[] 0), taken := true }

/-- One tick. -/
def tick (d : Deframer) (input : Option Word) (ready : Bool) : Transfer Deframer PacketBeat :=
  match d.phase, input with
  | .hunt, none => { next := d }
  | .hunt, some w =>
    if w = Frame.preamble then { next := d.goto (.header none 0), taken := true }
    else { next := d, taken := true, counted := { resyncWordsDropped := 1 } }
  | .header dst idle, none => d.wait idle (.header dst)
  | .header none _, some w => { next := d.goto (.header (some w) 0), taken := true }
  | .header (some dst) _, some w => d.announce dst w
  | .collect dst length payload idle, none => d.wait idle (.collect dst length payload)
  | .collect dst length payload _, some w =>
    let payload := payload.push w
    if payload.size = length.toNat then
      { next := d.goto (.deliver dst length payload.toList), taken := true }
    else { next := d.goto (.collect dst length payload 0), taken := true }
  | .discard left idle, none => d.wait idle (.discard left)
  | .discard left _, some _ =>
    if left ≤ 1 then { next := d.goto .hunt, taken := true }
    else { next := d.goto (.discard (left - 1) 0), taken := true }
  | .deliver _ _ [], _ => { next := d.goto .hunt }
  | .deliver dst length (w :: rest), _ =>
    let beat : PacketBeat := { dst, length, data := w, last := rest.isEmpty }
    if !ready then { next := d }
    else if rest.isEmpty then
      { next := d.goto .hunt, sent := some beat, counted := { packetsDeframed := 1 } }
    else { next := d.goto (.deliver dst length rest), sent := some beat }

/-- Gives up the frame in progress. -/
def reset (d : Deframer) : Deframer :=
  d.goto .hunt

/-- Whether no frame is in progress. -/
def isIdle (d : Deframer) : Bool :=
  match d.phase with
  | .hunt => true
  | _ => false

/-- The name a phase is reported by. -/
def Phase.name : Phase → String
  | .hunt => "Idle"
  | .header .. => "ReceiveHeader"
  | .collect .. => "Copy"
  | .deliver .. => "Deliver"
  | .discard .. => "Discard"

end Deframer

end LinkBridge
