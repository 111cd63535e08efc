import LinkBridge.Framing.Frame
import LinkBridge.Stream.Handshake

/-!
# LinkBridge.Framing.Framer

The component that turns packets back into the word stream of the link. It looks at the head beat
of a packet without taking it, sends the frame header built from that beat, and then passes the
payload on word by word. Nothing is buffered.
-/

namespace LinkBridge

/-- How much of the current frame has been sent. -/
inductive Framer.Phase where
  /-- Between frames. -/
  | idle
  /-- Sending the header: `word` is offered now, `rest` after it. -/
  | header (word : Word) (rest : List Word)
  /-- Passing the payload on. -/
  | payload
  deriving DecidableEq, Inhabited

/-- The framer. -/
structure Framer where
  phase : Framer.Phase := .idle
  deriving DecidableEq, Inhabited

namespace Framer

/-- The phase in which `words` of the header are still to be sent. -/
def Phase.sending : List Word → Phase
  | [] => .payload
  | word :: rest => .header word rest

/-- One tick. -/
def tick (f : Framer) (input : Option PacketBeat) (ready : Bool) : Transfer Framer Word :=
  match f.phase, input with
  | .idle, none => { next := f }
  | .idle, some beat => { next := ⟨.sending (Frame.header beat.dst beat.length)⟩ }
  | .header word rest, _ =>
    if ready then { next := ⟨.sending rest⟩, sent := some word } else { next := f }
  | .payload, none => { next := f }
  | .payload, some beat =>
    if !ready then { next := f }
    else if beat.last then
      { next := ⟨.idle⟩, taken := true, sent := some beat.data, counted := { packetsFramed := 1 } }
    else { next := f, taken := true, sent := some beat.data }

/-- Gives up the frame in progress. -/
def reset (_ : Framer) : Framer :=
  {}

/-- Whether no frame is in progress. -/
def isIdle (f : Framer) : Bool :=
  match f.phase with
  | .idle => true
  | _ => false

/-- The name a phase is reported by; a header phase is numbered by the words already sent. -/
def Phase.name : Phase → String
  | .idle => "Idle"
  | .header _ rest => s!"InsertHeader({2 - rest.length})"
  | .payload => "Copy"

end Framer

end LinkBridge
