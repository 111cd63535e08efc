import LinkBridge.Link.Window
import LinkBridge.Link.Host
import LinkBridge.Stream.Handshake

/-!
# LinkBridge.Link.Bus

The half-duplex bus between the USB FIFO chip and the device. Time is sliced into receive windows,
in which host words are read, and transmit windows, in which device words are written; one tick of
turnaround lies between two windows. The bus turns around when the other direction has work and
either the current one has none or its window has expired, so neither direction starves.
-/

namespace LinkBridge.Link

/-- Who owns the bus. -/
inductive Bus.Phase where
  | receive
  | receiveToTransmit
  | transmit
  | transmitToReceive
  deriving DecidableEq, Inhabited

/-- The bus with its two window timers. -/
structure Bus where
  phase : Bus.Phase := .receive
  readWindow : Window
  writeWindow : Window
  /-- Ticks in a row the current window was held while the other direction had work. -/
  dwell : Nat := 0
  deriving DecidableEq, Inhabited

namespace Bus

/-- A bus in its first receive window. -/
def ofLimits (readTime writeTime : Nat) : Bus :=
  { readWindow := .ofLimit readTime, writeWindow := .ofLimit writeTime }

/-- Counts a tick of dwelling, or ends it when the other direction has no work. -/
def dwelt (b : Bus) (otherPending : Bool) : Nat :=
  if otherPending then b.dwell + 1 else 0

/-- Enters a phase at the end of a tick on which `dwell` was reached. -/
def enter (b : Bus) (phase : Phase) (dwell : Nat) : Bus where
  phase
  readWindow := b.readWindow.tick (b.phase = .receive)
  writeWindow := b.writeWindow.tick (b.phase = .transmit)
  dwell := if phase = b.phase then dwell else 0

/-- One tick. `word` is the device word waiting to be sent and `room` says whether a host word can
be passed on; a transfer still takes place on the tick that decides to turn around. -/
def tick (b : Bus) (host : Host) (word : Option Word) (room : Bool) :
    Transfer (Bus × Host) Word :=
  let transmitPending := host.hasRoom && word.isSome
  let receivePending := host.hasWord && room
  match b.phase with
  | .receive =>
    let dwell := b.dwelt transmitPending
    let turn := transmitPending && (!receivePending || b.readWindow.expired)
    { next := (b.enter (if turn then .receiveToTransmit else .receive) dwell,
        if receivePending then host.takeWord else host)
      sent := if receivePending then host.nextWord else none
      counted :=
        { linkTicks := 1, linkWordsIn := receivePending.toNat, receiveDwellMax := dwell,
          busTurnarounds := turn.toNat } }
  | .receiveToTransmit =>
    { next := (b.enter .transmit b.dwell, host), counted := { linkTicks := 1 } }
  | .transmit =>
    let dwell := b.dwelt receivePending
    let turn := receivePending && (!transmitPending || b.writeWindow.expired)
    { next := (b.enter (if turn then .transmitToReceive else .transmit) dwell,
        match word with
        | some w => if transmitPending then host.putWord w else host
        | none => host)
      taken := transmitPending
      counted :=
        { linkTicks := 1, linkWordsOut := transmitPending.toNat, transmitDwellMax := dwell,
          busTurnarounds := turn.toNat } }
  | .transmitToReceive =>
    { next := (b.enter .receive b.dwell, host), counted := { linkTicks := 1 } }

/-- Starts over with a receive window; queued words stay where they are. -/
def reset (b : Bus) : Bus :=
  { readWindow := b.readWindow.reload, writeWindow := b.writeWindow.reload }

/-- The name a phase is reported by. -/
def Phase.name : Phase → String
  | .receive => "Receive"
  | .receiveToTransmit => "ReceiveToTransmit"
  | .transmit => "Transmit"
  | .transmitToReceive => "TransmitToReceive"

end Bus

end LinkBridge.Link
