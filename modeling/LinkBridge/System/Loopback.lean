import LinkBridge.Config.Basic
import LinkBridge.Link.Bus
import LinkBridge.Stream.CrossFifo
import LinkBridge.Stream.Fifo
import LinkBridge.System.Run

/-!
# LinkBridge.System.Loopback

The link alone: in place of the packet core a single queue sends every received word straight back
to the host.
-/

namespace LinkBridge

/-- The link with a word loop behind it. -/
structure Loopback where
  host : Link.Host
  bus : Link.Bus
  /-- Words from the link. -/
  inbound : CrossFifo Word
  /-- Words on their way back. -/
  loop : Fifo Word
  /-- Words to the link. -/
  outbound : CrossFifo Word
  counters : Counters := {}
  deriving Inhabited

namespace Loopback

/-- The loopback that a configuration describes, with nothing under way. -/
def ofConfig (config : Config) : Loopback where
  host := .empty config.link.hostBufferWords
  bus := .ofLimits config.link.readTime config.link.writeTime
  inbound := .empty config.link.fifoDepth
  loop := .empty config.link.fifoDepth
  outbound := .empty config.link.fifoDepth

/-- Moves words between the host and the queues. -/
def stepLink (l : Loopback) : Loopback :=
  let (t, outbound, inbound) := Transfer.between (l.bus.tick l.host) l.outbound l.inbound
  { l with
    bus := t.next.1, host := t.next.2, inbound, outbound, counters := l.counters + t.counted }

/-- Moves the oldest word of the loop towards the link. -/
def sendBack (l : Loopback) : Loopback :=
  match l.loop.peek with
  | some w =>
    if l.outbound.ready then { l with outbound := l.outbound.push w, loop := l.loop.take } else l
  | none => l

/-- Moves a received word into the loop. -/
def receive (l : Loopback) : Loopback :=
  match l.inbound.peek with
  | some w =>
    if l.loop.ready then { l with loop := l.loop.push w, inbound := l.inbound.take } else l
  | none => l

/-- Ends the tick on the queues between the domains. -/
def commit (l : Loopback) : Loopback :=
  { l with
    inbound := l.inbound.commitWriter.commitReader
    outbound := l.outbound.commitReader.commitWriter
    counters := l.counters + { systemTicks := 1 } }

/-- One tick of both domains. -/
def tick (l : Loopback) : Loopback :=
  l.stepLink.sendBack.receive.commit

/-- Device words waiting on the link side. -/
def pendingTransmit (l : Loopback) : Nat :=
  l.outbound.readerLevel

/-- Whether every word has come back to the host. -/
def isIdle (l : Loopback) : Bool :=
  l.host.toDevice.isEmpty && l.inbound.readerEmpty && l.loop.isEmpty && l.outbound.readerEmpty

/-- Ticks until every word has come back, at most `maxTicks` times; also the number of ticks. -/
def runUntilIdle (l : Loopback) (maxTicks : Nat) : Nat × Loopback :=
  runUntil tick isIdle maxTicks 0 l

end Loopback

end LinkBridge
