import LinkBridge.Config.Basic
import LinkBridge.Proofs.Link.Bus
import LinkBridge.Proofs.Stream.Contents

/-!
# LinkBridge.Proofs.Link.Domain

The link domain with its surroundings: the bus, the host on one side of it and the two word queues
on the other. Host software and the system domain act on their ends at any moment between two ticks
(`Event`), and nothing is assumed about how often they do.

Main statement: a tick moves at most the oldest host word into the inbound queue and the oldest
device word to the host (`tick_words`).
-/

namespace LinkBridge.Link

/-- The link domain, the host and the queues to and from the system domain. -/
structure Domain where
  host : Host
  bus : Bus
  /-- Words from the link. -/
  inbound : CrossFifo Word
  /-- Words to the link. -/
  outbound : CrossFifo Word
  counters : Counters := {}
  deriving DecidableEq, Inhabited

/-- What may happen to a link domain. -/
inductive Event where
  /-- One tick of the link. -/
  | tick
  /-- The link domain starts over. -/
  | reset
  /-- Host software writes words, as far as there is room for them. -/
  | write (words : List Word)
  /-- Host software drains the words sent. -/
  | drain
  /-- Host software stops or resumes draining. -/
  | pause (paused : Bool)
  /-- The system domain takes the word presented to it. -/
  | take
  /-- The system domain offers a word. -/
  | push (word : Word)
  /-- The system domain ends its tick on the inbound queue. -/
  | commitInbound
  /-- The system domain ends its tick on the outbound queue. -/
  | commitOutbound
  deriving DecidableEq

namespace Domain

/-- A link domain to which nothing has happened. -/
def ofSettings (settings : Config.Link) : Domain where
  host := .empty settings.hostBufferWords
  bus := .ofLimits settings.readTime settings.writeTime
  inbound := .empty settings.fifoDepth
  outbound := .empty settings.fifoDepth

/-! ## ticks -/

/-- Whether a device word waits for the host and the host has room for it. -/
def transmitPending (d : Domain) : Bool :=
  d.host.hasRoom && d.outbound.peek.isSome

/-- Whether a host word waits and there is room behind the link. -/
def receivePending (d : Domain) : Bool :=
  d.host.hasWord && d.inbound.ready

/-- What the bus does on the next tick. -/
def transfer (d : Domain) : Transfer (Bus × Host) Word :=
  d.bus.tick d.host d.outbound.peek d.inbound.ready

/-- The host word that the next tick receives. -/
def received (d : Domain) : Option Word :=
  d.transfer.sent

/-- The device word that the next tick transmits. -/
def transmitted (d : Domain) : Option Word :=
  if d.transfer.taken then d.outbound.peek else none

/-- One tick of the link. -/
def tick (d : Domain) : Domain :=
  let (t, outbound, inbound) := Transfer.between (d.bus.tick d.host) d.outbound d.inbound
  { host := t.next.2, bus := t.next.1, inbound := inbound.commitWriter,
    outbound := outbound.commitReader, counters := d.counters + t.counted }

/-! ## runs -/

/-- One event. -/
def apply (d : Domain) : Event → Domain
  | .tick => d.tick
  | .reset => { d with bus := d.bus.reset }
  | .write words => { d with host := d.host.writeWords words }
  | .drain => { d with host := d.host.drain }
  | .pause paused => { d with host := d.host.pause paused }
  | .take => { d with inbound := d.inbound.take }
  | .push word => { d with outbound := d.outbound.push word }
  | .commitInbound => { d with inbound := d.inbound.commitReader }
  | .commitOutbound => { d with outbound := d.outbound.commitWriter }

/-- Events one after the other. -/
def run (d : Domain) (events : List Event) : Domain :=
  events.foldl apply d

/-- How the ticks among events find the domain. -/
def ticking (d : Domain) : List Event → List Domain
  | [] => []
  | .tick :: events => d :: ticking d.tick events
  | event :: events => ticking (d.apply event) events

/-! ## what a tick moves -/

theorem tick_eq (d : Domain) : d.tick =
    { host := d.transfer.next.2, bus := d.transfer.next.1,
      inbound := (d.transfer.fill d.inbound).commitWriter,
      outbound := (d.transfer.drain d.outbound).commitReader,
      counters := d.counters + d.transfer.counted } := rfl

@[simp] theorem bus_tick (d : Domain) : d.tick.bus = d.transfer.next.1 := rfl

/-- Where the words of a tick come from and where they go. -/
structure MovesWords (d d' : Domain) : Prop where
  toDevice : d.host.toDevice = d.received.toList ++ d'.host.toDevice
  inbound : d'.inbound.contents = d.inbound.contents ++ d.received.toList
  outbound : d.outbound.contents = d.transmitted.toList ++ d'.outbound.contents
  sentWords : d'.host.sentWords = d.host.sentWords ++ d.transmitted.toList
  wordsIn : d'.counters.linkWordsIn = d.counters.linkWordsIn + d.received.toList.length
  wordsOut : d'.counters.linkWordsOut = d.counters.linkWordsOut + d.transmitted.toList.length

/-- **A tick moves the oldest word of either direction, or none, to where there is room for it.** -/
theorem tick_words {d : Domain} (hopen : d.inbound.IsOpen) : d.MovesWords d.tick := by
  have hmoves : Bus.Moves d.host d.outbound.peek d.inbound.ready d.transfer := Bus.tick_moves ..
  have htransmitted : d.transmitted.toList =
      if d.transfer.taken then d.outbound.peek.toList else [] := by
    unfold transmitted
    split <;> simp
  exact
    { toDevice := hmoves.toDevice
      inbound := d.transfer.contents_fill d.inbound hopen hmoves.room
      outbound := by
        rw [htransmitted, tick_eq, CrossFifo.contents_commitReader]
        exact Transfer.contents_eq_drain d.transfer d.outbound
      sentWords := by
        rw [htransmitted]
        exact hmoves.sentWords
      wordsIn := congrArg (d.counters.linkWordsIn + ·) hmoves.wordsIn
      wordsOut := by
        rw [htransmitted]
        exact congrArg (d.counters.linkWordsOut + ·) hmoves.wordsOut }

end Domain

end LinkBridge.Link
