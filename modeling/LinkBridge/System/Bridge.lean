import LinkBridge.Link.Bus
import LinkBridge.System.Core
import LinkBridge.System.Run

/-!
# LinkBridge.System.Bridge

The whole bridge: the link domain with the host, the system domain, and the ratio of their clocks.
The two domains share nothing but the two word queues between them.
-/

namespace LinkBridge

/-- Both clock domains. -/
structure Bridge where
  host : Link.Host
  bus : Link.Bus
  /-- Counters of the link domain. -/
  linkCounters : Counters := {}
  core : Core
  /-- System ticks for every link tick. -/
  ratio : Nat
  /-- Ticks of the whole bridge so far. -/
  ticks : Nat := 0
  deriving Inhabited

namespace Bridge

/-- The bridge that a checked configuration describes, with nothing under way. -/
def assemble (config : Config) (layout : Config.Layout) : Bridge where
  host := .empty config.link.hostBufferWords
  bus := .ofLimits config.link.readTime config.link.writeTime
  core := .assemble config layout
  ratio := config.general.clockRatio

/-- The bridge that a configuration describes, or what is wrong with the configuration. -/
def ofConfig (config : Config) : Except Error Bridge :=
  config.check.map (assemble config)

/-! ## Ticks -/

/-- One tick of the link domain alone. -/
def linkTick (b : Bridge) : Bridge :=
  let (t, outbound, inbound) :=
    Transfer.between (b.bus.tick b.host) b.core.outbound b.core.inbound
  { b with
    bus := t.next.1
    host := t.next.2
    linkCounters := b.linkCounters + t.counted
    core := { b.core with
      inbound := inbound.commitWriter
      outbound := outbound.commitReader } }

/-- One tick of the system domain alone. -/
def coreTick (b : Bridge) : Bridge :=
  { b with core := b.core.tick }

/-- One tick of the link domain followed by its share of system ticks. -/
def advance (b : Bridge) : Bridge :=
  Nat.repeat coreTick b.ratio b.linkTick

/-- One tick of the whole bridge. -/
def tick (b : Bridge) : Bridge :=
  let b := b.advance
  { b with ticks := b.ticks + 1 }

/-- Starts the link domain over; queued words are kept. -/
def resetLink (b : Bridge) : Bridge :=
  { b with bus := b.bus.reset }

/-- Starts the system domain over; see `Core.reset`. -/
def resetCore (b : Bridge) : Bridge :=
  { b with core := b.core.reset }

/-! ## State -/

/-- Device words waiting on the link side. -/
def pendingTransmit (b : Bridge) : Nat :=
  b.core.outbound.readerLevel

/-- Whether no word waits on the link side. -/
def linkIdle (b : Bridge) : Bool :=
  b.host.toDevice.isEmpty && b.core.outbound.readerEmpty

/-- Whether nothing is under way in either domain. -/
def isIdle (b : Bridge) : Bool :=
  b.linkIdle && b.core.isIdle

/-- The counters of both domains. -/
def counters (b : Bridge) : Counters :=
  b.linkCounters + b.core.counters

/-- Changes the endpoint. -/
def modifyEndpoint (b : Bridge) (f : Tlp.Endpoint → Tlp.Endpoint) : Bridge :=
  { b with core := { b.core with endpoint := f b.core.endpoint } }

/-- Changes the host. -/
def modifyHost (b : Bridge) (f : Link.Host → Link.Host) : Bridge :=
  { b with host := f b.host }

/-! ## Runs -/

/-- Ticks until nothing is under way, at most `maxTicks` times; also the number of ticks. -/
def runUntilIdle (b : Bridge) (maxTicks : Nat) : Nat × Bridge :=
  runUntil tick isIdle maxTicks 0 b

/-- Before a tick, hands the host as many words as it takes. -/
def feed (b : Bridge) (words : List Word) : List Word × Bridge :=
  (words.drop b.host.free, b.modifyHost (·.writeWords words))

/-- Feeds words to the host as it takes them and ticks until nothing is under way, at most
`maxTicks` times; also the number of ticks. -/
def runStream (b : Bridge) (words : List Word) (maxTicks : Nat) : Nat × Bridge :=
  let step : List Word × Bridge → List Word × Bridge := fun (words, b) =>
    match words with
    | [] => ([], b.tick)
    | _ =>
      let (words, b) := b.feed words
      (words, b.tick)
  let done : List Word × Bridge → Bool := fun (words, b) => words.isEmpty && b.isIdle
  let (ticks, _, b) := runUntil step done maxTicks 0 (words, b)
  (ticks, b)

/-- Ticks both domains in step `linkTicks` times, as concurrent clocks do; the ticks do not count as
ticks of the whole bridge. -/
def runDomains (b : Bridge) (linkTicks : Nat) : Bridge :=
  Nat.repeat advance linkTicks b

end Bridge

end LinkBridge
