import LinkBridge.Proofs.Framing.Deframer
import LinkBridge.Proofs.Link.Bus
import LinkBridge.Proofs.System.Tick
import LinkBridge.System.Bridge

/-!
# LinkBridge.Proofs.System.Trace

A bridge and its host over time. The two clocks tick in any order, and between two ticks host
software writes words, drains words or stops draining (`Action`). A `Trace` records what has gone in
and out meanwhile, and what the deframer has made of it.

The invariant (`Tracks`) says where everything is: every word accepted was consumed by the deframer
or waits in one of the two queues in front of it, and what is left of the forecast of the domain
are the beats the deframer has not passed on.
-/

namespace LinkBridge

/-- What may happen to a bridge. -/
inductive Action where
  /-- One tick of the link domain. -/
  | linkTick
  /-- One tick of the system domain. -/
  | coreTick
  /-- Host software writes words, as far as there is room for them. -/
  | write (words : List Word)
  /-- Host software drains the words sent. -/
  | drain
  /-- Host software stops or resumes draining. -/
  | pause (paused : Bool)
  /-- A tick of the whole bridge is counted. -/
  | count
  deriving DecidableEq

/-- A bridge and what has happened to it. -/
structure Trace where
  bridge : Bridge
  /-- Words accepted from host software. -/
  accepted : List Word := []
  /-- Words drained by host software. -/
  drained : List Word := []
  /-- What the deframer has read. -/
  reader : Deframer.History

namespace Trace

/-- A bridge to which nothing has happened. -/
def start (b : Bridge) : Trace :=
  { bridge := b, reader := { now := b.core.deframer } }

/-- One action. -/
def move (t : Trace) : Action → Trace
  | .linkTick => { t with bridge := t.bridge.linkTick }
  | .coreTick =>
    { t with
      bridge := t.bridge.coreTick
      reader := t.reader.tick t.bridge.core.inbound.peek t.bridge.core.arriving.ready }
  | .write words =>
    { t with
      bridge := t.bridge.modifyHost (·.writeWords words)
      accepted := t.accepted ++ words.take t.bridge.host.free }
  | .drain =>
    { t with
      bridge := t.bridge.modifyHost (·.drain)
      drained := t.drained ++ t.bridge.host.sentWords }
  | .pause paused => { t with bridge := t.bridge.modifyHost (·.pause paused) }
  | .count => { t with bridge := { t.bridge with ticks := t.bridge.ticks + 1 } }

/-- Actions one after the other. -/
def play (t : Trace) (actions : List Action) : Trace :=
  actions.foldl move t

/-- All words the host has received. -/
def hostWords (t : Trace) : List Word :=
  t.drained ++ t.bridge.host.sentWords

/-! ## the invariant -/

/-- Where everything is that has gone into a domain that began as `c₀`; `sent` are the beats sent to
the framer, each with its port. -/
structure Tracks (c₀ : Core) (t : Trace) (sent : List (UInt8 × PacketBeat)) : Prop where
  wired : t.bridge.core.Wired
  measured : t.bridge.core.Measured
  calm : t.bridge.core.Calm
  faithful : t.reader.Faithful
  reader : t.reader.now = t.bridge.core.deframer
  settings : t.reader.now.timeout = c₀.deframer.timeout ∧
    t.reader.now.maxPayload = c₀.deframer.maxPayload
  uncut : c₀.deframer.timeout = 0 → t.reader.cut = []
  accepted : t.accepted =
    t.reader.consumed ++ t.bridge.core.inbound.contents ++ t.bridge.host.toDevice
  advances : c₀.Advances t.bridge.core t.reader.passed sent t.hostWords
  lossless : t.bridge.linkCounters.Lossless
  losses : t.bridge.core.counters.losses.framing = t.reader.losses

section

variable {c₀ : Core} {t : Trace} {sent : List (UInt8 × PacketBeat)}

/-- **A tick of the link takes a word to the host or lets one in.** -/
theorem Tracks.linkTick (h : Tracks c₀ t sent) : Tracks c₀ (t.move .linkTick) sent := by
  let c := t.bridge.core
  let m := t.bridge.bus.tick t.bridge.host c.outbound.peek c.inbound.ready
  have hm : Link.Bus.Moves t.bridge.host c.outbound.peek c.inbound.ready m :=
    Link.Bus.tick_moves ..
  let c' : Core :=
    { c with
      inbound := (m.fill c.inbound).commitWriter
      outbound := (m.drain c.outbound).commitReader }
  have hinbound : c'.inbound.contents = c.inbound.contents ++ m.sent.toList :=
    m.contents_fill c.inbound h.wired.inbound hm.room
  have houtbound : c.outbound.contents =
      (if m.taken then c.outbound.peek.toList else []) ++ c'.outbound.contents := by
    rw [CrossFifo.contents_commitReader]
    exact Transfer.contents_eq_drain m c.outbound
  have hadvances : c.Advances c' [] [] (if m.taken then c.outbound.peek.toList else []) :=
    { Core.Advances.refl c with
      wording := fun beats => by
        rw [Core.wording, houtbound, List.append_assoc]
        rfl }
  have hwords : (t.move .linkTick).hostWords =
      t.hostWords ++ if m.taken then c.outbound.peek.toList else [] := by
    show t.drained ++ m.next.2.sentWords = _
    rw [hm.sentWords, hostWords, List.append_assoc]
  have hboth := h.advances.trans hadvances
  rw [List.append_nil, List.append_nil, ← hwords] at hboth
  exact
    { wired := { h.wired with
        inbound := (CrossFifo.isOpen_fill _ _).mpr h.wired.inbound
        outbound := (CrossFifo.isOpen_commitReader _).mpr
          ((CrossFifo.isOpen_drain _ _).mpr h.wired.outbound) }
      measured := h.measured
      calm := h.calm.congr rfl
      faithful := h.faithful
      reader := h.reader
      settings := h.settings
      uncut := h.uncut
      accepted := by
        show t.accepted = t.reader.consumed ++ c'.inbound.contents ++ m.next.2.toDevice
        rw [h.accepted, hinbound, hm.toDevice]
        simp only [List.append_assoc]
        rfl
      advances := hboth
      lossless := h.lossless.add hm.lossless
      losses := h.losses }

/-- **A tick of the system domain moves the deframer and what is behind it.** -/
theorem Tracks.coreTick (h : Tracks c₀ t sent) :
    ∃ more, Tracks c₀ (t.move .coreTick) (sent ++ more) := by
  let c := t.bridge.core
  let m := c.deframer.tick c.inbound.peek c.arriving.ready
  obtain ⟨⟨more, hadvances⟩, hwired, hmeasured, hcalm, hinbound, hdeframer, hlosses⟩ :=
    Core.tick_advances h.wired h.measured h.calm
  let reader := t.reader.tick c.inbound.peek c.arriving.ready
  have hm : t.reader.now.tick c.inbound.peek c.arriving.ready = m := by rw [h.reader]
  have hpassed : reader.passed = t.reader.passed ++ m.sent.toList := by rw [← hm]; rfl
  have hnow : reader.now = m.next := by rw [← hm]; rfl
  have hboth := h.advances.trans hadvances
  rw [List.append_nil, ← hpassed] at hboth
  have hsettings := Deframer.tick_settings t.reader.now c.inbound.peek c.arriving.ready
  have hconsumed := t.reader.consumed_tick c.inbound.peek c.arriving.ready
  have hcontents : c.tick.inbound.contents = m.left c.inbound.peek ++ c.inbound.take.contents := by
    rw [hinbound, CrossFifo.contents_commitReader]
    exact Transfer.contents_drain m c.inbound
  refine ⟨more, ?_⟩
  exact
    { wired := hwired
      measured := hmeasured
      calm := hcalm
      faithful := Deframer.History.faithful_tick h.faithful _ _
      reader := hnow.trans hdeframer.symm
      settings := ⟨hsettings.1.trans h.settings.1, hsettings.2.trans h.settings.2⟩
      uncut := fun hoff => by
        have hcut := Deframer.History.cut_tick_of_timeout_eq_zero h.faithful
          (h.settings.1.trans hoff) c.inbound.peek c.arriving.ready
        exact hcut.trans (h.uncut hoff)
      accepted := by
        show t.accepted = reader.consumed ++ c.tick.inbound.contents ++ t.bridge.host.toDevice
        rw [hm] at hconsumed
        rw [h.accepted, hcontents, ← List.append_assoc, hconsumed, c.inbound.contents_take]
        simp only [List.append_assoc]
      advances := hboth
      lossless := h.lossless
      losses := by
        have hreader := Deframer.History.losses_tick h.faithful h.losses c.inbound.peek
          c.arriving.ready
        rw [hm] at hreader
        exact hlosses.trans hreader }

/-- **No action loses track.** -/
theorem Tracks.move (h : Tracks c₀ t sent) (action : Action) :
    ∃ sent', Tracks c₀ (t.move action) sent' := by
  cases action with
  | linkTick => exact ⟨sent, h.linkTick⟩
  | coreTick =>
      obtain ⟨more, hmore⟩ := h.coreTick
      exact ⟨sent ++ more, hmore⟩
  | write words =>
      refine ⟨sent, { h with accepted := ?_ }⟩
      show t.accepted ++ words.take t.bridge.host.free =
        t.reader.consumed ++ t.bridge.core.inbound.contents ++
          (t.bridge.host.toDevice ++ words.take t.bridge.host.free)
      rw [h.accepted, List.append_assoc, List.append_assoc]
  | drain =>
      refine ⟨sent, { h with advances := ?_ }⟩
      have hwords : (t.move .drain).hostWords = t.hostWords := by
        show (t.drained ++ t.bridge.host.sentWords) ++ [] = t.hostWords
        rw [List.append_nil, hostWords]
      rw [hwords]
      exact h.advances
  | pause paused => exact ⟨sent, { h with }⟩
  | count => exact ⟨sent, { h with }⟩

/-- **No run loses track.** -/
theorem Tracks.play (h : Tracks c₀ t sent) (actions : List Action) :
    ∃ sent', Tracks c₀ (t.play actions) sent' := by
  induction actions generalizing t sent with
  | nil => exact ⟨sent, h⟩
  | cons action actions ih =>
      obtain ⟨sent', hmove⟩ := h.move action
      exact ih hmove

end

end Trace

end LinkBridge
