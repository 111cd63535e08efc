import LinkBridge.Proofs.Safety.Crossbar
import LinkBridge.Proofs.Safety.Etherbone
import LinkBridge.Proofs.Safety.Framing
import LinkBridge.Proofs.Safety.Link
import LinkBridge.Proofs.Safety.Tlp
import LinkBridge.Proofs.System.Fresh
import LinkBridge.Proofs.System.Reachable

/-!
# LinkBridge.Proofs.Safety.System

No tick fails. A `Machine` is a bridge in which every access is partial and whose deframer and
framer are register machines. It *follows* a bridge as long as its registers amount to the phases of
that bridge and are valid; then nothing that happens to it fails, and it goes on following
(`Bridge.Guarded.reaches_meet`). What has to hold of the bridge for that is kept by every incident
(`Bridge.Guarded.meet`): its stages are wired together, and neither the host nor the timers of the
bus are beyond their limits.

Main statement: `run_never_fails`.
-/

namespace LinkBridge

/-- A bridge with partial accesses. The deframer and the framer of the bridge are only kept to
compare with; what they do is done by the registers. -/
structure Machine where
  bridge : Bridge
  deframer : Deframer.Registers
  framer : Framer.Registers

namespace Machine

/-- A machine for a bridge to which nothing has happened. -/
def start (b : Bridge) : Machine where
  bridge := b
  deframer := { timeout := b.core.deframer.timeout, maxPayload := b.core.deframer.maxPayload }
  framer := {}

/-- Replaces the system domain, apart from the registers. -/
def withCore (m : Machine) (core : Core) : Machine :=
  { m with bridge := { m.bridge with core } }

/-! ## ticks -/

/-- Evaluates one stage. -/
def step? (m : Machine) (stage : Core.Stage) : Option Machine :=
  let c := m.bridge.core
  match stage with
  | .deframer => do
    let (t, inbound, arriving) ← Transfer.between? m.deframer.tick? c.inbound c.arriving
    let core := { c with
      deframer := t.next.view, inbound, arriving, counters := c.counters + t.counted }
    return { m.withCore core with deframer := t.next }
  | .crossbar => do
    let (t, arriving, leaving) ← Transfer.between? c.crossbar.tick? c.arriving c.leaving
    return m.withCore
      { c with crossbar := t.next, arriving, leaving, counters := c.counters + t.counted }
  | .framer => do
    let (t, leaving, outbound) ← Transfer.between? m.framer.tick? c.leaving c.outbound
    let core := { c with
      framer := t.next.view, leaving, outbound, counters := c.counters + t.counted }
    return { m.withCore core with framer := t.next }
  | .serializer =>
    match c.crossbar.port? c.tlpTag with
    | none => some m
    | some port => do
      let (t, up, sink) ← Transfer.between? c.serializer.tick? c.up port.sink
      return m.withCore { c with
        serializer := t.next, up
        crossbar := c.crossbar.modifyPort c.tlpTag fun p => { p with sink }
        counters := c.counters + t.counted }
  | .responder =>
    match c.crossbar.port? c.etherboneTag with
    | none => some m
    | some port => do
      let (t, source, sink) ←
        Transfer.between? (c.responder.tick? c.bus) port.source port.sink
      return m.withCore { c with
        responder := t.next.1, bus := t.next.2
        crossbar := c.crossbar.modifyPort c.etherboneTag fun p => { p with source, sink }
        counters := c.counters + t.counted }
  | .endpoint => do
    let t ← c.endpoint.tick? c.down.peek c.interrupts.peek c.up.ready
    return m.withCore { c with
      endpoint := t.next, down := t.drain c.down, interrupts := t.drain c.interrupts
      up := t.fill c.up, counters := c.counters + t.counted }
  -- these two have no partial access
  | .deserializer | .bus => some (m.withCore (c.step stage))

/-- One tick of the system domain alone. -/
def coreTick? (m : Machine) : Option Machine := do
  let m ← Core.Stage.all.foldlM step? m
  return m.withCore (m.bridge.core.count { systemTicks := 1 }).commit

/-- Ticks of the system domain alone. -/
def coreTicks? (m : Machine) : Nat → Option Machine
  | 0 => some m
  | n + 1 => m.coreTicks? n >>= coreTick?

/-- One tick of the link domain alone. -/
def linkTick? (m : Machine) : Option Machine := do
  let b := m.bridge
  let (t, outbound, inbound) ←
    Transfer.between? (b.bus.tick? b.host) b.core.outbound b.core.inbound
  let core := { b.core with
    inbound := inbound.commitWriter
    outbound := outbound.commitReader }
  return { m with bridge := { b with
    bus := t.next.1, host := t.next.2, linkCounters := b.linkCounters + t.counted, core } }

/-- One tick of the whole bridge. -/
def tick? (m : Machine) : Option Machine := do
  let m ← m.linkTick?
  let m ← m.coreTicks? m.bridge.ratio
  return { m with bridge := { m.bridge with ticks := m.bridge.ticks + 1 } }

/-! ## runs -/

/-- Replaces the Wishbone bus. -/
def withBus (m : Machine) (bus : Wishbone.Bus) : Machine :=
  m.withCore { m.bridge.core with bus }

/-- A machine after an incident. -/
def meet? (m : Machine) : Bridge.Incident → Option Machine
  | .tick => m.tick?
  | .linkTick => m.linkTick?
  | .coreTick => m.coreTick?
  | .write words => do
    let host ← m.bridge.host.writeWords? words
    return { m with bridge := { m.bridge with host } }
  | .readBus address => do
    let (_, bus) ← m.bridge.core.bus.read? address
    return m.withBus bus
  | .writeBus address w => do
    let (_, bus) ← m.bridge.core.bus.write? address w
    return m.withBus bus
  | .writeBusBlock address ws => do
    let (_, bus) ← m.bridge.core.bus.writeBlock? address ws
    return m.withBus bus
  | .resetCore =>
    some { bridge := m.bridge.resetCore, deframer := m.deframer.reset, framer := m.framer.reset }
  -- the rest has no partial access
  | incident => some { m with bridge := m.bridge.meet incident }

/-- A machine after one incident after the other. -/
def undergo? (m : Machine) (incidents : List Bridge.Incident) : Option Machine :=
  incidents.foldlM meet? m

/-! ## following a bridge -/

/-- The registers are valid and amount to the phases of a domain. -/
structure Registered (m : Machine) (c : Core) : Prop where
  deframer : m.deframer.Valid
  deframer_view : m.deframer.view = c.deframer
  framer : m.framer.Valid
  framer_view : m.framer.view = c.framer

/-- A machine that does what a bridge does. -/
structure Follows (m : Machine) (b : Bridge) : Prop where
  bridge : m.bridge = b
  registered : m.Registered b.core

/-- Nothing failed, and the machine follows a bridge. -/
def Reaches (result : Option Machine) (b : Bridge) : Prop :=
  ∃ m, result = some m ∧ m.Follows b

theorem Reaches.bind {result : Option Machine} {b b' : Bridge} (h : Reaches result b)
    {next : Machine → Option Machine} (hnext : ∀ m, m.Follows b → Reaches (next m) b') :
    Reaches (result >>= next) b' := by
  obtain ⟨m, rfl, hfollows⟩ := h
  exact hnext m hfollows

theorem Follows.reaches {m : Machine} {b : Bridge} (h : m.Follows b) : Reaches (some m) b :=
  ⟨m, rfl, h⟩

/-- A machine goes on following where the deframer and the framer are left alone. -/
theorem Registered.reaches {m : Machine} {c : Core} (h : m.Registered c) {b : Bridge}
    (hdeframer : b.core.deframer = c.deframer) (hframer : b.core.framer = c.framer) :
    Reaches (some { m with bridge := b }) b :=
  ⟨_, rfl, rfl, h.deframer, h.deframer_view.trans hdeframer.symm, h.framer,
    h.framer_view.trans hframer.symm⟩

/-- The machine of a bridge to which nothing has happened. -/
theorem follows_start {b : Bridge} (hdeframer : b.core.deframer.phase = .hunt)
    (hframer : b.core.framer.phase = .idle) : (start b).Follows b where
  bridge := rfl
  registered :=
    { deframer := Deframer.Registers.valid_start _ _
      deframer_view := by
        show { b.core.deframer with phase := .hunt } = b.core.deframer
        rw [← hdeframer]
      framer := Framer.Registers.valid_start
      framer_view := by
        show { phase := .idle } = b.core.framer
        rw [← hframer] }

end Machine

namespace Bridge

variable {b : Bridge} {m : Machine}

/-- The registers of the deframer do what the deframer does. -/
theorem reaches_deframer (h : m.Follows b) :
    Machine.Reaches (m.step? .deframer) { b with core := b.core.stepDeframer } := by
  obtain ⟨rfl, hregistered⟩ := h
  have hticks (input : Option Word) (ready : Bool) := hregistered.deframer.exists_tick input ready
  rw [hregistered.deframer_view] at hticks
  -- between its queues the registers see what the deframer sees, so that both take and send alike
  obtain ⟨t, hsome, hview, hcounted, hvalid⟩ :=
    Transfer.exists_between? hticks m.bridge.core.inbound m.bridge.core.arriving
  refine ⟨{ m with bridge := _, deframer := t.next }, ?_, rfl, hvalid, hview, hregistered.framer,
    hregistered.framer_view⟩
  simp only [Machine.step?, hsome, hview, hcounted, Option.bind_eq_bind, Option.bind_some]
  rfl

/-- The registers of the framer do what the framer does. -/
theorem reaches_framer (h : m.Follows b) :
    Machine.Reaches (m.step? .framer) { b with core := b.core.stepFramer } := by
  obtain ⟨rfl, hregistered⟩ := h
  have hticks (input : Option PacketBeat) (ready : Bool) :=
    hregistered.framer.exists_tick input ready
  rw [hregistered.framer_view] at hticks
  obtain ⟨t, hsome, hview, hcounted, hvalid⟩ :=
    Transfer.exists_between? hticks m.bridge.core.leaving m.bridge.core.outbound
  refine ⟨{ m with bridge := _, framer := t.next }, ?_, rfl, hregistered.deframer,
    hregistered.deframer_view, hvalid, hview⟩
  simp only [Machine.step?, hsome, hview, hcounted, Option.bind_eq_bind, Option.bind_some]
  rfl

/-- **No stage fails.** -/
theorem reaches_step (hw : b.core.Wired) (h : m.Follows b) (stage : Core.Stage) :
    Machine.Reaches (m.step? stage) { b with core := b.core.step stage } := by
  obtain ⟨rfl, hregistered⟩ := h
  cases stage with
  | deframer => exact reaches_deframer ⟨rfl, hregistered⟩
  | framer => exact reaches_framer ⟨rfl, hregistered⟩
  | crossbar =>
      have hsome := Transfer.between?_eq m.bridge.core.crossbar.tick?_eq m.bridge.core.arriving
        m.bridge.core.leaving
      simp only [Machine.step?, hsome]
      exact hregistered.reaches rfl rfl
  | serializer =>
      obtain ⟨port, hport⟩ := hw.exists_port m.bridge.core.tlpTag (by simp)
      have hsome := Transfer.between?_eq (Tlp.Serializer.tick?_eq hw.sound) m.bridge.core.up
        port.sink
      simp only [Machine.step?, hport, hsome, Core.step, Core.stepSerializer]
      exact hregistered.reaches rfl rfl
  | responder =>
      obtain ⟨port, hport⟩ := hw.exists_port m.bridge.core.etherboneTag (by simp)
      have hsome := Transfer.between?_eq (m.bridge.core.responder.tick?_eq m.bridge.core.bus)
        port.source port.sink
      simp only [Machine.step?, hport, hsome, Core.step, Core.stepResponder]
      exact hregistered.reaches rfl rfl
  | endpoint =>
      simp only [Machine.step?, Tlp.Endpoint.tick?_eq]
      exact hregistered.reaches rfl rfl
  | deserializer =>
      obtain ⟨port, hport⟩ := hw.exists_port m.bridge.core.tlpTag (by simp)
      refine hregistered.reaches ?_ ?_ <;> simp only [Core.step, Core.stepDeserializer, hport]
  | bus => exact hregistered.reaches rfl rfl

/-! ## ticks of a bridge -/

theorem reaches_steps (hw : b.core.Wired) (h : m.Follows b) (stages : List Core.Stage) :
    Machine.Reaches (stages.foldlM Machine.step? m)
      { b with core := stages.foldl Core.step b.core } := by
  induction stages generalizing b m with
  | nil => exact h.reaches
  | cons stage stages ih =>
      rw [List.foldlM_cons]
      exact (reaches_step hw h stage).bind fun m hm => ih (Core.step_wired hw stage) hm

theorem reaches_coreTick (hw : b.core.Wired) (h : m.Follows b) :
    Machine.Reaches m.coreTick? b.coreTick := by
  refine (reaches_steps hw h Core.Stage.all).bind fun m hm => ?_
  rw [coreTick, Core.tick]
  generalize Core.Stage.all.foldl Core.step b.core = c at hm ⊢
  obtain ⟨hbridge, hregistered⟩ := hm
  simp only [Machine.withCore, hbridge]
  exact hregistered.reaches rfl rfl

theorem reaches_coreTicks (hw : b.core.Wired) (h : m.Follows b) (n : Nat) :
    Machine.Reaches (m.coreTicks? n) (Nat.repeat coreTick n b) := by
  induction n with
  | zero => exact h.reaches
  | succ n ih =>
      refine ih.bind fun m hm => reaches_coreTick ?_ hm
      rw [repeat_coreTick]
      exact hw.ticks n

/-! ## runs of a bridge -/

/-- What has to hold of a bridge so that nothing fails in it. -/
structure Guarded (readTime writeTime : Nat) (b : Bridge) : Prop where
  wired : b.core.Wired
  host : b.host.InBounds
  bus : b.bus.Paced readTime writeTime

section

variable {readTime writeTime : Nat}

theorem Guarded.linkTick (h : b.Guarded readTime writeTime) :
    b.linkTick.Guarded readTime writeTime where
  wired := linkTick_wired h.wired
  host := Link.Bus.tick_inBounds h.host ..
  bus := h.bus.tick

theorem Guarded.coreTicks (h : b.Guarded readTime writeTime) (n : Nat) :
    (Nat.repeat coreTick n b).Guarded readTime writeTime := by
  rw [repeat_coreTick]
  exact ⟨h.wired.ticks n, h.host, h.bus⟩

/-- **No incident goes beyond the limits of the link.** -/
theorem Guarded.meet (h : b.Guarded readTime writeTime) (incident : Incident) :
    (b.meet incident).Guarded readTime writeTime := by
  have hwired := wired_meet h.wired incident
  cases incident with
  | tick =>
      have hticks := h.linkTick.coreTicks b.ratio
      exact ⟨hwired, hticks.host, hticks.bus⟩
  | linkTick => exact h.linkTick
  | write words => exact ⟨hwired, h.host.writeWords words, h.bus⟩
  | drain => exact ⟨hwired, h.host.drain, h.bus⟩
  | pause => exact ⟨hwired, ⟨h.host.toDevice, h.host.fromDevice⟩, h.bus⟩
  | resetLink => exact ⟨hwired, h.host, h.bus.reset⟩
  | coreTick | resetCore | inject | writeMemory | clearReceived | clearVectors | readBus | writeBus
  | writeBusBlock => exact ⟨hwired, h.host, h.bus⟩

theorem reaches_linkTick (h : b.Guarded readTime writeTime) (hm : m.Follows b) :
    Machine.Reaches m.linkTick? b.linkTick := by
  obtain ⟨rfl, hregistered⟩ := hm
  have hsome := Transfer.between?_eq (Link.Bus.tick?_eq h.bus m.bridge.host)
    m.bridge.core.outbound m.bridge.core.inbound
  simp only [Machine.linkTick?, hsome]
  exact hregistered.reaches rfl rfl

theorem reaches_tick (h : b.Guarded readTime writeTime) (hm : m.Follows b) :
    Machine.Reaches m.tick? b.tick := by
  refine (reaches_linkTick h hm).bind fun m hm => ?_
  have hratio : m.bridge.ratio = b.ratio := by rw [hm.bridge]; rfl
  rw [hratio]
  refine (reaches_coreTicks h.linkTick.wired hm b.ratio).bind fun m hm => ?_
  obtain ⟨hbridge, hregistered⟩ := hm
  rw [Bridge.tick, advance]
  generalize Nat.repeat coreTick b.ratio b.linkTick = b at hbridge hregistered ⊢
  obtain rfl := hbridge
  exact hregistered.reaches rfl rfl

/-- **Nothing that happens fails.** -/
theorem Guarded.reaches_meet (h : b.Guarded readTime writeTime) (hm : m.Follows b)
    (incident : Incident) : Machine.Reaches (m.meet? incident) (b.meet incident) := by
  cases incident with
  | tick => exact reaches_tick h hm
  | linkTick => exact reaches_linkTick h hm
  | coreTick => exact reaches_coreTick h.wired hm
  | write words =>
      obtain ⟨rfl, hregistered⟩ := hm
      simp only [Machine.meet?, Link.Host.writeWords?_eq h.host]
      exact hregistered.reaches rfl rfl
  | readBus address =>
      obtain ⟨rfl, hregistered⟩ := hm
      simp only [Machine.meet?, Wishbone.Bus.read?_eq]
      exact hregistered.reaches rfl rfl
  | writeBus address w =>
      obtain ⟨rfl, hregistered⟩ := hm
      simp only [Machine.meet?, Wishbone.Bus.write?_eq]
      exact hregistered.reaches rfl rfl
  | writeBusBlock address ws =>
      obtain ⟨rfl, hregistered⟩ := hm
      simp only [Machine.meet?, Wishbone.Bus.writeBlock?_eq]
      exact hregistered.reaches rfl rfl
  | resetCore =>
      obtain ⟨rfl, hregistered⟩ := hm
      exact ⟨_, rfl, rfl,
        { deframer := hregistered.deframer.reset
          deframer_view := m.deframer.view_reset.trans (congrArg _ hregistered.deframer_view)
          framer := hregistered.framer.reset
          framer_view := m.framer.view_reset.trans (congrArg _ hregistered.framer_view) }⟩
  | drain | pause | resetLink | inject | writeMemory | clearReceived | clearVectors =>
      obtain ⟨rfl, hregistered⟩ := hm
      exact hregistered.reaches rfl rfl

theorem Guarded.reaches_undergo (h : b.Guarded readTime writeTime) (hm : m.Follows b)
    (incidents : List Incident) :
    Machine.Reaches (m.undergo? incidents) (b.undergo incidents) := by
  induction incidents generalizing b m with
  | nil => exact hm.reaches
  | cons incident incidents ih =>
      rw [Machine.undergo?, List.foldlM_cons]
      exact (h.reaches_meet hm incident).bind fun m hm => ih (h.meet incident) hm

end

/-- The bridge of a checked configuration is guarded. -/
theorem guarded_ofConfig {config : Config} (hb : ofConfig config = .ok b) :
    b.Guarded config.link.readTime config.link.writeTime := by
  have hwired := (fresh_ofConfig hb).wired
  obtain ⟨layout, -, rfl⟩ := exists_layout hb
  exact ⟨hwired, Link.Host.inBounds_empty _, Link.Bus.paced_ofLimits _ _⟩

/-- **No tick fails.** Whatever the configuration and whatever happens, every position that is
looked up exists, every range is one of its list, and no difference is below zero; the machine with
these accesses does what the bridge does. The deframer never stores more than the longest payload,
and the serializer never more than its depth. -/
theorem run_never_fails {config : Config} (hb : ofConfig config = .ok b)
    (incidents : List Incident) :
    ∃ m, (Machine.start b).undergo? incidents = some m ∧ m.bridge = b.undergo incidents ∧
      m.deframer.payload.size ≤ config.core.maxPayloadWords ∧
      m.bridge.core.serializer.level ≤ config.tlp.fifoDepth := by
  have hguarded := guarded_ofConfig hb
  have hstart : (Machine.start b).Follows b := by
    obtain ⟨layout, -, rfl⟩ := exists_layout hb
    exact Machine.follows_start rfl rfl
  obtain ⟨m, hsome, hbridge, hregistered⟩ := hguarded.reaches_undergo hstart incidents
  have hblank := blank_undergo hguarded.wired incidents
  obtain ⟨-, -, -, hmax, hdepth⟩ := settings_ofConfig hb
  refine ⟨m, hsome, hbridge, ?_, ?_⟩
  · calc m.deframer.payload.size
      _ ≤ m.deframer.view.maxPayload := hregistered.deframer.payload
      _ = (b.undergo incidents).core.blank.deframer.maxPayload := by
        rw [hregistered.deframer_view]
        rfl
      _ = b.core.deframer.maxPayload := by
        rw [hblank]
        rfl
      _ = config.core.maxPayloadWords := hmax
  · calc m.bridge.core.serializer.level
      _ = (b.undergo incidents).core.serializer.buffer.length := by
        rw [hbridge]
        rfl
      _ ≤ (b.undergo incidents).core.blank.serializer.depth :=
        (wired_undergo hguarded.wired incidents).sound.level
      _ = b.core.serializer.depth := by
        rw [hblank]
        rfl
      _ = config.tlp.fifoDepth := hdepth

/-- Words that break off in a frame, resets of both domains and accesses behind the memory. -/
theorem run_never_fails_resets :
    let incidents : List Incident :=
      [.write (readFrame.take 5), .tick, .tick, .resetLink, .tick, .linkTick, .coreTick, .resetCore,
        .writeBusBlock 0x10007ffc [1, 2, 3], .readBus 0x1ffffffff, .write readFrame, .tick]
    ofConfig {} = .ok (assemble {} defaultLayout) ∧
      ∃ m, (Machine.start (assemble {} defaultLayout)).undergo? incidents = some m ∧
        m.bridge = (assemble {} defaultLayout).undergo incidents ∧
        m.deframer.payload.size ≤ 1024 ∧ m.bridge.core.serializer.level ≤ 512 := by
  have hb : ofConfig {} = .ok (assemble {} defaultLayout) := rfl
  exact ⟨hb, run_never_fails hb _⟩

end Bridge

end LinkBridge
