import LinkBridge.Proofs.System.Fresh
import LinkBridge.Proofs.System.Reachable
import LinkBridge.Proofs.Wishbone.Recent

/-!
# LinkBridge.Proofs.System.Restart

What a reset of the system domain leaves behind. The domain is one that has just been assembled and
*holds* the words shared with the link, the memories and the histories of the old one; only what was
counted and the device that answered last are older (`reset_agrees`). Neither makes a difference to
anything that happens afterwards (`Agrees.meet`).

Main statement: a reset leaves no trace of traffic (`resetCore_leaves_no_trace`).
-/

namespace LinkBridge

/-! ## what a domain holds -/

namespace Wishbone

/-- The device with what another device of its kind stores; an operation under way is not stored. -/
def Device.holding : Device → Device → Device
  | sram s, sram stored => sram { s with memory := stored.memory }
  | msi m, msi stored => msi { m with vector := stored.vector }
  | d, _ => d

/-- The bus with what the devices of another bus store. -/
def Bus.holding (b stored : Bus) : Bus :=
  { b with devices := List.zipWith Device.holding b.devices stored.devices }

theorem Device.holding_blank (d : Device) : d.blank.holding d = d.reset := by
  cases d <;> rfl

theorem Bus.holding_blank (b : Bus) :
    ({ devices := b.blank } : Bus).holding b = { devices := b.reset.devices } := by
  simp [holding, blank, reset, List.zipWith_map_left, Device.holding_blank]

end Wishbone

/-- The endpoint with the memory and the histories of another one. -/
def Tlp.Endpoint.holding (e stored : Endpoint) : Endpoint :=
  { e with memory := stored.memory, received := stored.received, vectors := stored.vectors }

namespace Core

/-- The domain with the words shared with the link, the memories and the histories of another
one. -/
def holding (c stored : Core) : Core :=
  { c with
    inbound := stored.inbound
    outbound := stored.outbound
    endpoint := c.endpoint.holding stored.endpoint
    bus := c.bus.holding stored.bus }

/-- A domain that was reset is idle if nothing waits for it. -/
theorem isIdle_reset (c : Core) :
    c.reset.isIdle = (c.inbound.readerEmpty && c.outbound.writerEmpty) := by
  have hbus : c.bus.reset.isIdle = true := by
    rw [Wishbone.Bus.isIdle_iff]
    intro d hd
    obtain ⟨e, -, rfl⟩ := List.mem_map.mp hd
    cases e <;> rfl
  have hcrossbar := c.crossbar.isIdle_reset
  have hothers : (c.reset.deframer.isIdle && c.reset.framer.isIdle && c.reset.serializer.isIdle
      && c.reset.deserializer.isIdle && c.reset.responder.isIdle && c.reset.endpoint.isIdle
      && c.reset.arriving.isEmpty && c.reset.leaving.isEmpty && c.reset.down.isEmpty
      && c.reset.up.isEmpty && c.reset.interrupts.isEmpty) = true := rfl
  simp only [Bool.and_eq_true] at hothers
  simp only [isIdle, hothers, Bool.and_true]
  simp only [reset, hbus, hcrossbar, Bool.and_true]

/-! ## domains that agree -/

/-- Domains that differ at most in what was counted before and in the device that answered last. -/
structure Agrees (counted : Counters) (c c' : Core) : Prop where
  same : { c with bus := c'.bus, counters := c'.counters } = c'
  counters : c.counters = counted + c'.counters
  bus : c'.bus.Alike c.bus

/-- **A reset agrees with starting over.** -/
theorem reset_agrees {c : Core} (hapart : c.bus.Apart) :
    Agrees c.counters c.reset (c.blank.holding c) where
  same := rfl
  counters := (Counters.add_zero _).symm
  bus := by
    have hholding : (c.blank.holding c).bus = { devices := c.bus.reset.devices } :=
      c.bus.holding_blank
    rw [hholding]
    refine ⟨rfl, ?_⟩
    show c.bus.reset.Apart
    rwa [Wishbone.Bus.apart_iff_blank, Wishbone.Bus.blank_reset, ← Wishbone.Bus.apart_iff_blank]

section

variable {counted : Counters} {c c' : Core}

theorem Agrees.eq (h : Agrees counted c c') :
    c = { c' with bus := c.bus, counters := c.counters } := by
  rw [← h.same]

theorem Agrees.step (h : Agrees counted c c') (stage : Stage) :
    Agrees counted (c.step stage) (c'.step stage) := by
  obtain ⟨hsame, hcounters, hbus⟩ := h
  have heq := (Agrees.mk hsame hcounters hbus).eq
  generalize c.bus = bus at heq hbus
  generalize c.counters = counters at heq hcounters
  subst heq
  have hcount (r : Counters) : counters + r = counted + (c'.counters + r) := by
    rw [hcounters, Counters.add_assoc]
  cases stage with
  | deframer => exact ⟨rfl, hcount _, hbus⟩
  | crossbar => exact ⟨rfl, hcount _, hbus⟩
  | framer => exact ⟨rfl, hcount _, hbus⟩
  | endpoint => exact ⟨rfl, hcount _, hbus⟩
  | deserializer =>
      show Agrees counted (stepDeserializer _) (stepDeserializer _)
      unfold stepDeserializer
      cases c'.crossbar.port? c'.tlpTag with
      | none => exact ⟨rfl, hcounters, hbus⟩
      | some port => exact ⟨rfl, hcount _, hbus⟩
  | serializer =>
      show Agrees counted (stepSerializer _) (stepSerializer _)
      unfold stepSerializer
      cases c'.crossbar.port? c'.tlpTag with
      | none => exact ⟨rfl, hcounters, hbus⟩
      | some port => exact ⟨rfl, hcount _, hbus⟩
  | responder =>
      show Agrees counted (stepResponder _) (stepResponder _)
      unfold stepResponder
      cases c'.crossbar.port? c'.etherboneTag with
      | none => exact ⟨rfl, hcounters, hbus⟩
      | some port =>
          have htick := c'.responder.tick_alike hbus port.source.peek port.sink.ready
          simp only [Transfer.between, Transfer.drain, Transfer.fill, Source.peek, Sink.ready,
            htick.next, htick.taken, htick.sent, htick.counted]
          exact ⟨rfl, hcount _, htick.bus⟩
  | bus =>
      obtain ⟨hsent, hcounted, hnext⟩ := hbus.tick c'.interrupts.ready
      show Agrees counted (stepBus _) (stepBus _)
      simp only [stepBus, Transfer.fill, hsent, hcounted]
      exact ⟨rfl, hcount _, hnext⟩

theorem Agrees.foldl (h : Agrees counted c c') (stages : List Stage) :
    Agrees counted (stages.foldl Core.step c) (stages.foldl Core.step c') := by
  induction stages generalizing c c' with
  | nil => exact h
  | cons stage stages ih => exact ih (h.step stage)

theorem Agrees.count (h : Agrees counted c c') (r : Counters) :
    Agrees counted (c.count r) (c'.count r) where
  same := by
    rw [h.eq]
    rfl
  counters := by
    show c.counters + r = counted + (c'.counters + r)
    rw [h.counters, Counters.add_assoc]
  bus := h.bus

theorem Agrees.commit (h : Agrees counted c c') : Agrees counted c.commit c'.commit where
  same := by
    rw [h.eq]
    rfl
  counters := h.counters
  bus := h.bus

theorem Agrees.tick (h : Agrees counted c c') : Agrees counted c.tick c'.tick :=
  ((h.foldl Stage.all).count _).commit

theorem Agrees.ticks (h : Agrees counted c c') (n : Nat) :
    Agrees counted (Nat.repeat Core.tick n c) (Nat.repeat Core.tick n c') := by
  induction n with
  | zero => exact h
  | succ n ih => exact ih.tick

theorem Agrees.reset (h : Agrees counted c c') : Agrees counted c.reset c'.reset where
  same := by
    rw [h.eq]
    rfl
  counters := h.counters
  bus := h.bus.reset

theorem Agrees.isIdle (h : Agrees counted c c') : c.isIdle = c'.isIdle := by
  have hidle := h.bus.isIdle
  rw [h.eq]
  simp only [Core.isIdle, hidle]

end

end Core

namespace Bridge

/-! ## bridges that agree -/

/-- Bridges whose system domains agree and that are the same otherwise. -/
structure Agrees (counted : Counters) (b b' : Bridge) : Prop where
  same : { b with core := b'.core } = b'
  core : b.core.Agrees counted b'.core

section

variable {counted : Counters} {b b' : Bridge}

theorem Agrees.eq (h : Agrees counted b b') : b = { b' with core := b.core } := by
  rw [← h.same]

theorem Agrees.linkTick (h : Agrees counted b b') : Agrees counted b.linkTick b'.linkTick := by
  obtain ⟨hsame, hcore⟩ := h
  have heq := (Agrees.mk hsame hcore).eq
  have hcoreEq := hcore.eq
  obtain ⟨-, hcounters, hbus⟩ := hcore
  generalize b.core = c at heq hcoreEq hcounters hbus
  generalize c.bus = bus at hcoreEq hbus
  generalize c.counters = counters at hcoreEq hcounters
  subst hcoreEq
  subst heq
  exact ⟨rfl, rfl, hcounters, hbus⟩

/-- A change of the system domain alone. -/
theorem Agrees.modifyCore (h : Agrees counted b b') {c c' : Core} (hcore : c.Agrees counted c') :
    Agrees counted { b with core := c } { b' with core := c' } where
  same := by
    rw [h.eq]
  core := hcore

/-- A change of anything else. -/
theorem Agrees.modify (h : Agrees counted b b') (f : Bridge → Bridge)
    (hf : ∀ (b : Bridge) (c : Core), f { b with core := c } = { f b with core := c })
    (hcore : ∀ b, (f b).core = b.core) : Agrees counted (f b) (f b') where
  same := by
    rw [hcore, ← hf, h.same]
  core := by
    rw [hcore, hcore]
    exact h.core

theorem Agrees.tick (h : Agrees counted b b') : Agrees counted b.tick b'.tick := by
  have hratio : b.ratio = b'.ratio := by rw [h.eq]
  have hlink := h.linkTick
  have hticks := hlink.core.ticks b'.ratio
  have hadvance := hlink.modifyCore hticks
  rw [Bridge.tick, Bridge.tick, advance, advance, repeat_coreTick, repeat_coreTick, hratio]
  exact hadvance.modify (fun b => { b with ticks := b.ticks + 1 }) (fun _ _ => rfl) fun _ => rfl

/-- A change of the endpoint. -/
theorem Agrees.modifyEndpoint (h : Agrees counted b b') (f : Tlp.Endpoint → Tlp.Endpoint) :
    Agrees counted (b.modifyEndpoint f) (b'.modifyEndpoint f) := by
  refine h.modifyCore ⟨?_, h.core.counters, h.core.bus⟩
  have hendpoint : b.core.endpoint = b'.core.endpoint := by rw [h.core.eq]
  rw [hendpoint]
  exact congrArg (fun c : Core => { c with endpoint := f b'.core.endpoint }) h.core.same

/-- An access to the bus. -/
theorem Agrees.modifyBus (h : Agrees counted b b') {f : Wishbone.Bus → Wishbone.Bus}
    (hf : (f b'.core.bus).Alike (f b.core.bus)) :
    Agrees counted (b.modifyBus f) (b'.modifyBus f) := by
  refine h.modifyCore ⟨?_, h.core.counters, hf⟩
  exact congrArg (fun c : Core => { c with bus := f b'.core.bus }) h.core.same

/-- **Whatever happens next, it happens to both.** -/
theorem Agrees.meet (h : Agrees counted b b') (incident : Incident) :
    Agrees counted (b.meet incident) (b'.meet incident) := by
  cases incident with
  | tick => exact h.tick
  | linkTick => exact h.linkTick
  | coreTick => exact h.modifyCore h.core.tick
  | write words => exact h.modify (·.modifyHost (·.writeWords words)) (fun _ _ => rfl) fun _ => rfl
  | drain => exact h.modify (·.modifyHost (·.drain)) (fun _ _ => rfl) fun _ => rfl
  | pause paused => exact h.modify (·.modifyHost (·.pause paused)) (fun _ _ => rfl) fun _ => rfl
  | resetLink => exact h.modify (·.resetLink) (fun _ _ => rfl) fun _ => rfl
  | resetCore => exact h.modifyCore h.core.reset
  | inject r => exact h.modifyEndpoint (·.inject r)
  | writeMemory address w => exact h.modifyEndpoint (·.writeMemory address w)
  | clearReceived => exact h.modifyEndpoint (·.clearReceived)
  | clearVectors => exact h.modifyEndpoint (·.clearVectors)
  | readBus address =>
      exact h.modifyBus (f := fun bus => (bus.read address).2) (h.core.bus.read address).2
  | writeBus address w =>
      exact h.modifyBus (f := fun bus => (bus.write address w).2) (h.core.bus.write address w).2
  | writeBusBlock address ws =>
      exact h.modifyBus (f := fun bus => (bus.writeBlock address ws).2)
        (h.core.bus.writeBlock address ws).2

theorem Agrees.undergo (h : Agrees counted b b') (incidents : List Incident) :
    Agrees counted (b.undergo incidents) (b'.undergo incidents) := by
  induction incidents generalizing b b' with
  | nil => exact h
  | cons incident incidents ih => exact ih (h.meet incident)

theorem Agrees.isIdle (h : Agrees counted b b') : b.isIdle = b'.isIdle := by
  have hcore := h.core.isIdle
  have hlink : b.linkIdle = b'.linkIdle := by
    rw [h.eq, linkIdle, h.core.eq]
    rfl
  rw [Bridge.isIdle, Bridge.isIdle, hcore, hlink]

end

/-! ## resets -/

variable {config : Config} {b : Bridge}

/-- The devices of a checked configuration share no address. -/
theorem apart_ofConfig (hb : ofConfig config = .ok b) : b.core.bus.Apart := by
  obtain ⟨layout, hcheck, rfl⟩ := exists_layout hb
  obtain ⟨-, -, -, hfits⟩ := Config.check_ok hcheck
  exact Wishbone.Bus.apart_ofDevices hfits.pairwise_devices

/-- **A reset leaves no trace of traffic.** Whatever has happened to a bridge, once its system domain
is reset the same happens as to a bridge whose system domain has just been assembled and holds what
the old one held: everything is the same but for the position of the device that answered last, of
which no access tells, and for what had been counted before. The domain is idle at once if nothing
waits for it in the queues shared with the link. -/
theorem resetCore_leaves_no_trace (hb : ofConfig config = .ok b) (incidents later : List Incident) :
    let s := b.undergo incidents
    let t := s.resetCore.undergo later
    let t' := ({ s with core := b.core.holding s.core } : Bridge).undergo later
    (∃ recent, t = { t' with core := { t'.core with
      bus := { t'.core.bus with recent }, counters := s.core.counters + t'.core.counters } }) ∧
    (∀ address, (t.core.bus.read address).1 = (t'.core.bus.read address).1) ∧
    t.isIdle = t'.isIdle ∧
    s.resetCore.core.isIdle = (s.core.inbound.readerEmpty && s.core.outbound.writerEmpty) := by
  intro s t t'
  have hfresh := fresh_ofConfig hb
  have hblank : s.core.blank = b.core.blank := blank_undergo hfresh.wired incidents
  have hblank₀ : b.core.blank = b.core := by
    obtain ⟨layout, -, rfl⟩ := exists_layout hb
    exact Core.blank_assemble config layout
  have hapart : s.core.bus.Apart := by
    have hbus : s.core.bus.blank = b.core.bus.blank :=
      congrArg (fun c : Core => c.bus.devices) hblank
    rw [Wishbone.Bus.apart_iff_blank, hbus, ← Wishbone.Bus.apart_iff_blank]
    exact apart_ofConfig hb
  have hreset := Core.reset_agrees hapart
  rw [hblank, hblank₀] at hreset
  have hagrees : Agrees s.core.counters s.resetCore { s with core := b.core.holding s.core } :=
    ⟨rfl, hreset⟩
  have hlater : Agrees s.core.counters t t' := hagrees.undergo later
  refine ⟨⟨t.core.bus.recent, ?_⟩, fun address => (hlater.core.bus.read address).1, hlater.isIdle,
    s.core.isIdle_reset⟩
  calc t
    _ = { t' with core := t.core } := hlater.eq
    _ = { t' with core := { t'.core with bus := t.core.bus, counters := t.core.counters } } := by
      rw [← hlater.core.eq]
    _ = _ := by rw [hlater.core.counters, ← hlater.core.bus.eq]

/-- The rest of a frame is skipped after a reset, and the next request is served. -/
theorem resetCore_leaves_no_trace_midframe :
    let b := assemble {} defaultLayout
    let incidents : List Incident := .write (readFrame.take 4) :: List.replicate 6 .tick
    let later : List Incident := .write (readFrame.drop 4 ++ readFrame) :: List.replicate 40 .tick
    ofConfig {} = .ok b ∧ (b.undergo incidents).core.deframer.isIdle = false ∧
      let s := b.undergo incidents
      let t := s.resetCore.undergo later
      let t' := ({ s with core := b.core.holding s.core } : Bridge).undergo later
      (∃ recent, t = { t' with core := { t'.core with
        bus := { t'.core.bus with recent }, counters := s.core.counters + t'.core.counters } }) ∧
      (∀ address, (t.core.bus.read address).1 = (t'.core.bus.read address).1) ∧
      t.isIdle = t'.isIdle ∧
      s.resetCore.core.isIdle = (s.core.inbound.readerEmpty && s.core.outbound.writerEmpty) := by
  intro b incidents later
  have hb : ofConfig {} = .ok b := rfl
  have hmidframe : (b.undergo incidents).core.deframer.isIdle = false := by decide +kernel
  exact ⟨hb, hmidframe, resetCore_leaves_no_trace hb incidents later⟩

end Bridge

end LinkBridge
