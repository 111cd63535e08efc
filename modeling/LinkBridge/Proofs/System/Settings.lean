import LinkBridge.Proofs.Progress.Domain

/-!
# LinkBridge.Proofs.System.Settings

What never changes about a system domain: how deep its queues are, which tags its users have, what
the deframer and the endpoint were told, and which devices are on the bus. It is the domain with
nothing under way and nothing stored (`Core.blank`), and no stage and no commit changes it
(`step_blank`, `tick_blank`).
-/

namespace LinkBridge

/-! ## components -/

theorem Deframer.reset_tick (d : Deframer) (input : Option Word) (ready : Bool) :
    (d.tick input ready).next.reset = d.reset := by
  obtain ⟨htimeout, hlimit⟩ := d.tick_settings input ready
  simp only [reset, goto, htimeout, hlimit]

namespace Tlp

theorem Serializer.reset_tick (s : Serializer) (input : Option Beat) (ready : Bool) :
    (s.tick input ready).next.reset = s.reset := by
  have hstart : s.start.reset = s.reset := by
    unfold start
    repeat' split
    all_goals rfl
  have hsend : (s.send ready).next.reset = s.reset := by
    rw [← hstart]
    unfold send
    simp only
    repeat' split
    all_goals rfl
  rw [← hsend]
  show ((s.send ready).next.store input).next.reset = _
  generalize (s.send ready).next = s
  unfold store
  repeat' split
  all_goals rfl

namespace Endpoint

/-- The endpoint with nothing under way and nothing stored. -/
def blank (e : Endpoint) : Endpoint :=
  { autoComplete := e.autoComplete, completerId := e.completerId }

@[simp] theorem blank_writeBlock (e : Endpoint) (address : UInt32) (ws : List Word) :
    (e.writeBlock address ws).blank = e.blank := by
  rw [writeBlock_eq_memory]
  rfl

theorem blank_handle (e : Endpoint) (r : Record) : (e.handle r).blank = e.blank := by
  show (e.perform r).blank = e.blank
  unfold perform
  split
  · exact blank_writeBlock ..
  · split <;> rfl
  · rfl

theorem blank_accept (e : Endpoint) (beat : Beat) : (e.accept beat).1.blank = e.blank := by
  unfold accept
  simp only
  repeat' split
  · exact blank_handle ..
  · rfl
  · rfl

theorem blank_tick (e : Endpoint) (input : Option Beat) (vector : Option UInt8) (ready : Bool) :
    (e.tick input vector ready).next.blank = e.blank := by
  cases vector <;> cases input with
  | none => rfl
  | some beat => exact blank_accept ..

end Endpoint

end Tlp

namespace Core

variable {c : Core}

/-! ## the domain -/

/-- The domain with nothing under way, nothing stored and nothing counted. -/
def blank (c : Core) : Core :=
  { inbound := { capacity := c.inbound.capacity }
    outbound := { capacity := c.outbound.capacity }
    deframer := c.deframer.reset
    arriving := c.arriving.flush
    crossbar := c.crossbar.reset
    leaving := c.leaving.flush
    framer := {}
    tlpTag := c.tlpTag
    serializer := c.serializer.reset
    deserializer := {}
    down := c.down.flush
    up := c.up.flush
    endpoint := c.endpoint.blank
    etherboneTag := c.etherboneTag
    responder := { tag := c.responder.tag }
    bus := { devices := c.bus.blank }
    interrupts := c.interrupts.flush
    counters := {} }

/-- A user that puts beats into its port and takes beats from it leaves the settings alone. -/
theorem Wired.reset_modifyPort (h : c.Wired) {tag : UInt8} {port : Port}
    (hport : c.crossbar.port? tag = some port) {f : Port → Port}
    (hroom : (f port).tag = port.tag ∧ (f port).sink.capacity = port.sink.capacity ∧
      (f port).source.capacity = port.source.capacity) :
    (c.crossbar.modifyPort tag f).reset = c.crossbar.reset := by
  refine Crossbar.reset_modifyPort fun p hp htag => ?_
  obtain ⟨htag, hsink, hsource⟩ := hroom
  rw [Crossbar.eq_of_port? h.nodup hport hp ‹_›, Port.flush, Channel.flush, Channel.flush, htag,
    hsink, hsource]
  rfl

/-- No stage changes the settings. -/
theorem step_blank (h : c.Wired) (stage : Stage) : (c.step stage).blank = c.blank := by
  obtain ⟨port, hport⟩ := h.exists_port c.tlpTag (by simp)
  cases stage with
  | deframer =>
      simp [step, stepDeframer, Transfer.between, blank, Deframer.reset_tick, Channel.flush]
  | crossbar =>
      have hreset := (Crossbar.tick_whole h.nodup h.known c.arriving.peek c.leaving.ready).2.reset
      simp only [step, stepCrossbar, Transfer.between, Source.peek, Sink.ready, blank, Channel.flush,
        Channel.capacity_fill, Channel.capacity_drain, hreset]
  | framer => simp [step, stepFramer, Transfer.between, blank, Channel.flush]
  | deserializer =>
      rw [step, stepDeserializer_eq hport]
      simp [blank, Channel.flush, h.reset_modifyPort hport]
  | serializer =>
      rw [step, stepSerializer_eq hport]
      simp [blank, Channel.flush, h.reset_modifyPort hport, Tlp.Serializer.reset_tick]
  | responder =>
      obtain ⟨port, hport⟩ := h.exists_port c.etherboneTag (by simp)
      obtain ⟨htag, hblank⟩ := c.responder.tick_settings c.bus port.source.peek port.sink.ready
      rw [step, stepResponder_eq hport]
      simp [blank, Channel.flush, h.reset_modifyPort hport, htag, hblank]
  | bus => simp [step, stepBus, blank, Channel.flush]
  | endpoint => simp [step, stepEndpoint, blank, Channel.flush, Tlp.Endpoint.blank_tick]

theorem count_blank (c : Core) (counted : Counters) : (c.count counted).blank = c.blank := rfl

theorem commit_blank (c : Core) : c.commit.blank = c.blank := by
  simp [commit, blank, Channel.flush]

theorem reset_blank (c : Core) : c.reset.blank = c.blank := by
  simp only [reset, blank, Channel.flush, Crossbar.reset_reset, Wishbone.Bus.blank_reset]
  rfl

end Core

end LinkBridge
