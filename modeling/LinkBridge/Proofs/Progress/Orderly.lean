import LinkBridge.Proofs.System.Service
import LinkBridge.Proofs.System.Settings

/-!
# LinkBridge.Proofs.Progress.Orderly

What is true of a system domain at all times, and what a deadlock would contradict: every queue has
room for an item, and packets and TLPs are whole. A stage is within a packet only as long as the rest
of it is on its way, so no stage can wait for a beat that nobody is going to send (`Whole`). Requests
may find the bus busy, so this is shown without the forecast of the domain.
-/

namespace LinkBridge

open Tlp (Beat)

namespace Core

variable {c : Core}

/-! ## whole packets -/

/-- Packets and TLPs are whole everywhere. -/
structure Whole (c : Core) : Prop where
  arriving : unfinished PacketBeat.last c.crossbar.route.isSome
    (c.arriving.contents ++ c.deframer.phase.owed) = false
  requests : c.crossbar.Continues c.etherboneTag (!c.responder.request.isEmpty)
  tlps : c.crossbar.Continues c.tlpTag (c.deserializer.low.isSome ||
    unfinished Beat.last (!c.endpoint.inbound.isEmpty) c.down.contents)
  completions : unfinished Beat.last c.serializer.begun
    (c.up.contents ++ c.endpoint.outbound) = false
  answers : c.responder.response = [] → unfinished PacketBeat.last
    (c.crossbar.within c.etherboneTag) (c.crossbar.sinkOf c.etherboneTag) = false
  packets : c.serializer.phase = .idle → unfinished PacketBeat.last
    (c.crossbar.within c.tlpTag) (c.crossbar.sinkOf c.tlpTag) = false
  leaving : c.crossbar.grant = none →
    unfinished PacketBeat.last (!c.framer.isIdle) c.leaving.contents = false

/-- A user that is idle has sent whole packets, if it had or sends the end of one. -/
theorem unfinished_fill {σ : Type} {t : Transfer σ PacketBeat} {q : Channel PacketBeat}
    (hready : t.sent.isSome = true → q.ready = true) {begun : Bool} {idle idle' : Prop}
    (hsent : idle' → idle ∧ t.sent = none ∨ ∃ word, t.sent = some word ∧ word.last = true)
    (h : idle → unfinished PacketBeat.last begun q.contents = false) :
    idle' → unfinished PacketBeat.last begun (t.fill q).contents = false := by
  intro hidle
  have hfill : (t.fill q).contents = q.contents ++ t.sent.toList :=
    t.contents_fill q trivial hready
  rw [hfill]
  obtain ⟨hidle, hnone⟩ | ⟨word, hword, hlast⟩ := hsent hidle
  · simp [hnone, h hidle]
  · simp [hword, hlast]

theorem stepDeframer_whole (h : c.Whole) : c.stepDeframer.Whole := by
  let t := c.deframer.tick c.inbound.peek c.arriving.ready
  have hfill : (t.fill c.arriving).contents = c.arriving.contents ++ t.sent.toList :=
    t.contents_fill c.arriving trivial Deframer.ready_of_sent
  refine { h with arriving := ?_ }
  show unfinished PacketBeat.last c.crossbar.route.isSome
    ((t.fill c.arriving).contents ++ t.next.phase.owed) = false
  rw [hfill, List.append_assoc, unfinished_append]
  obtain hsame | hwhole := c.deframer.tick_whole c.inbound.peek c.arriving.ready
  · rw [show t.sent.toList ++ t.next.phase.owed = _ from hsame, ← unfinished_append]
    exact h.arriving
  · exact hwhole _

theorem stepCrossbar_whole (hwired : c.Wired) (h : c.Whole) : c.stepCrossbar.Whole := by
  let t := c.crossbar.tick c.arriving.peek c.leaving.ready
  obtain ⟨⟨hroute, hcontinues, -, -⟩, hwithin, hfree, -⟩ :=
    Crossbar.tick_whole hwired.nodup hwired.known c.arriving.peek c.leaving.ready
  have hsent : (t.fill c.leaving).contents = c.leaving.contents ++ t.sent.toList :=
    t.contents_fill c.leaving trivial
      (Crossbar.arbitrate_serves hwired.known c.leaving.ready).ready
  have hdrain : unfinished PacketBeat.last t.next.route.isSome (t.drain c.arriving).contents =
      unfinished PacketBeat.last c.crossbar.route.isSome c.arriving.contents :=
    c.arriving.unfinished_drain t hroute
  refine
    { h with
      arriving := ?_
      requests := hcontinues _ _ h.requests
      tlps := hcontinues _ _ h.tlps
      answers := fun hidle => (hwithin _).trans (h.answers hidle)
      packets := fun hidle => (hwithin _).trans (h.packets hidle)
      leaving := fun hgrant => ?_ }
  · have harriving := h.arriving
    rw [unfinished_append, ← hdrain, ← unfinished_append] at harriving
    exact harriving
  · have hleaving := hfree _ _ h.leaving hgrant
    rw [← show (t.fill c.leaving).contents = _ from hsent] at hleaving
    exact hleaving

theorem stepFramer_whole (h : c.Whole) : c.stepFramer.Whole := by
  let t := c.framer.tick c.leaving.peek c.outbound.ready
  have hdrain : unfinished PacketBeat.last (!t.next.isIdle) (t.drain c.leaving).contents =
      unfinished PacketBeat.last (!c.framer.isIdle) c.leaving.contents :=
    c.leaving.unfinished_drain t (c.framer.tick_whole c.leaving.peek c.outbound.ready)
  exact { h with leaving := fun hgrant => hdrain.trans (h.leaving hgrant) }

theorem stepDeserializer_whole (hwired : c.Wired) (h : c.Whole) : c.stepDeserializer.Whole := by
  obtain ⟨port, hport⟩ := hwired.exists_port c.tlpTag (by simp)
  have hstep := stepDeserializer_eq hport
  have hwhole := c.deserializer.tick_whole port.source.peek c.down.ready
    (unfinished Beat.last (!c.endpoint.inbound.isEmpty) c.down.contents)
  have hready := (c.deserializer.tick_conserves port.source.peek c.down.ready).ready
  set t := c.deserializer.tick port.source.peek c.down.ready
  have hx := Crossbar.touches_modifyPort hport
    (f := fun p => { p with source := t.drain port.source }) fun _ => rfl
  have hfill : (t.fill c.down).contents = c.down.contents ++ t.sent.toList :=
    t.contents_fill c.down trivial hready
  rw [hstep]
  exact
    { h with
      requests := hx.continues_other hwired.distinct h.requests
      tlps := hx.continues (by
        rw [hfill, unfinished_append]
        exact port.source.unfinished_drain t hwhole) h.tlps
      answers := fun hidle => (hx.unfinished_other hwired.distinct).trans (h.answers hidle)
      packets := fun hidle => by
        have hpackets := h.packets hidle
        rw [hx.sink] at hpackets
        rw [hx.within, hx.sink']
        exact hpackets }

theorem stepSerializer_whole (hwired : c.Wired) (hmeasured : c.Measured) (h : c.Whole) :
    c.stepSerializer.Whole := by
  obtain ⟨port, hport⟩ := hwired.exists_port c.tlpTag (by simp)
  have hstep := stepSerializer_eq hport
  obtain ⟨hbegun, hlast⟩ := Tlp.Serializer.tick_whole hmeasured c.up.peek port.sink.ready
  have hready := (Tlp.Serializer.tick_keeps hwired.sound c.up.peek port.sink.ready).2
  set t := c.serializer.tick c.up.peek port.sink.ready
  have hx := Crossbar.touches_modifyPort hport
    (f := fun p => { p with sink := t.fill port.sink }) fun _ => rfl
  have hdrain := c.up.unfinished_drain t hbegun
  have hpackets := h.packets
  rw [hx.sink] at hpackets
  rw [hstep]
  exact
    { h with
      requests := hx.continues_other hwired.distinct h.requests
      tlps := hx.continues rfl h.tlps
      completions := by
        rw [unfinished_append, hdrain, ← unfinished_append]
        exact h.completions
      answers := fun hidle => (hx.unfinished_other hwired.distinct).trans (h.answers hidle)
      packets := fun hidle => by
        rw [hx.within, hx.sink']
        exact unfinished_fill hready hlast hpackets hidle }

theorem stepResponder_whole (hwired : c.Wired) (h : c.Whole) : c.stepResponder.Whole := by
  obtain ⟨port, hport⟩ := hwired.exists_port c.etherboneTag (by simp)
  have hstep := stepResponder_eq hport
  obtain ⟨hrequest, hlast⟩ := c.responder.tick_whole c.bus port.source.peek port.sink.ready
  have hready :
      (c.responder.tick c.bus port.source.peek port.sink.ready).sent.isSome = true →
        port.sink.ready = true :=
    c.responder.ready_of_sent c.bus
  set t := c.responder.tick c.bus port.source.peek port.sink.ready
  have hx := Crossbar.touches_modifyPort hport
    (f := fun p => { p with source := t.drain port.source, sink := t.fill port.sink }) fun _ => rfl
  have hanswers := h.answers
  rw [hx.sink] at hanswers
  rw [hstep]
  exact
    { h with
      requests := hx.continues (port.source.unfinished_drain t hrequest) h.requests
      tlps := hx.continues_other hwired.distinct.symm h.tlps
      answers := fun hidle => by
        rw [hx.within, hx.sink']
        exact unfinished_fill hready hlast hanswers hidle
      packets := fun hidle =>
        (hx.unfinished_other hwired.distinct.symm).trans (h.packets hidle) }

theorem stepEndpoint_whole (h : c.Whole) : c.stepEndpoint.Whole := by
  let t := c.endpoint.tick c.down.peek c.interrupts.peek c.up.ready
  obtain ⟨hinbound, houtbound⟩ :=
    c.endpoint.tick_whole c.down.peek c.interrupts.peek c.up.ready
  obtain ⟨hconserves, -, -⟩ :=
    c.endpoint.tick_conserves c.down.peek c.interrupts.peek c.up.ready
  have hfill : (t.fill c.up).contents = c.up.contents ++ t.sent.toList :=
    t.contents_fill c.up trivial hconserves.ready
  have hdrain : unfinished Beat.last (!t.next.inbound.isEmpty) (t.drain c.down).contents =
      unfinished Beat.last (!c.endpoint.inbound.isEmpty) c.down.contents :=
    c.down.unfinished_drain t fun xs => by
      rw [← hinbound]
      rfl
  refine { h with tlps := ?_, completions := ?_ }
  · have htlps := h.tlps
    rw [← hdrain] at htlps
    exact htlps
  · have hcompletions := h.completions
    rw [unfinished_append] at hcompletions
    have hout := houtbound _ hcompletions
    rw [← unfinished_append, ← List.append_assoc, ← hfill] at hout
    exact hout

theorem step_whole (hwired : c.Wired) (hmeasured : c.Measured) (h : c.Whole) (stage : Stage) :
    (c.step stage).Whole := by
  cases stage with
  | deframer => exact stepDeframer_whole h
  | crossbar => exact stepCrossbar_whole hwired h
  | framer => exact stepFramer_whole h
  | deserializer => exact stepDeserializer_whole hwired h
  | serializer => exact stepSerializer_whole hwired hmeasured h
  | responder => exact stepResponder_whole hwired h
  | bus => exact { h with }
  | endpoint => exact stepEndpoint_whole h

theorem commit_whole (h : c.Whole) : c.commit.Whole := by
  have hsource (tag : UInt8) : c.crossbar.commit.sourceOf tag = c.crossbar.sourceOf tag :=
    c.crossbar.sourceOf_commit tag
  have hsink (tag : UInt8) : c.crossbar.commit.sinkOf tag = c.crossbar.sinkOf tag :=
    c.crossbar.sinkOf_commit tag
  exact
    { arriving := by
        rw [← h.arriving, ← c.arriving.contents_commit]
        rfl
      requests := fun hbegun => h.requests (by rwa [← hsource])
      tlps := fun hbegun => h.tlps (by
        rw [← hsource, ← c.down.contents_commit]
        exact hbegun)
      completions := by
        rw [← h.completions, ← c.up.contents_commit]
        rfl
      answers := fun hidle => by
        rw [← h.answers hidle, ← hsink]
        rfl
      packets := fun hidle => by
        rw [← h.packets hidle, ← hsink]
        rfl
      leaving := fun hgrant => by
        rw [← h.leaving hgrant, ← c.leaving.contents_commit]
        rfl }

/-- Where nothing is under way everything is whole. -/
theorem whole_of_idle
    (hcrossbar : c.crossbar.isIdle = true ∧ c.arriving.contents = [] ∧ c.leaving.contents = [])
    (hframing : c.deframer.isIdle = true ∧ c.framer.isIdle = true)
    (htlp : c.serializer.isIdle = true ∧ c.deserializer.low = none ∧ c.endpoint.isIdle = true ∧
      c.down.contents = [] ∧ c.up.contents = [])
    (hetherbone : c.responder.isIdle = true) : c.Whole := by
  obtain ⟨hcrossbar, harriving, hleaving⟩ := hcrossbar
  obtain ⟨hserializer, hlow, hendpoint, hdown, hup⟩ := htlp
  obtain ⟨⟨hgrant, hroute⟩, -⟩ :
      (c.crossbar.grant = none ∧ c.crossbar.route = none) ∧ _ := by
    simpa [Crossbar.isIdle] using hcrossbar
  obtain ⟨⟨-, hbuffer⟩, hskipping⟩ :
      (_ ∧ c.serializer.buffer = []) ∧ c.serializer.skipping = false := by
    simpa [Tlp.Serializer.isIdle] using hserializer
  obtain ⟨hinbound, houtbound⟩ : c.endpoint.inbound = #[] ∧ c.endpoint.outbound = [] := by
    simpa [Tlp.Endpoint.isIdle] using hendpoint
  obtain ⟨hrequest, -⟩ : c.responder.request = #[] ∧ _ := by
    simpa [Etherbone.Responder.isIdle] using hetherbone
  have howed : c.deframer.phase.owed = [] := by
    rw [(Deframer.isIdle_iff _).mp hframing.1]
    rfl
  have hsink (tag : UInt8) : c.crossbar.sinkOf tag = [] :=
    (Crossbar.contents_of_isIdle hcrossbar tag).1
  have hsource (tag : UInt8) : c.crossbar.sourceOf tag = [] :=
    (Crossbar.contents_of_isIdle hcrossbar tag).2
  exact
    { arriving := by simp [harriving, howed, hroute]
      requests := by simp [Crossbar.Continues, hsource, hrequest]
      tlps := by simp [Crossbar.Continues, hsource, hlow, hinbound, hdown]
      completions := by simp [Tlp.Serializer.begun, hskipping, hbuffer, hup, houtbound]
      answers := by simp [Crossbar.within, hgrant, hsink]
      packets := by simp [Crossbar.within, hgrant, hsink]
      leaving := by simp [hframing.2, hleaving] }

/-! ## sizes -/

/-- The timeout of the deframer and the room in the queues. -/
def sizes (c : Core) : List Nat :=
  [c.deframer.timeout, c.inbound.capacity - 1, c.outbound.capacity - 1, c.arriving.capacity,
    c.leaving.capacity, c.down.capacity, c.up.capacity, c.interrupts.capacity] ++ c.crossbar.rooms

/-- The sizes are settings. -/
theorem sizes_congr {c c' : Core} (h : c'.blank = c.blank) : c'.sizes = c.sizes := by
  have hsizes (c : Core) : c.blank.sizes = c.sizes := by
    simp [sizes, blank, Deframer.reset, Deframer.goto]
  rw [← hsizes, h, hsizes]

/-- No step changes the sizes. -/
theorem step_sizes (h : c.Wired) (stage : Stage) : (c.step stage).sizes = c.sizes :=
  sizes_congr (step_blank h stage)

theorem commit_sizes (c : Core) : c.commit.sizes = c.sizes :=
  sizes_congr c.commit_blank

theorem reset_sizes (c : Core) : c.reset.sizes = c.sizes :=
  sizes_congr c.reset_blank

/-! ## all of it -/

/-- **What is true of a domain at all times.** -/
structure Orderly (c : Core) : Prop where
  wired : c.Wired
  measured : c.Measured
  routed : c.crossbar.RouteKnown
  roomy : ∀ n ∈ c.sizes, 0 < n
  whole : c.Whole

theorem Orderly.on (h : c.Orderly) : 0 < c.deframer.timeout :=
  h.roomy _ (by simp [sizes])

/-- Stages stay wired together, whatever the bus is doing. -/
theorem step_wired (h : c.Wired) (stage : Stage) : (c.step stage).Wired := by
  cases stage with
  | deframer => exact (stepDeframer_advances h).2
  | crossbar => exact (stepCrossbar_follows h).wired
  | framer => exact (stepFramer_follows h).wired
  | deserializer => exact (stepDeserializer_follows h).wired
  | serializer => exact stepSerializer_wired h
  | responder =>
      obtain ⟨port, hport⟩ := h.exists_port c.etherboneTag (by simp)
      obtain ⟨htag, hblank⟩ := c.responder.tick_settings c.bus port.source.peek port.sink.ready
      have hstep := stepResponder_eq hport
      set t := c.responder.tick c.bus port.source.peek port.sink.ready
      have hx := Crossbar.touches_modifyPort hport
        (f := fun p => { p with source := t.drain port.source, sink := t.fill port.sink })
        fun _ => rfl
      rw [step, hstep]
      exact { h with
        tags := hx.tags.trans h.tags
        responder := htag.trans h.responder
        known := known_touches hx h.known
        controllers := (Wishbone.Bus.kinds_congr hblank).symm ▸ h.controllers }
  | bus => exact (stepBus_follows h).wired
  | endpoint => exact (stepEndpoint_follows h).wired

/-- The lengths on the way to the serializer go on fitting. -/
theorem step_measured (hwired : c.Wired) (h : c.Measured) (stage : Stage) :
    (c.step stage).Measured := by
  obtain ⟨port, hport⟩ := hwired.exists_port c.etherboneTag (by simp)
  cases stage with
  | deframer => exact h
  | crossbar => exact (stepCrossbar_follows hwired).measured h
  | framer => exact (stepFramer_follows hwired).measured h
  | deserializer => exact (stepDeserializer_follows hwired).measured h
  | serializer => exact (stepSerializer_follows hwired h).measured h
  | responder =>
      rw [step, stepResponder_eq hport]
      exact h
  | bus => exact (stepBus_follows hwired).measured h
  | endpoint => exact stepEndpoint_measured h

/-- A packet in progress keeps its destination. -/
theorem step_routed (hwired : c.Wired) (h : c.crossbar.RouteKnown) (stage : Stage) :
    (c.step stage).crossbar.RouteKnown := by
  have htouched {tag : UInt8} {f : Port → Port} (hf : ∀ p, (f p).tag = p.tag) :
      (c.crossbar.modifyPort tag f).RouteKnown := by
    intro tag' htag
    rw [Crossbar.tags_modifyPort _ _ hf]
    exact h tag' htag
  obtain ⟨port, hport⟩ := hwired.exists_port c.tlpTag (by simp)
  cases stage with
  | deframer | framer | bus | endpoint => exact h
  | crossbar =>
      exact (Crossbar.tick_whole hwired.nodup hwired.known _ _).1.known h
  | deserializer =>
      rw [step, stepDeserializer_eq hport]
      exact htouched fun _ => rfl
  | serializer =>
      rw [step, stepSerializer_eq hport]
      exact htouched fun _ => rfl
  | responder =>
      obtain ⟨port, hport⟩ := hwired.exists_port c.etherboneTag (by simp)
      rw [step, stepResponder_eq hport]
      exact htouched fun _ => rfl

theorem Orderly.step (h : c.Orderly) (stage : Stage) : (c.step stage).Orderly where
  wired := step_wired h.wired stage
  measured := step_measured h.wired h.measured stage
  routed := step_routed h.wired h.routed stage
  roomy := by
    rw [step_sizes h.wired]
    exact h.roomy
  whole := step_whole h.wired h.measured h.whole stage

theorem Orderly.foldl (h : c.Orderly) (stages : List Stage) : (stages.foldl Core.step c).Orderly := by
  induction stages generalizing c with
  | nil => exact h
  | cons stage stages ih => exact ih (h.step stage)

theorem Orderly.commit (h : c.Orderly) : c.commit.Orderly where
  wired := (commit_advances h.wired).2
  measured := commit_measured h.measured
  routed := fun tag htag => (c.crossbar.tags_commit).symm ▸ h.routed tag htag
  roomy := by
    rw [commit_sizes]
    exact h.roomy
  whole := commit_whole h.whole

/-- What has been counted makes no difference. -/
theorem Orderly.count (h : c.Orderly) (counted : Counters) : (c.count counted).Orderly where
  wired := { h.wired with }
  measured := h.measured
  routed := h.routed
  roomy := h.roomy
  whole := { h.whole with }

theorem Orderly.tick (h : c.Orderly) : c.tick.Orderly :=
  ((h.foldl Stage.all).count _).commit

/-- Starting over leaves the stages wired together. -/
theorem Wired.reset (h : c.Wired) : c.reset.Wired :=
  { h with
    tags := (c.crossbar.tags_reset).trans h.tags
    sound := Tlp.Serializer.sound_reset h.sound
    known := nofun
    controllers := (Wishbone.Bus.kinds_congr c.bus.blank_reset).symm ▸ h.controllers }

/-- **Starting over leaves a domain in order.** -/
theorem Orderly.reset (h : c.Orderly) : c.reset.Orderly where
  wired := h.wired.reset
  measured := (Tlp.Serializer.sound_reset h.wired.sound).measured rfl
  routed := nofun
  roomy := by
    rw [reset_sizes]
    exact h.roomy
  whole := by
    have hcrossbar := c.crossbar.isIdle_reset
    exact whole_of_idle ⟨hcrossbar, rfl, rfl⟩ ⟨rfl, rfl⟩ ⟨rfl, rfl, rfl, rfl, rfl⟩ rfl

/-- **A domain with nothing under way is in order**, if its stages are wired together and every queue
has room. -/
theorem Wired.orderly (h : c.Wired) (hroomy : ∀ n ∈ c.sizes, 0 < n) (hidle : c.isIdle = true) :
    c.Orderly := by
  obtain ⟨⟨-, -, hframing⟩, hcrossbar, htlp, hetherbone, -⟩ := idle_parts hidle
  have hroute : c.crossbar.route = none := by
    have := hcrossbar.1
    simp_all [Crossbar.isIdle]
  refine ⟨h, h.measured hidle, fun tag htag => ?_, hroomy, whole_of_idle hcrossbar hframing htlp hetherbone⟩
  rw [hroute] at htag
  contradiction

end Core

end LinkBridge
