import LinkBridge.Proofs.Progress.Crossbar
import LinkBridge.Proofs.Progress.Etherbone
import LinkBridge.Proofs.Progress.Framing
import LinkBridge.Proofs.Progress.Tlp
import LinkBridge.Proofs.System.Stages
import Mathlib.Data.Prod.Lex

/-!
# LinkBridge.Proofs.Progress.Domain

Progress of the system domain. Its load has four levels, from the words that have not been read to
the words that have not been sent, and work on one level may add to those behind it: a word of a
request may call for any number of words of answers. A stage either works off the load, or it changes
nothing but totals and waits for something (`step_load`).
-/

namespace LinkBridge

namespace Core

/-! ## the load -/

section

variable (c : Core)

/-- The beats on their way to the users. -/
def routingLoad : Nat :=
  c.deframer.load + 3 * c.arriving.contents.length + c.crossbar.inboundLoad

/-- The interrupts and the beats of TLPs on their way to the endpoint. -/
def servingLoad : Nat :=
  2 * c.bus.load + c.interrupts.contents.length + c.down.contents.length

/-- What is on its way to the link. -/
def replyLoad : Nat :=
  36 * c.endpoint.outbound.length + 35 * c.up.contents.length + c.serializer.load +
    16 * c.responder.response.length + c.crossbar.outboundLoad + 13 * c.leaving.contents.length +
    c.framer.load + c.outbound.load

/-- All there is to do, the words ahead of the domain included. -/
def load (ahead : Nat) : ℕ ×ₗ ℕ ×ₗ ℕ ×ₗ ℕ :=
  toLex (ahead + c.inbound.load, toLex (c.routingLoad, toLex (c.servingLoad, c.replyLoad)))

end

/-! Load of a level counts for more than any load behind it. -/

section

variable {c c' : Core}

theorem load_lt_of_inbound (h : c'.inbound.load < c.inbound.load) (ahead : Nat) :
    c'.load ahead < c.load ahead := by
  simp only [load, Prod.Lex.toLex_lt_toLex]
  omega

theorem load_lt_of_routing (hinbound : c'.inbound.load ≤ c.inbound.load)
    (h : c'.routingLoad < c.routingLoad) (ahead : Nat) : c'.load ahead < c.load ahead := by
  simp only [load, Prod.Lex.toLex_lt_toLex]
  omega

theorem load_lt_of_serving (hinbound : c'.inbound.load ≤ c.inbound.load)
    (hrouting : c'.routingLoad ≤ c.routingLoad) (h : c'.servingLoad < c.servingLoad)
    (ahead : Nat) : c'.load ahead < c.load ahead := by
  simp only [load, Prod.Lex.toLex_lt_toLex]
  omega

theorem load_lt_of_reply (hinbound : c'.inbound.load ≤ c.inbound.load)
    (hrouting : c'.routingLoad ≤ c.routingLoad) (hserving : c'.servingLoad ≤ c.servingLoad)
    (h : c'.replyLoad < c.replyLoad) (ahead : Nat) : c'.load ahead < c.load ahead := by
  simp only [load, Prod.Lex.toLex_lt_toLex]
  omega

theorem load_mono (hinbound : c'.inbound.load ≤ c.inbound.load)
    (hrouting : c'.routingLoad ≤ c.routingLoad) (hserving : c'.servingLoad ≤ c.servingLoad)
    (hreply : c'.replyLoad ≤ c.replyLoad) (ahead : Nat) : c'.load ahead ≤ c.load ahead := by
  simp only [load, Prod.Lex.toLex_le_toLex]
  omega

end

/-- What a stage waits for. -/
def Waits (c : Core) : Stage → Prop
  | .deframer => c.arriving.ready = true → c.deframer.phase = .hunt ∧ c.inbound.peek = none
  | .crossbar => c.crossbar.Waits c.arriving.peek c.leaving.ready
  | .framer => c.outbound.ready = true → c.leaving.peek = none
  | .deserializer => ∀ p, c.crossbar.port? c.tlpTag = some p → c.down.ready = true →
    p.source.peek = none
  | .serializer => ∀ p, c.crossbar.port? c.tlpTag = some p → p.sink.ready = true →
    c.serializer.phase = .idle ∧ c.serializer.complete = 0 ∧ c.up.peek = none
  | .responder => ∀ p, c.crossbar.port? c.etherboneTag = some p → p.sink.ready = true →
    c.responder.response = [] ∧ p.source.peek = none
  | .bus => c.interrupts.ready = true → c.bus.isIdle = true
  | .endpoint => c.down.peek = none ∧ c.interrupts.peek = none ∧
    (c.up.ready = true → c.endpoint.outbound = [])

/-- A step that works off the load, or changes nothing but totals while the stage waits. -/
def Works (c c' : Core) (waits : Prop) : Prop :=
  (∀ ahead, c'.load ahead < c.load ahead) ∨ (∃ counters, c' = { c with counters }) ∧ waits

/-! ## stage by stage -/

section

variable {c : Core}

theorem Wired.nodup (h : c.Wired) : c.crossbar.tags.Nodup := by
  simp [h.tags, h.distinct]

theorem stepDeframer_works (hon : 0 < c.deframer.timeout) :
    c.Works c.stepDeframer (c.Waits .deframer) := by
  have hload := Deframer.tick_load hon c.inbound.peek c.arriving.ready
  set t := c.deframer.tick c.inbound.peek c.arriving.ready
  have hstep : c.stepDeframer = { c with
      deframer := t.next, inbound := t.drain c.inbound, arriving := t.fill c.arriving
      counters := c.counters + t.counted } := rfl
  have hinbound := c.inbound.load_drain t
  have harriving := c.arriving.length_fill_le t
  rw [hstep]
  obtain htaken | hlighter | ⟨hrests, hwaits⟩ := hload
  · have hpos := List.length_pos_iff.mpr htaken
    exact .inl (load_lt_of_inbound (by simp only; omega))
  · refine .inl (load_lt_of_routing (by simp only; omega) ?_)
    simp only [routingLoad]
    omega
  · refine .inr ⟨⟨c.counters + t.counted, ?_⟩, hwaits⟩
    rw [hrests.next, hrests.drain, hrests.fill]

theorem stepCrossbar_works (h : c.Wired) : c.Works c.stepCrossbar (c.Waits .crossbar) := by
  have hload := Crossbar.tick_load h.nodup h.known c.arriving.peek c.leaving.ready
  set t := c.crossbar.tick c.arriving.peek c.leaving.ready
  have hstep : c.stepCrossbar = { c with
      crossbar := t.next, arriving := t.drain c.arriving, leaving := t.fill c.leaving
      counters := c.counters + t.counted } := rfl
  have harriving := c.arriving.length_drain t
  have hleaving := c.leaving.length_fill_le t
  rw [hstep]
  obtain hlighter | ⟨⟨hsame, -⟩, hlighter⟩ | ⟨hrests, hwaits⟩ := hload
  · refine .inl (load_lt_of_routing (le_refl _) ?_)
    simp only [routingLoad]
    omega
  · refine .inl (load_lt_of_reply (le_refl _) ?_ (le_refl _) ?_)
    · simp only [routingLoad]
      omega
    · simp only [replyLoad]
      omega
  · refine .inr ⟨⟨c.counters + t.counted, ?_⟩, hwaits⟩
    rw [hrests.next, hrests.drain, hrests.fill]

theorem stepFramer_works : c.Works c.stepFramer (c.Waits .framer) := by
  have hload := c.framer.tick_load c.leaving.peek c.outbound.ready
  set t := c.framer.tick c.leaving.peek c.outbound.ready
  have hstep : c.stepFramer = { c with
      framer := t.next, leaving := t.drain c.leaving, outbound := t.fill c.outbound
      counters := c.counters + t.counted } := rfl
  have hleaving := c.leaving.length_drain t
  have houtbound := c.outbound.load_fill_le t
  rw [hstep]
  obtain hlighter | ⟨hrests, hwaits⟩ := hload
  · refine .inl (load_lt_of_reply (le_refl _) (le_refl _) (le_refl _) ?_)
    simp only [replyLoad]
    omega
  · refine .inr ⟨⟨c.counters + t.counted, ?_⟩, hwaits⟩
    rw [hrests.next, hrests.drain, hrests.fill]

theorem stepBus_works (h : c.Wired) : c.Works c.stepBus (c.Waits .bus) := by
  have hload := Wishbone.Bus.tick_load h.controllers c.interrupts.ready
  set t := c.bus.tick c.interrupts.ready
  have hstep : c.stepBus = { c with
      bus := t.next, interrupts := t.fill c.interrupts, counters := c.counters + t.counted } := rfl
  have hinterrupts := c.interrupts.length_fill_le t
  rw [hstep]
  obtain hlighter | ⟨⟨hnext, hsent⟩, hwaits⟩ := hload
  · refine .inl (load_lt_of_serving (le_refl _) (le_refl _) ?_)
    simp only [servingLoad]
    omega
  · refine .inr ⟨⟨c.counters + t.counted, ?_⟩, hwaits⟩
    simp only [hnext, Transfer.fill, hsent]

theorem stepEndpoint_works : c.Works c.stepEndpoint (c.Waits .endpoint) := by
  have hload := c.endpoint.tick_load c.down.peek c.interrupts.peek c.up.ready
  set t := c.endpoint.tick c.down.peek c.interrupts.peek c.up.ready
  have htaken : t.taken = true := rfl
  have hstep : c.stepEndpoint = { c with
      endpoint := t.next, down := t.drain c.down, interrupts := t.drain c.interrupts
      up := t.fill c.up, counters := c.counters + t.counted } := rfl
  have hdown := c.down.length_drain t
  have hinterrupts := c.interrupts.length_drain t
  have hup := c.up.length_fill_le t
  rw [hstep]
  obtain hbeat | hvector | hlighter | ⟨⟨hbeat, hvector⟩, hnext, hsent, hready⟩ := hload
  · refine .inl (load_lt_of_serving (le_refl _) (le_refl _) ?_)
    obtain ⟨beat, hpeek⟩ := Option.ne_none_iff_exists'.mp hbeat
    rw [hpeek, Transfer.length_removed_of_taken htaken] at hdown
    simp only [servingLoad]
    omega
  · refine .inl (load_lt_of_serving (le_refl _) (le_refl _) ?_)
    obtain ⟨vector, hpeek⟩ := Option.ne_none_iff_exists'.mp hvector
    rw [hpeek, Transfer.length_removed_of_taken htaken] at hinterrupts
    simp only [servingLoad]
    omega
  · refine .inl (load_lt_of_reply (le_refl _) (le_refl _) ?_ ?_)
    · simp only [servingLoad]
      omega
    · simp only [replyLoad]
      omega
  · refine .inr ⟨⟨c.counters + t.counted, ?_⟩, hbeat, hvector, hready⟩
    have hkeep {α : Type} (q : Channel α) (hpeek : q.peek = none) : t.drain q = q := by
      show (if t.taken then q.take else q) = q
      simp [Channel.take, hpeek]
    rw [hnext, hkeep _ hbeat, hkeep _ hvector]
    simp only [Transfer.fill, hsent]

theorem stepDeserializer_eq {port : Port} (hport : c.crossbar.port? c.tlpTag = some port) :
    let t := c.deserializer.tick port.source.peek c.down.ready
    c.stepDeserializer = { c with
      deserializer := t.next, down := t.fill c.down
      crossbar := c.crossbar.modifyPort c.tlpTag fun p => { p with source := t.drain port.source }
      counters := c.counters + t.counted } := by
  rw [stepDeserializer, hport]
  rfl

theorem stepSerializer_eq {port : Port} (hport : c.crossbar.port? c.tlpTag = some port) :
    let t := c.serializer.tick c.up.peek port.sink.ready
    c.stepSerializer = { c with
      serializer := t.next, up := t.drain c.up
      crossbar := c.crossbar.modifyPort c.tlpTag fun p => { p with sink := t.fill port.sink }
      counters := c.counters + t.counted } := by
  rw [stepSerializer, hport]
  rfl

theorem stepResponder_eq {port : Port} (hport : c.crossbar.port? c.etherboneTag = some port) :
    let t := c.responder.tick c.bus port.source.peek port.sink.ready
    c.stepResponder = { c with
      responder := t.next.1, bus := t.next.2
      crossbar := c.crossbar.modifyPort c.etherboneTag fun p =>
        { p with source := t.drain port.source, sink := t.fill port.sink }
      counters := c.counters + t.counted } := by
  rw [stepResponder, hport]
  rfl

theorem stepDeserializer_works (h : c.Wired) :
    c.Works c.stepDeserializer (c.Waits .deserializer) := by
  obtain ⟨port, hport⟩ := h.exists_port c.tlpTag (by simp)
  have hload := c.deserializer.tick_load port.source.peek c.down.ready
  have hstep := stepDeserializer_eq hport
  set t := c.deserializer.tick port.source.peek c.down.ready
  have htouches := Crossbar.touches_modifyPort hport
    (f := fun p => { p with source := t.drain port.source }) fun _ => rfl
  have hsource := htouches.inboundLoad h.nodup hport
  have hdrain := port.source.length_drain t
  rw [hstep]
  obtain htaken | ⟨hrests, hwaits⟩ := hload
  · refine .inl (load_lt_of_routing (le_refl _) ?_)
    have hpos := List.length_pos_iff.mpr htaken
    simp only [routingLoad] at hsource ⊢
    omega
  · refine .inr ⟨⟨c.counters + t.counted, ?_⟩, by simpa [Waits, hport] using hwaits⟩
    rw [hrests.next, hrests.fill, hrests.drain, Crossbar.modifyPort_self h.nodup hport rfl]

theorem stepSerializer_works (h : c.Wired) (hmeasured : c.Measured) :
    c.Works c.stepSerializer (c.Waits .serializer) := by
  obtain ⟨port, hport⟩ := h.exists_port c.tlpTag (by simp)
  have hload := Tlp.Serializer.tick_load hmeasured c.up.peek port.sink.ready
  have hstep := stepSerializer_eq hport
  set t := c.serializer.tick c.up.peek port.sink.ready
  have htouches := Crossbar.touches_modifyPort hport
    (f := fun p => { p with sink := t.fill port.sink }) fun _ => rfl
  have hsource := htouches.inboundLoad h.nodup hport
  have hsink := htouches.outboundLoad h.nodup hport
  have hdrain := c.up.length_drain t
  have hfill := port.sink.length_fill_le t
  rw [hstep]
  obtain hlighter | ⟨hrests, hwaits⟩ := hload
  · refine .inl (load_lt_of_reply (le_refl _) ?_ (le_refl _) ?_)
    · simp only [routingLoad] at hsource ⊢
      omega
    · simp only [replyLoad] at hsink ⊢
      omega
  · refine .inr ⟨⟨c.counters + t.counted, ?_⟩, by simpa [Waits, hport] using hwaits⟩
    rw [hrests.next, hrests.fill, hrests.drain, Crossbar.modifyPort_self h.nodup hport rfl]

theorem stepResponder_works (h : c.Wired) :
    c.Works c.stepResponder (c.Waits .responder) := by
  obtain ⟨port, hport⟩ := h.exists_port c.etherboneTag (by simp)
  have hload := c.responder.tick_load c.bus port.source.peek port.sink.ready
  have hstep := stepResponder_eq hport
  set t := c.responder.tick c.bus port.source.peek port.sink.ready
  have htouches := Crossbar.touches_modifyPort hport
    (f := fun p => { p with source := t.drain port.source, sink := t.fill port.sink }) fun _ => rfl
  have hsource := htouches.inboundLoad h.nodup hport
  have hsink := htouches.outboundLoad h.nodup hport
  have hdrain := port.source.length_drain t
  have hfill := port.sink.length_fill_le t
  rw [hstep]
  obtain htaken | ⟨hbus, hlighter⟩ | ⟨hrests, hwaits⟩ := hload
  · refine .inl (load_lt_of_routing (le_refl _) ?_)
    have hpos := List.length_pos_iff.mpr htaken
    simp only [routingLoad] at hsource ⊢
    omega
  · refine .inl (load_lt_of_reply (le_refl _) ?_ ?_ ?_)
    · simp only [routingLoad] at hsource ⊢
      omega
    · simp only [servingLoad, hbus]
      exact le_refl _
    · simp only [replyLoad] at hsink ⊢
      omega
  · refine .inr ⟨⟨c.counters + t.counted, ?_⟩, by simpa [Waits, hport] using hwaits⟩
    rw [hrests.next, hrests.fill, hrests.drain, Crossbar.modifyPort_self h.nodup hport rfl]

end

/-- **A stage works off the load or waits.** -/
theorem step_works {c : Core} (h : c.Wired) (hmeasured : c.Measured)
    (hon : 0 < c.deframer.timeout) (stage : Stage) :
    c.Works (c.step stage) (c.Waits stage) := by
  cases stage with
  | deframer => exact stepDeframer_works hon
  | crossbar => exact stepCrossbar_works h
  | framer => exact stepFramer_works
  | deserializer => exact stepDeserializer_works h
  | serializer => exact stepSerializer_works h hmeasured
  | responder => exact stepResponder_works h
  | bus => exact stepBus_works h
  | endpoint => exact stepEndpoint_works

end Core

end LinkBridge
