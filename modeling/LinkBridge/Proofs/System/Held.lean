import LinkBridge.Proofs.System.Reachable
import LinkBridge.Proofs.Tlp.Codec
import LinkBridge.Proofs.Tlp.Unsendable

/-!
# LinkBridge.Proofs.System.Held

A bridge that is given a TLP its serializer cannot send. Beats come to the serializer from the
endpoint only, so if that is silent no beat comes but those of the TLP, whatever the host sends. The
TLP is then held as by a serializer alone, and the bridge is not idle again
(`isIdle_undergo_inject`).
-/

namespace LinkBridge

open Tlp (Record)

namespace Core

variable {c : Core} {tlp : List Tlp.Beat}

/-- A domain whose endpoint is silent and whose serializer holds a TLP that it cannot send. -/
structure Holds (c : Core) (tlp : List Tlp.Beat) : Prop where
  silent : c.endpoint.autoComplete = false
  held : c.serializer.Held tlp (c.up.contents ++ c.endpoint.outbound)

/-- What is on its way reaches the serializer. -/
theorem Holds.stepSerializer (h : c.Holds tlp) : c.stepSerializer.Holds tlp := by
  unfold Core.stepSerializer
  split
  · exact h
  · next port _ =>
    let t := c.serializer.tick c.up.peek port.sink.ready
    have hup : c.up.contents ++ c.endpoint.outbound =
        c.up.peek.toList ++ (c.up.take.contents ++ c.endpoint.outbound) := by
      rw [c.up.contents_take, List.append_assoc]
    have hleft : (t.drain c.up).contents = t.left c.up.peek ++ c.up.take.contents :=
      t.contents_drain c.up
    have hheld := Tlp.Serializer.Held.tick (hup ▸ h.held) port.sink.ready
    rw [← List.append_assoc, ← hleft] at hheld
    exact ⟨h.silent, hheld⟩

/-- The endpoint adds nothing to it. -/
theorem Holds.stepEndpoint (h : c.Holds tlp) : c.stepEndpoint.Holds tlp := by
  let t := c.endpoint.tick c.down.peek c.interrupts.peek c.up.ready
  obtain ⟨answers, houtbound, hanswers⟩ :=
    c.endpoint.tick_outbound c.down.peek c.interrupts.peek c.up.ready
  have hnone : answers = [] := List.eq_nil_iff_forall_not_mem.mpr fun r hr =>
    absurd (h.silent.symm.trans (hanswers r hr).1) Bool.false_ne_true
  have hready := (c.endpoint.tick_conserves c.down.peek c.interrupts.peek c.up.ready).1.ready
  have hup : (t.fill c.up).contents = c.up.contents ++ t.sent.toList :=
    t.contents_fill c.up trivial hready
  have hblank := c.endpoint.blank_tick c.down.peek c.interrupts.peek c.up.ready
  refine ⟨(congrArg Tlp.Endpoint.autoComplete hblank).trans h.silent, ?_⟩
  have hbeats : (t.fill c.up).contents ++ t.next.outbound =
      c.up.contents ++ c.endpoint.outbound := by
    rw [hup, List.append_assoc, houtbound, hnone, List.flatMap_nil, List.append_nil]
  show c.serializer.Held tlp ((t.fill c.up).contents ++ t.next.outbound)
  rw [hbeats]
  exact h.held

/-- **No stage lets go of it.** -/
theorem Holds.step (h : c.Holds tlp) (stage : Stage) : (c.step stage).Holds tlp := by
  cases stage with
  | deframer | crossbar | framer | bus => exact ⟨h.silent, h.held⟩
  | deserializer =>
      rw [Core.step, stepDeserializer]
      split
      · exact h
      · exact ⟨h.silent, h.held⟩
  | responder =>
      rw [Core.step, stepResponder]
      split
      · exact h
      · exact ⟨h.silent, h.held⟩
  | serializer => exact h.stepSerializer
  | endpoint => exact h.stepEndpoint

theorem Holds.foldl (h : c.Holds tlp) (stages : List Stage) :
    (stages.foldl Core.step c).Holds tlp := by
  induction stages generalizing c with
  | nil => exact h
  | cons stage stages ih => exact ih (h.step stage)

theorem Holds.count (h : c.Holds tlp) (counted : Counters) : (c.count counted).Holds tlp :=
  ⟨h.silent, h.held⟩

theorem Holds.commit (h : c.Holds tlp) : c.commit.Holds tlp := by
  refine ⟨h.silent, ?_⟩
  show c.serializer.Held tlp (c.up.commit.contents ++ c.endpoint.outbound)
  rw [Channel.contents_commit]
  exact h.held

theorem Holds.tick (h : c.Holds tlp) : c.tick.Holds tlp :=
  ((h.foldl Stage.all).count _).commit

theorem Holds.ticks (h : c.Holds tlp) (n : Nat) : (Nat.repeat Core.tick n c).Holds tlp := by
  induction n with
  | zero => exact h
  | succ n ih => exact ih.tick

theorem Holds.isIdle_eq_false (h : c.Holds tlp) : c.isIdle = false := by
  rw [← Bool.not_eq_true]
  intro hidle
  obtain ⟨-, -, ⟨hserializer, -, hendpoint, -, hup⟩, -⟩ := idle_parts hidle
  simp only [Tlp.Endpoint.isIdle, Bool.and_eq_true, List.isEmpty_iff] at hendpoint
  have hheld := h.held
  rw [hup, hendpoint.2] at hheld
  exact absurd (hserializer.symm.trans hheld.isIdle_eq_false) Bool.noConfusion

end Core

namespace Bridge

variable {b : Bridge}

/-- **Nothing that happens makes the bridge let go of it**, but a reset of the domain or more TLPs. -/
theorem holds_meet {tlp : List Tlp.Beat} (h : b.core.Holds tlp) (incident : Incident)
    (hreset : incident ≠ .resetCore) (hinject : ∀ r, incident ≠ .inject r) :
    (b.meet incident).core.Holds tlp := by
  have hlink : b.linkTick.core.Holds tlp := ⟨h.silent, h.held⟩
  cases incident with
  | tick =>
      rw [meet, Bridge.tick, advance, repeat_coreTick]
      exact hlink.ticks b.ratio
  | linkTick => exact hlink
  | coreTick => exact h.tick
  | resetCore => exact absurd rfl hreset
  | inject r => exact absurd rfl (hinject r)
  | write | drain | pause | resetLink => exact h
  | writeMemory | clearReceived | clearVectors => exact ⟨h.silent, h.held⟩
  | readBus | writeBus | writeBusBlock => exact ⟨h.silent, h.held⟩

theorem holds_undergo {tlp : List Tlp.Beat} (h : b.core.Holds tlp) {incidents : List Incident}
    (hreset : .resetCore ∉ incidents) (hinject : ∀ r, .inject r ∉ incidents) :
    (b.undergo incidents).core.Holds tlp := by
  induction incidents generalizing b with
  | nil => exact h
  | cons incident incidents ih =>
      have hfirst : incident ∈ incident :: incidents := List.mem_cons_self
      refine ih (holds_meet h incident ?_ fun r heq => ?_) (fun hmem => ?_) fun r hmem => ?_
      · rintro rfl
        exact hreset hfirst
      · exact hinject r (heq ▸ hfirst)
      · exact hreset (List.mem_cons_of_mem _ hmem)
      · exact hinject r (List.mem_cons_of_mem _ hmem)

/-- **A bridge with a silent endpoint that is given a TLP it cannot send is not idle again**, whatever
happens but a reset of the domain or more TLPs. -/
theorem isIdle_undergo_inject {config : Config} (layout : Config.Layout)
    (hsilent : config.tlp.autoComplete = false) {r : Record}
    (hlong : Tlp.Serializer.Unsendable config.tlp.fifoDepth r.toBeats) {incidents : List Incident}
    (hreset : .resetCore ∉ incidents) (hinject : ∀ r, .inject r ∉ incidents) :
    ((assemble config layout).undergo (.inject r :: incidents)).isIdle = false := by
  have hholds : ((assemble config layout).meet (.inject r)).core.Holds r.toBeats :=
    ⟨hsilent, Tlp.Serializer.held_empty config.core.ports.tlp hlong⟩
  rw [Bridge.isIdle, undergo, List.foldl_cons, ← undergo,
    (holds_undergo hholds hreset hinject).isIdle_eq_false, Bool.and_false]

end Bridge

/-- A TLP of too many dwords for a word, and a buffer it fits into. -/
theorem Tlp.Record.unsendable_toBeats {depth : Nat} {r : Record}
    (hfits : (r.toDwords.length + 1) / 2 ≤ depth) (hlong : UInt32.size ≤ r.toDwords.length) :
    Serializer.Unsendable depth r.toBeats where
  whole := Beat.whole_ofDwords r.toDwords_ne_nil
  fits := (Beat.length_ofDwords r.toDwords).symm ▸ hfits
  long := (Beat.flatMap_dwords_ofDwords r.toDwords).symm ▸ hlong

end LinkBridge
