import LinkBridge.Proofs.System.Stages

/-!
# LinkBridge.Proofs.System.Tick

What a tick of the system domain does to its forecast. The responder may only be studied while the
bus is idle, and that is how it finds the bus on every tick: an interrupt is raised by the last word
of a request and leaves the bus on the same tick, because the one before it has left the queue to
the endpoint by then (`Calm`).
-/

namespace LinkBridge

namespace Channel

variable {α : Type} {c : Channel α}

/-- A channel of one item is emptied by taking it. -/
theorem queue_take (hpopped : c.popped = false) (hsingle : c.queue.length ≤ 1) :
    c.take.queue = [] ∧ c.take.staged = c.staged ∧ c.take.capacity = c.capacity := by
  obtain ⟨capacity, queue, staged, popped⟩ := c
  obtain rfl : popped = false := hpopped
  match queue, hsingle with
  | [], _ => exact ⟨rfl, rfl, rfl⟩
  | [x], _ => exact ⟨rfl, rfl, rfl⟩

/-- Filling a channel changes nothing but the staged item. -/
theorem fill_eq {σ : Type} (t : Transfer σ α) (c : Channel α) :
    ∃ staged, t.fill c = { c with staged } ∧ (t.sent = none → staged = c.staged) := by
  unfold Transfer.fill
  cases hsent : t.sent with
  | none => exact ⟨c.staged, rfl, fun _ => rfl⟩
  | some x =>
      show ∃ staged, c.push x = _ ∧ _
      unfold push
      split
      · exact ⟨some x, rfl, nofun⟩
      · exact ⟨c.staged, rfl, fun _ => rfl⟩

end Channel

namespace Core

variable {c : Core}

/-! ## interrupts under way -/

/-- How a tick finds the bus and the interrupts on their way to the endpoint. -/
structure Calm (c : Core) : Prop where
  bus : c.bus.isIdle = true
  capacity : 0 < c.interrupts.capacity
  staged : c.interrupts.staged = none
  popped : c.interrupts.popped = false
  single : c.interrupts.queue.length ≤ 1
  /-- An interrupt waits for the endpoint only when no request is arriving. -/
  request : c.interrupts.queue ≠ [] → c.responder.request = #[]

/-- The part of a domain that raises and delivers interrupts. -/
def raising (c : Core) : Etherbone.Responder × Wishbone.Bus × Channel UInt8 :=
  (c.responder, c.bus, c.interrupts)

theorem raising_stepDeserializer (c : Core) : c.stepDeserializer.raising = c.raising := by
  unfold stepDeserializer
  split <;> rfl

theorem raising_stepSerializer (c : Core) : c.stepSerializer.raising = c.raising := by
  unfold stepSerializer
  split <;> rfl

theorem raising_count (c : Core) (counted : Counters) :
    (c.count counted).commit.raising = c.commit.raising := rfl

theorem interrupts_stepResponder (c : Core) : c.stepResponder.interrupts = c.interrupts := by
  unfold stepResponder
  split <;> rfl

/-- Calm only depends on the part that raises interrupts. -/
theorem Calm.congr {c' : Core} (h : c.Calm) (hraising : c'.raising = c.raising) : c'.Calm := by
  obtain ⟨hresponder, hbus, hinterrupts⟩ :
      c'.responder = c.responder ∧ c'.bus = c.bus ∧ c'.interrupts = c.interrupts := by
    simpa [raising] using hraising
  exact
    { bus := hbus ▸ h.bus
      capacity := hinterrupts ▸ h.capacity
      staged := hinterrupts ▸ h.staged
      popped := hinterrupts ▸ h.popped
      single := hinterrupts ▸ h.single
      request := hresponder ▸ hinterrupts ▸ h.request }

/-- What the responder raises the bus delivers on the same tick. -/
theorem stepBus_spec {b : Core} (hcontrollers : b.bus.kinds.count true ≤ 1)
    (h : b.bus.isIdle = true ∨ (b.interrupts.ready = true ∧ b.responder.request = #[])) :
    b.stepBus.bus.isIdle = true ∧ ∃ staged, b.stepBus.interrupts = { b.interrupts with staged } ∧
      (staged = b.interrupts.staged ∨ b.responder.request = #[]) := by
  obtain ⟨staged, hfill, hkept⟩ := Channel.fill_eq (b.bus.tick b.interrupts.ready) b.interrupts
  rcases h with hidle | ⟨hready, hrequest⟩
  · have htick := Wishbone.Bus.tick_of_isIdle hidle b.interrupts.ready
    rw [htick] at hkept
    refine ⟨?_, staged, hfill, .inl (hkept rfl)⟩
    show (b.bus.tick b.interrupts.ready).next.isIdle = true
    rw [htick]
    exact hidle
  · refine ⟨?_, staged, hfill, .inr hrequest⟩
    show (b.bus.tick b.interrupts.ready).next.isIdle = true
    rw [hready]
    exact Wishbone.Bus.isIdle_tick hcontrollers

/-- **The responder, the bus and the endpoint leave the domain calm for the next tick.** -/
theorem Calm.commit (h : c.Calm) (hwired : c.Wired) :
    (c.stepResponder.stepBus.stepEndpoint.commit).Calm := by
  obtain ⟨hfollows, hrequest, hshort⟩ := stepResponder_follows hwired h.bus
  have hinterrupts := c.interrupts_stepResponder
  have hbus : c.stepResponder.bus.isIdle = true ∨
      (c.stepResponder.interrupts.ready = true ∧ c.stepResponder.responder.request = #[]) := by
    by_cases hnone : c.responder.request = #[]
    · exact .inl ((hshort hnone).symm ▸ h.bus)
    · rcases hrequest with hkept | hcleared
      · exact .inl (hkept.symm ▸ h.bus)
      · have hqueue : c.interrupts.queue = [] :=
          Decidable.byContradiction fun hne => hnone (h.request hne)
        refine .inr ⟨?_, hcleared⟩
        rw [hinterrupts, Channel.ready, h.staged, h.popped, hqueue]
        simpa using h.capacity
  obtain ⟨hidle, staged, hstaged, hlate⟩ := stepBus_spec hfollows.wired.controllers hbus
  rw [hinterrupts] at hstaged hlate
  let i := c.stepResponder.stepBus.interrupts
  have hpopped : i.popped = false := by
    show c.stepResponder.stepBus.interrupts.popped = false
    rw [hstaged]
    exact h.popped
  have hsingle : i.queue.length ≤ 1 := by
    show c.stepResponder.stepBus.interrupts.queue.length ≤ 1
    rw [hstaged]
    exact h.single
  obtain ⟨hqueue, hkept, hcapacity⟩ := Channel.queue_take hpopped hsingle
  have hstaged' : i.staged = staged := congrArg Channel.staged hstaged
  have hqueue' :
      (c.stepResponder.stepBus.stepEndpoint.commit).interrupts.queue = staged.toList := by
    show i.take.queue ++ i.take.staged.toList = _
    rw [hqueue, hkept, hstaged', List.nil_append]
  exact
    { bus := hidle
      capacity := by
        show 0 < i.take.capacity
        rw [hcapacity]
        show 0 < c.stepResponder.stepBus.interrupts.capacity
        rw [hstaged]
        exact h.capacity
      staged := rfl
      popped := rfl
      single := by
        rw [hqueue']
        cases staged <;> simp
      request := fun hne => by
        rw [hqueue'] at hne
        rcases hlate with hnone | hcleared
        · rw [hnone, h.staged] at hne
          contradiction
        · exact hcleared }

/-! ## the whole tick -/

theorem tick_eq (c : Core) : c.tick =
    (c.stepDeframer.stepCrossbar.stepFramer.stepDeserializer.stepSerializer.stepResponder.stepBus
      |>.stepEndpoint.count { systemTicks := 1 }).commit := rfl

/-- **A tick lets one beat enter and sends one beat on, and changes nothing else about what is to
come.** -/
theorem tick_advances (h : c.Wired) (hmeasured : c.Measured) (hcalm : c.Calm) :
    let t := c.deframer.tick c.inbound.peek c.arriving.ready
    (∃ sent, c.Advances c.tick t.sent.toList sent []) ∧
      c.tick.Wired ∧ c.tick.Measured ∧ c.tick.Calm ∧
      c.tick.inbound = (t.drain c.inbound).commitReader ∧ c.tick.deframer = t.next ∧
      c.tick.counters.losses.framing = (c.counters + t.counted).losses.framing := by
  intro t
  obtain ⟨hentered, hwired⟩ := stepDeframer_advances h
  have hcrossbar := stepCrossbar_follows hwired
  have hframer := stepFramer_follows hcrossbar.wired
  have hdeserializer := stepDeserializer_follows hframer.wired
  have hmeasured' := hdeserializer.measured (hframer.measured (hcrossbar.measured hmeasured))
  have hserializer := stepSerializer_follows hdeserializer.wired hmeasured'
  let c' := c.stepDeframer.stepCrossbar.stepFramer.stepDeserializer.stepSerializer
  have hraising : c'.raising = c.raising := by
    rw [raising_stepSerializer, raising_stepDeserializer]
    rfl
  have hcalm' : c'.Calm := hcalm.congr hraising
  obtain ⟨hresponder, -, -⟩ := stepResponder_follows hserializer.wired hcalm'.bus
  have hbus := stepBus_follows hresponder.wired
  have hendpoint := stepEndpoint_follows hbus.wired
  have hstages := (((((hcrossbar.trans hframer).trans hdeserializer).trans hserializer).trans
    hresponder).trans hbus).trans hendpoint
  have hcount := count_follows hstages.wired { systemTicks := 1 } rfl
  obtain ⟨hcommit, hwired'⟩ := commit_advances hcount.wired
  have hbehind := hstages.trans hcount
  have hadvances := hentered.trans (hbehind.advances.trans hcommit)
  rw [List.append_nil, List.append_nil, List.nil_append] at hadvances
  have hcalm'' := (hcalm'.commit hserializer.wired).congr (raising_count _ { systemTicks := 1 })
  rw [tick_eq]
  exact ⟨⟨_, hadvances⟩, hwired', commit_measured (hbehind.measured hmeasured), hcalm'', congrArg CrossFifo.commitReader hbehind.inbound,
    hbehind.deframer, hbehind.framing⟩

end Core

end LinkBridge
