import LinkBridge.Proofs.Crossbar.Outbound

/-!
# LinkBridge.Proofs.Crossbar.Users

What the users of the crossbar do at their ends of the ports. The crossbar notices nothing of it on
the same tick: a port presents to it what it presented before, and has room for it when it had room
before. So the crossbar and a user may act in either order (`tick_modifyPort`).
-/

namespace LinkBridge

/-! ## the two ends of a channel -/

namespace Channel

variable {α β σ τ : Type}

/-- What is put into a channel is not presented on the same tick. -/
@[simp] theorem peek_fill (t : Transfer σ α) (c : Channel α) : (t.fill c).peek = c.peek := by
  unfold Transfer.fill
  split
  · exact c.peek_push _
  · rfl

/-- What is taken from a channel makes no room on the same tick. -/
@[simp] theorem ready_drain (t : Transfer σ β) (c : Channel α) : (t.drain c).ready = c.ready := by
  unfold Transfer.drain
  split
  · exact c.ready_take
  · rfl

/-- **Within a tick it does not matter which end of a channel acts first.** -/
theorem drain_fill (t : Transfer σ β) (u : Transfer τ α) (c : Channel α) :
    t.drain (u.fill c) = u.fill (t.drain c) := by
  unfold Transfer.drain Transfer.fill
  cases u.sent with
  | none => rfl
  | some item =>
      split
      · exact c.take_push item
      · rfl

end Channel

namespace Port

variable {σ β : Type}

/-- Takes from a port what a transfer took. -/
def drain (t : Transfer σ β) (p : Port) : Port :=
  { p with source := t.drain p.source }

/-- Puts into a port what a transfer sent. -/
def fill (t : Transfer σ PacketBeat) (p : Port) : Port :=
  { p with sink := t.fill p.sink }

/-- A change of a port that the crossbar does not notice before the end of the tick. -/
structure Unnoticed (f : Port → Port) : Prop where
  tag (p : Port) : (f p).tag = p.tag
  peek (p : Port) : (f p).sink.peek = p.sink.peek
  ready (p : Port) : (f p).source.ready = p.source.ready
  take (p : Port) : f { p with sink := p.sink.take } = { f p with sink := (f p).sink.take }
  push (p : Port) (beat : PacketBeat) :
    f { p with source := p.source.push beat } = { f p with source := (f p).source.push beat }

theorem unnoticed_drain (t : Transfer σ β) : Unnoticed (drain t) where
  tag _ := rfl
  peek _ := rfl
  ready p := p.source.ready_drain t
  take _ := rfl
  push p beat := by
    have hsource := Channel.drain_fill t { next := (), sent := some beat } p.source
    exact congrArg (fun source => { p with source }) hsource

theorem unnoticed_fill (t : Transfer σ PacketBeat) : Unnoticed (fill t) where
  tag _ := rfl
  peek p := p.sink.peek_fill t
  ready _ := rfl
  take p := by
    have hsink := Channel.drain_fill ({ next := (), taken := true } : Transfer Unit Unit) t p.sink
    exact congrArg (fun sink => { p with sink }) hsink.symm
  push _ _ := rfl

theorem Unnoticed.comp {f g : Port → Port} (hf : Unnoticed f) (hg : Unnoticed g) :
    Unnoticed (f ∘ g) where
  tag p := (hf.tag _).trans (hg.tag p)
  peek p := (hf.peek _).trans (hg.peek p)
  ready p := (hf.ready _).trans (hg.ready p)
  take p := by rw [Function.comp_apply, hg.take, hf.take]; rfl
  push p beat := by rw [Function.comp_apply, hg.push, hf.push]; rfl

end Port

namespace Crossbar

variable {x : Crossbar} {tag : UInt8} {f : Port → Port}

/-! ## changes of several ports -/

/-- The port of another destination stays as it is. -/
theorem port?_modifyPort_other {tag' : UInt8} (hf : ∀ p, (f p).tag = p.tag) (h : tag' ≠ tag) :
    (x.modifyPort tag f).port? tag' = x.port? tag' := by
  rw [port?_modifyPort x tag hf, if_neg h]

/-- Changes of different ports, and changes that commute, may be made in either order. -/
theorem modifyPort_comm (x : Crossbar) (tag tag' : UInt8) {f g : Port → Port}
    (hf : ∀ p, (f p).tag = p.tag) (hg : ∀ p, (g p).tag = p.tag)
    (h : tag ≠ tag' ∨ ∀ p, g (f p) = f (g p)) :
    (x.modifyPort tag f).modifyPort tag' g = (x.modifyPort tag' g).modifyPort tag f := by
  have hboth (p : Port) (htag : p.tag = tag) (htag' : p.tag = tag') : g (f p) = f (g p) :=
    h.elim (fun hne => absurd (htag.symm.trans htag') hne) (· p)
  have hport (p : Port) :
      (if (if p.tag = tag then f p else p).tag = tag' then g (if p.tag = tag then f p else p)
        else if p.tag = tag then f p else p) =
      if (if p.tag = tag' then g p else p).tag = tag then f (if p.tag = tag' then g p else p)
        else if p.tag = tag' then g p else p := by
    by_cases htag : p.tag = tag
    · by_cases htag' : p.tag = tag'
      · rw [if_pos htag, if_pos htag', if_pos ((hf p).trans htag'), if_pos ((hg p).trans htag)]
        exact hboth p htag htag'
      · rw [if_pos htag, if_neg htag', if_pos htag, if_neg (hf p ▸ htag')]
    · by_cases htag' : p.tag = tag'
      · rw [if_neg htag, if_pos htag', if_neg (hg p ▸ htag)]
      · rw [if_neg htag, if_neg htag', if_neg htag]
  simp only [modifyPort, List.map_map, beq_iff_eq]
  congr 2
  exact funext hport

/-- A change of the port of a destination only has to be known for that port. -/
theorem modifyPort_congr {g : Port → Port} (h : ∀ p ∈ x.ports, p.tag = tag → f p = g p) :
    x.modifyPort tag f = x.modifyPort tag g := by
  simp only [modifyPort, beq_iff_eq]
  congr 1
  refine List.map_congr_left fun p hp => ?_
  split
  · next htag => exact h p hp htag
  · rfl

/-! ## what the crossbar does not notice -/

section

variable (hf : Port.Unnoticed f)

include hf

theorem find?_rotation_modifyPort : (x.modifyPort tag f).rotation.find? (·.1.sink.peek.isSome) =
    (x.rotation.find? (·.1.sink.peek.isSome)).map fun s =>
      (if s.1.tag == tag then f s.1 else s.1, s.2) := by
  have hrotation : (x.modifyPort tag f).rotation =
      x.rotation.map fun s => (if s.1.tag == tag then f s.1 else s.1, s.2) := by
    rw [rotation_eq_rotate, rotation_eq_rotate, List.map_rotate, modifyPort, List.zipIdx_map]
    rfl
  rw [hrotation, List.find?_map]
  congr 2
  funext s
  simp only [Function.comp_apply]
  split
  · rw [hf.peek]
  · rfl

theorem chooseGrant_modifyPort : (x.modifyPort tag f).chooseGrant =
    (x.chooseGrant.1.modifyPort tag f, x.chooseGrant.2) := by
  have hfind := @find?_rotation_modifyPort x tag f hf
  have hgrant : (x.modifyPort tag f).grant = x.grant := rfl
  rw [chooseGrant, chooseGrant, hgrant, hfind]
  cases x.grant with
  | some _ => rfl
  | none =>
      cases hfound : x.rotation.find? (·.1.sink.peek.isSome) with
      | none => rfl
      | some s =>
          have htag : (if s.1.tag == tag then f s.1 else s.1).tag = s.1.tag := by
            split
            · exact hf.tag _
            · rfl
          simp only [Option.map_some, htag]
          rfl

theorem sendGranted_modifyPort (ready : Bool) : (x.modifyPort tag f).sendGranted ready =
    (x.sendGranted ready).map (·.modifyPort tag f) := by
  have hgrant : (x.modifyPort tag f).grant = x.grant := rfl
  rw [sendGranted, sendGranted, hgrant]
  cases x.grant with
  | none => rfl
  | some tag' =>
      simp only [port?_modifyPort_map x tag hf.tag]
      cases hport : x.port? tag' with
      | none => rfl
      | some p =>
          have hpeek : (if p.tag == tag then f p else p).sink.peek = p.sink.peek := by
            split
            · exact hf.peek p
            · rfl
          simp only [Option.map_some, hpeek]
          cases p.sink.peek with
          | none => rfl
          | some beat =>
              cases ready with
              | false => rfl
              | true =>
                  have hcomm := x.modifyPort_comm tag tag' hf.tag
                    (g := fun p => { p with sink := p.sink.take }) (fun _ => rfl)
                    (.inr fun p => (hf.take p).symm)
                  simp only [if_true, hcomm]
                  rfl

theorem arbitrate_modifyPort (ready : Bool) : (x.modifyPort tag f).arbitrate ready =
    (x.arbitrate ready).map (·.modifyPort tag f) := by
  rw [arbitrate, arbitrate, chooseGrant_modifyPort hf]
  simp only [sendGranted_modifyPort hf]
  rfl

theorem chooseRoute_modifyPort (beat : PacketBeat) : (x.modifyPort tag f).chooseRoute beat =
    ((x.chooseRoute beat).1.modifyPort tag f, (x.chooseRoute beat).2) := by
  have hroute : (x.modifyPort tag f).route = x.route := rfl
  rw [chooseRoute, chooseRoute, hroute, port?_modifyPort_map x tag hf.tag, Option.isSome_map]
  cases x.route with
  | some _ => rfl
  | none =>
      simp only
      split <;> rfl

theorem deliver_modifyPort (beat : PacketBeat) : (x.modifyPort tag f).deliver beat =
    (x.deliver beat).map (·.modifyPort tag f) := by
  have hroute : (x.modifyPort tag f).route = x.route := rfl
  rw [deliver, deliver, hroute]
  cases x.route with
  | none => rfl
  | some route =>
      cases route with
      | dropped => simp only; split <;> rfl
      | port tag' =>
          simp only [port?_modifyPort_map x tag hf.tag]
          cases hport : x.port? tag' with
          | none => rfl
          | some p =>
              have hready : (if p.tag == tag then f p else p).source.ready = p.source.ready := by
                split
                · exact hf.ready p
                · rfl
              have hcomm := x.modifyPort_comm tag tag' hf.tag
                (g := fun p => { p with source := p.source.push beat }) (fun _ => rfl)
                (.inr fun p => (hf.push p beat).symm)
              simp only [Option.map_some, hready, hcomm]
              repeat' split
              all_goals rfl

theorem dispatch_modifyPort (input : Option PacketBeat) : (x.modifyPort tag f).dispatch input =
    (x.dispatch input).map (·.modifyPort tag f) := by
  cases input with
  | none => rfl
  | some beat =>
      rw [dispatch, dispatch]
      simp only [chooseRoute_modifyPort hf, deliver_modifyPort hf]
      rfl

/-- **The crossbar and a user of a port may act in either order.** -/
theorem tick_modifyPort (input : Option PacketBeat) (ready : Bool) :
    (x.modifyPort tag f).tick input ready = (x.tick input ready).map (·.modifyPort tag f) := by
  have hdispatch := @dispatch_modifyPort (x.arbitrate ready).next tag f hf input
  rw [tick, tick, arbitrate_modifyPort hf]
  simp only [Transfer.map, hdispatch]

end

/-! ## what the users do not notice -/

/-- What the port of a destination presents to its user. -/
def presented (x : Crossbar) (tag : UInt8) : Option (Option PacketBeat) :=
  (x.port? tag).map (·.source.peek)

/-- Whether the port of a destination has room for a beat of its user. -/
def roomy (x : Crossbar) (tag : UInt8) : Option Bool :=
  (x.port? tag).map (·.sink.ready)

theorem presented_modifyPort (hf : ∀ p, (f p).tag = p.tag)
    (hpeek : ∀ p, (f p).source.peek = p.source.peek) (tag' : UInt8) :
    (x.modifyPort tag f).presented tag' = x.presented tag' := by
  rw [presented, presented, port?_modifyPort x tag hf]
  split
  · simp [Function.comp_def, hpeek]
  · rfl

theorem roomy_modifyPort (hf : ∀ p, (f p).tag = p.tag)
    (hready : ∀ p, (f p).sink.ready = p.sink.ready) (tag' : UInt8) :
    (x.modifyPort tag f).roomy tag' = x.roomy tag' := by
  rw [roomy, roomy, port?_modifyPort x tag hf]
  split
  · simp [Function.comp_def, hready]
  · rfl

/-- Whether users notice nothing of a step from one crossbar to another. -/
def Unseen (x x' : Crossbar) : Prop :=
  ∀ tag, x'.presented tag = x.presented tag ∧ x'.roomy tag = x.roomy tag

theorem Unseen.trans {x x' x'' : Crossbar} (h : x.Unseen x') (h' : x'.Unseen x'') : x.Unseen x'' :=
  fun tag => ⟨(h' tag).1.trans (h tag).1, (h' tag).2.trans (h tag).2⟩

/-- Only the ports count. -/
theorem unseen_of_ports {x x' : Crossbar} (h : x'.ports = x.ports) : x.Unseen x' := by
  intro tag
  simp only [presented, roomy, port?, h, and_self]

theorem unseen_take (x : Crossbar) (tag : UInt8) :
    x.Unseen (x.modifyPort tag fun p => { p with sink := p.sink.take }) := by
  let f (p : Port) : Port := { p with sink := p.sink.take }
  exact fun _ => ⟨presented_modifyPort (f := f) (fun _ => rfl) (fun _ => rfl) _,
    roomy_modifyPort (f := f) (fun _ => rfl) (fun p => p.sink.ready_take) _⟩

theorem unseen_push (x : Crossbar) (tag : UInt8) (beat : PacketBeat) :
    x.Unseen (x.modifyPort tag fun p => { p with source := p.source.push beat }) := by
  let f (p : Port) : Port := { p with source := p.source.push beat }
  exact fun _ => ⟨presented_modifyPort (f := f) (fun _ => rfl) (fun p => p.source.peek_push beat) _,
    roomy_modifyPort (f := f) (fun _ => rfl) (fun _ => rfl) _⟩

theorem unseen_arbitrate (x : Crossbar) (ready : Bool) : x.Unseen (x.arbitrate ready).next := by
  have hchosen : x.Unseen x.chooseGrant.1 := by
    unfold chooseGrant
    repeat' split
    all_goals exact unseen_of_ports rfl
  refine hchosen.trans ?_
  show x.chooseGrant.1.Unseen (x.chooseGrant.1.sendGranted ready).next
  generalize x.chooseGrant.1 = x
  unfold sendGranted
  repeat' split
  all_goals first
    | exact unseen_of_ports rfl
    | exact (x.unseen_take _).trans (unseen_of_ports rfl)

theorem unseen_dispatch (x : Crossbar) (input : Option PacketBeat) :
    x.Unseen (x.dispatch input).next := by
  cases input with
  | none => exact unseen_of_ports rfl
  | some beat =>
      have hchosen : x.Unseen (x.chooseRoute beat).1 := by
        unfold chooseRoute
        repeat' split
        all_goals exact unseen_of_ports rfl
      refine hchosen.trans ?_
      show (x.chooseRoute beat).1.Unseen ((x.chooseRoute beat).1.deliver beat).next
      generalize (x.chooseRoute beat).1 = x
      unfold deliver
      repeat' split
      all_goals first
        | exact unseen_of_ports rfl
        | exact (x.unseen_push _ beat).trans (unseen_of_ports rfl)

/-- **Users notice nothing of what the crossbar does** before the tick has ended. -/
theorem unseen_tick (x : Crossbar) (input : Option PacketBeat) (ready : Bool) :
    x.Unseen (x.tick input ready).next :=
  (x.unseen_arbitrate ready).trans (unseen_dispatch _ input)

end Crossbar

end LinkBridge
