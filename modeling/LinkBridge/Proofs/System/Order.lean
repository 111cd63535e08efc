import LinkBridge.Proofs.Crossbar.Users
import LinkBridge.Proofs.System.Fresh
import LinkBridge.Proofs.System.Reachable
import Mathlib.Data.List.Permutation

/-!
# LinkBridge.Proofs.System.Order

The order of the stages. Stages only meet in queues, and a queue shows the one end nothing of what
the other does before the tick has ended; so any two stages may be evaluated in either order
(`step_comm`), but for the responder and the bus, which share the Wishbone devices. A tick may
therefore evaluate its stages in any order that keeps those two as they are
(`tickIn_eq_of_perm`).
-/

namespace LinkBridge

/-- Reports may be added in either order. -/
theorem Counters.add_right_comm (a b c : Counters) : a + b + c = a + c + b := by
  rw [Counters.add_assoc, Counters.add_comm b, Counters.add_assoc]

namespace Core

variable {c : Core}

/-! ## users and their ports -/

section

variable (h : c.Wired)

include h

theorem stepDeserializer_eq_drain {seen : Option PacketBeat}
    (hseen : c.crossbar.presented c.tlpTag = some seen) :
    let t := c.deserializer.tick seen c.down.ready
    c.stepDeserializer = { c with
      deserializer := t.next, down := t.fill c.down
      crossbar := c.crossbar.modifyPort c.tlpTag (Port.drain t)
      counters := c.counters + t.counted } := by
  obtain ⟨port, hport, rfl⟩ := Option.map_eq_some_iff.mp hseen
  rw [stepDeserializer_eq hport]
  simp only
  rw [Crossbar.modifyPort_congr fun p hp htag => ?_]
  rw [Crossbar.eq_of_port? h.nodup hport hp htag]
  rfl

theorem stepSerializer_eq_fill {room : Bool} (hroom : c.crossbar.roomy c.tlpTag = some room) :
    let t := c.serializer.tick c.up.peek room
    c.stepSerializer = { c with
      serializer := t.next, up := t.drain c.up
      crossbar := c.crossbar.modifyPort c.tlpTag (Port.fill t)
      counters := c.counters + t.counted } := by
  obtain ⟨port, hport, rfl⟩ := Option.map_eq_some_iff.mp hroom
  rw [stepSerializer_eq hport]
  simp only
  rw [Crossbar.modifyPort_congr fun p hp htag => ?_]
  rw [Crossbar.eq_of_port? h.nodup hport hp htag]
  rfl

theorem stepResponder_eq_use {seen : Option PacketBeat} {room : Bool}
    (hseen : c.crossbar.presented c.etherboneTag = some seen)
    (hroom : c.crossbar.roomy c.etherboneTag = some room) :
    let t := c.responder.tick c.bus seen room
    c.stepResponder = { c with
      responder := t.next.1, bus := t.next.2
      crossbar := c.crossbar.modifyPort c.etherboneTag (Port.fill t ∘ Port.drain t)
      counters := c.counters + t.counted } := by
  obtain ⟨port, hport, rfl⟩ := Option.map_eq_some_iff.mp hseen
  obtain ⟨port', hport', rfl⟩ := Option.map_eq_some_iff.mp hroom
  obtain rfl : port = port' := Option.some.inj (hport.symm.trans hport')
  rw [stepResponder_eq hport]
  simp only
  rw [Crossbar.modifyPort_congr fun p hp htag => ?_]
  rw [Crossbar.eq_of_port? h.nodup hport hp htag]
  rfl

end

/-- The users have ports. -/
theorem Wired.exists_view (h : c.Wired) (tag : UInt8) (htag : tag ∈ [c.etherboneTag, c.tlpTag]) :
    ∃ seen room, c.crossbar.presented tag = some seen ∧ c.crossbar.roomy tag = some room := by
  obtain ⟨port, hport⟩ := h.exists_port tag htag
  exact ⟨port.source.peek, port.sink.ready, by rw [Crossbar.presented, hport]; rfl,
    by rw [Crossbar.roomy, hport]; rfl⟩

/-! ## two stages in either order -/

/-- Two steps that lead to the same state may report in either order. -/
theorem eq_of_reports {c₁ c₂ : Core} (total : Counters) {r s : Counters}
    (hsame : { c₁ with counters := total } = { c₂ with counters := total })
    (h₁ : c₁.counters = total + r + s) (h₂ : c₂.counters = total + s + r) : c₁ = c₂ := by
  have hcounters : c₁.counters = c₂.counters := by rw [h₁, h₂, Counters.add_right_comm]
  calc c₁
    _ = { ({ c₁ with counters := total } : Core) with counters := c₁.counters } := rfl
    _ = { ({ c₂ with counters := total } : Core) with counters := c₂.counters } := by
      rw [hsame, hcounters]
    _ = c₂ := rfl

/-- Whether two stages may be evaluated in either order. -/
def Commute (c : Core) (a b : Stage) : Prop :=
  (c.step a).step b = (c.step b).step a

/-- The stages that keep away from the ports of the crossbar. -/
def Stage.away : List Stage :=
  [.deframer, .framer, .bus, .endpoint]

theorem Stage.mem_away {a : Stage} :
    a ∈ away ↔ a = .deframer ∨ a = .framer ∨ a = .bus ∨ a = .endpoint := by
  simp [away]

/-- The other stages use the ports. -/
theorem Stage.away_or (a : Stage) :
    a ∈ away ∨ a = .crossbar ∨ a = .deserializer ∨ a = .serializer ∨ a = .responder := by
  cases a <;> simp [away]

/-- The stages away from the ports leave them as they are. -/
theorem step_away {a : Stage} (ha : a ∈ Stage.away) :
    (c.step a).crossbar = c.crossbar ∧ (c.step a).tlpTag = c.tlpTag ∧
      (c.step a).etherboneTag = c.etherboneTag := by
  obtain rfl | rfl | rfl | rfl := Stage.mem_away.mp ha <;> exact ⟨rfl, rfl, rfl⟩

/-- Away from the ports, stages meet in the interrupts at most. -/
theorem away_comm {a b : Stage} (ha : a ∈ Stage.away) (hb : b ∈ Stage.away) : c.Commute a b := by
  obtain rfl | rfl | rfl | rfl := Stage.mem_away.mp ha <;>
    obtain rfl | rfl | rfl | rfl := Stage.mem_away.mp hb <;>
    first
    | rfl
    | exact eq_of_reports c.counters rfl rfl rfl
    | simp only [Commute, step, stepEndpoint, stepBus, Channel.peek_fill, Channel.ready_drain,
        Channel.drain_fill, Counters.add_right_comm]

theorem crossbar_comm_away {a : Stage} (ha : a ∈ Stage.away) : c.Commute a .crossbar := by
  cases a with
  | deframer | framer =>
      simp only [Commute, step, stepDeframer, stepFramer, stepCrossbar, Transfer.between, Source.peek,
        Sink.ready, Channel.peek_fill, Channel.ready_drain, Channel.drain_fill,
        Counters.add_right_comm]
  | bus | endpoint => exact eq_of_reports c.counters rfl rfl rfl
  | _ => simp [Stage.away] at ha

section

variable (h : c.Wired)

include h

theorem deserializer_comm_away {a : Stage} (ha : a ∈ Stage.away) : c.Commute a .deserializer := by
  obtain ⟨port, hport⟩ := h.exists_port c.tlpTag (by simp)
  have hafter : (c.step a).crossbar.port? (c.step a).tlpTag = some port := by
    rw [(step_away ha).1, (step_away ha).2.1, hport]
  show (c.step a).stepDeserializer = c.stepDeserializer.step a
  rw [stepDeserializer_eq hafter, stepDeserializer_eq hport]
  cases a with
  | deframer | framer | bus => exact eq_of_reports c.counters rfl rfl rfl
  | endpoint =>
      simp only [step, stepEndpoint, Channel.peek_fill, Channel.ready_drain, Channel.drain_fill,
        Counters.add_right_comm]
  | _ => simp [Stage.away] at ha

theorem serializer_comm_away {a : Stage} (ha : a ∈ Stage.away) : c.Commute a .serializer := by
  obtain ⟨port, hport⟩ := h.exists_port c.tlpTag (by simp)
  have hafter : (c.step a).crossbar.port? (c.step a).tlpTag = some port := by
    rw [(step_away ha).1, (step_away ha).2.1, hport]
  show (c.step a).stepSerializer = c.stepSerializer.step a
  rw [stepSerializer_eq hafter, stepSerializer_eq hport]
  cases a with
  | deframer | framer | bus => exact eq_of_reports c.counters rfl rfl rfl
  | endpoint =>
      simp only [step, stepEndpoint, Channel.peek_fill, Channel.ready_drain, Channel.drain_fill,
        Counters.add_right_comm]
  | _ => simp [Stage.away] at ha

/-- The responder shares the devices with the bus. -/
theorem responder_comm_away {a : Stage} (ha : a ∈ Stage.away) (hbus : a ≠ .bus) :
    c.Commute a .responder := by
  obtain ⟨port, hport⟩ := h.exists_port c.etherboneTag (by simp)
  have hafter : (c.step a).crossbar.port? (c.step a).etherboneTag = some port := by
    rw [(step_away ha).1, (step_away ha).2.2, hport]
  show (c.step a).stepResponder = c.stepResponder.step a
  rw [stepResponder_eq hafter, stepResponder_eq hport]
  cases a with
  | deframer | framer | endpoint => exact eq_of_reports c.counters rfl rfl rfl
  | bus => contradiction
  | _ => simp [Stage.away] at ha

end

/-! ## the crossbar and its users -/

section

variable (h : c.Wired)

include h

theorem crossbar_comm_deserializer : c.Commute .crossbar .deserializer := by
  obtain ⟨seen, -, hseen, -⟩ := h.exists_view c.tlpTag (by simp)
  have hunseen := c.crossbar.unseen_tick c.arriving.peek c.leaving.ready
  have hafter : (c.step .crossbar).crossbar.presented (c.step .crossbar).tlpTag = some seen :=
    (hunseen _).1.trans hseen
  show (c.step .crossbar).stepDeserializer = c.stepDeserializer.stepCrossbar
  rw [stepDeserializer_eq_drain (step_wired h .crossbar) hafter, stepDeserializer_eq_drain h hseen]
  simp only [step, stepCrossbar, Transfer.between,
    Crossbar.tick_modifyPort (Port.unnoticed_drain _), Transfer.map]
  exact eq_of_reports c.counters rfl rfl rfl

theorem crossbar_comm_serializer : c.Commute .crossbar .serializer := by
  obtain ⟨-, room, -, hroom⟩ := h.exists_view c.tlpTag (by simp)
  have hunseen := c.crossbar.unseen_tick c.arriving.peek c.leaving.ready
  have hafter : (c.step .crossbar).crossbar.roomy (c.step .crossbar).tlpTag = some room :=
    (hunseen _).2.trans hroom
  show (c.step .crossbar).stepSerializer = c.stepSerializer.stepCrossbar
  rw [stepSerializer_eq_fill (step_wired h .crossbar) hafter, stepSerializer_eq_fill h hroom]
  simp only [step, stepCrossbar, Transfer.between,
    Crossbar.tick_modifyPort (Port.unnoticed_fill _), Transfer.map]
  exact eq_of_reports c.counters rfl rfl rfl

theorem crossbar_comm_responder : c.Commute .crossbar .responder := by
  obtain ⟨seen, room, hseen, hroom⟩ := h.exists_view c.etherboneTag (by simp)
  have hunseen := c.crossbar.unseen_tick c.arriving.peek c.leaving.ready
  have hafter : (c.step .crossbar).crossbar.presented (c.step .crossbar).etherboneTag = some seen :=
    (hunseen _).1.trans hseen
  have hafter' : (c.step .crossbar).crossbar.roomy (c.step .crossbar).etherboneTag = some room :=
    (hunseen _).2.trans hroom
  show (c.step .crossbar).stepResponder = c.stepResponder.stepCrossbar
  rw [stepResponder_eq_use (step_wired h .crossbar) hafter hafter', stepResponder_eq_use h hseen hroom]
  simp only [step, stepCrossbar, Transfer.between,
    Crossbar.tick_modifyPort ((Port.unnoticed_fill _).comp (Port.unnoticed_drain _)), Transfer.map]
  exact eq_of_reports c.counters rfl rfl rfl

/-! ## the users among themselves -/

/-- The deserializer and the serializer use the two ends of one port. -/
theorem deserializer_comm_serializer : c.Commute .deserializer .serializer := by
  obtain ⟨seen, room, hseen, hroom⟩ := h.exists_view c.tlpTag (by simp)
  have hwired : c.stepDeserializer.Wired := step_wired h .deserializer
  have hwired' : c.stepSerializer.Wired := step_wired h .serializer
  have hstep : c.stepDeserializer = _ := stepDeserializer_eq_drain h hseen
  have hstep' : c.stepSerializer = _ := stepSerializer_eq_fill h hroom
  have hroom' : c.stepDeserializer.crossbar.roomy c.stepDeserializer.tlpTag = some room := by
    rw [hstep, ← hroom]
    exact Crossbar.roomy_modifyPort (f := Port.drain _) (fun _ => rfl) (fun _ => rfl) _
  have hseen' : c.stepSerializer.crossbar.presented c.stepSerializer.tlpTag = some seen := by
    rw [hstep', ← hseen]
    exact Crossbar.presented_modifyPort (f := Port.fill _) (fun _ => rfl) (fun _ => rfl) _
  have hports := c.crossbar.modifyPort_comm c.tlpTag c.tlpTag
    (f := Port.drain (c.deserializer.tick seen c.down.ready))
    (g := Port.fill (c.serializer.tick c.up.peek room))
    (fun _ => rfl) (fun _ => rfl) (.inr fun _ => rfl)
  show c.stepDeserializer.stepSerializer = c.stepSerializer.stepDeserializer
  rw [stepSerializer_eq_fill hwired hroom', stepDeserializer_eq_drain hwired' hseen', hstep, hstep']
  simp only [hports]
  exact eq_of_reports c.counters rfl rfl rfl

/-- A user of another port. -/
theorem deserializer_comm_responder : c.Commute .deserializer .responder := by
  obtain ⟨port, hport⟩ := h.exists_port c.tlpTag (by simp)
  obtain ⟨port', hport'⟩ := h.exists_port c.etherboneTag (by simp)
  have hstep := stepDeserializer_eq hport
  have hstep' := stepResponder_eq hport'
  have hafter : c.stepDeserializer.crossbar.port? c.stepDeserializer.etherboneTag = some port' := by
    rw [hstep]
    refine (Crossbar.port?_modifyPort_other (x := c.crossbar) ?_ h.distinct).trans hport'
    exact fun _ => rfl
  have hafter' : c.stepResponder.crossbar.port? c.stepResponder.tlpTag = some port := by
    rw [hstep']
    refine (Crossbar.port?_modifyPort_other (x := c.crossbar) ?_ h.distinct.symm).trans hport
    exact fun _ => rfl
  let t := c.deserializer.tick port.source.peek c.down.ready
  let u := c.responder.tick c.bus port'.source.peek port'.sink.ready
  have hports := c.crossbar.modifyPort_comm c.tlpTag c.etherboneTag
    (f := fun p => { p with source := t.drain port.source })
    (g := fun p => { p with source := u.drain port'.source, sink := u.fill port'.sink })
    (fun _ => rfl) (fun _ => rfl) (.inl h.distinct.symm)
  show c.stepDeserializer.stepResponder = c.stepResponder.stepDeserializer
  rw [stepResponder_eq hafter, stepDeserializer_eq hafter', hstep, hstep']
  simp only [hports, t, u]
  exact eq_of_reports c.counters rfl rfl rfl

theorem serializer_comm_responder : c.Commute .serializer .responder := by
  obtain ⟨port, hport⟩ := h.exists_port c.tlpTag (by simp)
  obtain ⟨port', hport'⟩ := h.exists_port c.etherboneTag (by simp)
  have hstep := stepSerializer_eq hport
  have hstep' := stepResponder_eq hport'
  have hafter : c.stepSerializer.crossbar.port? c.stepSerializer.etherboneTag = some port' := by
    rw [hstep]
    refine (Crossbar.port?_modifyPort_other (x := c.crossbar) ?_ h.distinct).trans hport'
    exact fun _ => rfl
  have hafter' : c.stepResponder.crossbar.port? c.stepResponder.tlpTag = some port := by
    rw [hstep']
    refine (Crossbar.port?_modifyPort_other (x := c.crossbar) ?_ h.distinct.symm).trans hport
    exact fun _ => rfl
  let t := c.serializer.tick c.up.peek port.sink.ready
  let u := c.responder.tick c.bus port'.source.peek port'.sink.ready
  have hports := c.crossbar.modifyPort_comm c.tlpTag c.etherboneTag
    (f := fun p => { p with sink := t.fill port.sink })
    (g := fun p => { p with source := u.drain port'.source, sink := u.fill port'.sink })
    (fun _ => rfl) (fun _ => rfl) (.inl h.distinct.symm)
  show c.stepSerializer.stepResponder = c.stepResponder.stepSerializer
  rw [stepResponder_eq hafter, stepSerializer_eq hafter', hstep, hstep']
  simp only [hports, t, u]
  exact eq_of_reports c.counters rfl rfl rfl

end

/-! ## orders of a tick -/

/-- **Two stages may be evaluated in either order**, but for the responder and the bus, which meet
at the devices. -/
theorem step_comm (h : c.Wired) {a b : Stage}
    (hbus : ¬ (a = .responder ∧ b = .bus)) (hbus' : ¬ (a = .bus ∧ b = .responder)) :
    c.Commute a b := by
  have haway {a b : Stage} (ha : a ∈ Stage.away) (h' : ¬ (a = .bus ∧ b = .responder)) :
      c.Commute a b := by
    cases b with
    | deframer | framer | bus | endpoint => exact away_comm ha (by simp [Stage.away])
    | crossbar => exact crossbar_comm_away ha
    | deserializer => exact deserializer_comm_away h ha
    | serializer => exact serializer_comm_away h ha
    | responder => exact responder_comm_away h ha fun ha => h' ⟨ha, rfl⟩
  obtain ha | ha := Stage.away_or a
  · exact haway ha hbus'
  obtain hb | hb := Stage.away_or b
  · exact (haway hb fun hab => hbus hab.symm).symm
  obtain rfl | rfl | rfl | rfl := ha <;> obtain rfl | rfl | rfl | rfl := hb <;> first
    | rfl
    | exact crossbar_comm_deserializer h
    | exact crossbar_comm_serializer h
    | exact crossbar_comm_responder h
    | exact deserializer_comm_serializer h
    | exact deserializer_comm_responder h
    | exact serializer_comm_responder h
    | exact (crossbar_comm_deserializer h).symm
    | exact (crossbar_comm_serializer h).symm
    | exact (crossbar_comm_responder h).symm
    | exact (deserializer_comm_serializer h).symm
    | exact (deserializer_comm_responder h).symm
    | exact (serializer_comm_responder h).symm

/-- The stages that share the devices. -/
def Stage.sharing (a : Stage) : Bool :=
  a = .responder || a = .bus

/-- A stage may be evaluated before others instead of after them. -/
theorem foldl_step_append (h : c.Wired) {a : Stage} {stages : List Stage}
    (hfree : ∀ b ∈ stages, ¬ (a.sharing = true ∧ b.sharing = true)) :
    (stages ++ [a]).foldl step c = stages.foldl step (c.step a) := by
  induction stages generalizing c with
  | nil => rfl
  | cons b stages ih =>
      have hcomm : c.Commute b a := by
        have hshare := hfree b List.mem_cons_self
        refine step_comm h ?_ ?_ <;> rintro ⟨rfl, rfl⟩ <;> exact hshare ⟨rfl, rfl⟩
      calc (b :: stages ++ [a]).foldl step c
        _ = (stages ++ [a]).foldl step (c.step b) := rfl
        _ = stages.foldl step ((c.step b).step a) :=
          ih (step_wired h b) fun b hb => hfree b (List.mem_cons_of_mem _ hb)
        _ = stages.foldl step ((c.step a).step b) := by rw [hcomm]

/-- Stages may be evaluated in any order that keeps those that share the devices as they are. -/
theorem foldl_step_eq_of_perm (h : c.Wired) {order order' : List Stage} (hperm : order.Perm order')
    (hnodup : order.Nodup) (hsharing : order.filter Stage.sharing = order'.filter Stage.sharing) :
    order.foldl step c = order'.foldl step c := by
  induction order generalizing c order' with
  | nil => rw [hperm.nil_eq]
  | cons a rest ih =>
      -- `a` comes first in `order`; in `order'` only stages that it commutes with come before it
      obtain ⟨before, after, rfl⟩ := List.append_of_mem (hperm.subset List.mem_cons_self)
      have hrest : rest.Perm (before ++ after) :=
        (List.perm_cons a).mp (hperm.trans List.perm_middle)
      obtain ⟨ha, hnodup⟩ := List.nodup_cons.mp hnodup
      have hbefore : a ∉ before := fun hmem =>
        ha (hrest.mem_iff.mpr (List.mem_append_left after hmem))
      have hfree : ∀ b ∈ before, ¬ (a.sharing = true ∧ b.sharing = true) := by
        rintro b hb ⟨hshares, hshares'⟩
        rw [List.filter_cons_of_pos hshares, List.filter_append] at hsharing
        obtain ⟨b', shared, hfirst⟩ := List.exists_cons_of_ne_nil
          (List.ne_nil_of_mem (List.mem_filter.mpr ⟨hb, hshares'⟩))
        rw [hfirst] at hsharing
        obtain rfl : a = b' := (List.cons.inj hsharing).1
        exact hbefore (List.mem_of_mem_filter (hfirst ▸ List.mem_cons_self))
      have hsharing' : rest.filter Stage.sharing = (before ++ after).filter Stage.sharing := by
        cases hshares : a.sharing with
        | false => simpa [List.filter_append, List.filter_cons, hshares] using hsharing
        | true =>
            have hnone : before.filter Stage.sharing = [] :=
              List.filter_eq_nil_iff.mpr fun b hb hb' => hfree b hb ⟨hshares, hb'⟩
            simpa [List.filter_append, List.filter_cons, hshares, hnone] using hsharing
      calc (a :: rest).foldl step c
        _ = (before ++ after).foldl step (c.step a) := ih (step_wired h a) hrest hnodup hsharing'
        _ = after.foldl step ((before ++ [a]).foldl step c) := by
          rw [List.foldl_append, foldl_step_append h hfree]
        _ = (before ++ a :: after).foldl step c := by simp [List.foldl_append]

/-- The stages that share the devices, in their order. -/
theorem idxOf_lt_of_filter {order : List Stage} {a b : Stage} (hab : a ≠ b)
    (h : order.filter Stage.sharing = [a, b]) : order.idxOf a < order.idxOf b := by
  have hshares : a.sharing = true ∧ b.sharing = true :=
    ⟨List.of_mem_filter (h ▸ by simp : a ∈ order.filter _),
      List.of_mem_filter (h ▸ by simp : b ∈ order.filter _)⟩
  induction order with
  | nil => contradiction
  | cons s order ih =>
      cases hs : s.sharing with
      | true =>
          rw [List.filter_cons_of_pos hs] at h
          obtain rfl : s = a := (List.cons.inj h).1
          rw [List.idxOf_cons_self, List.idxOf_cons_ne _ hab]
          exact Nat.succ_pos _
      | false =>
          have hne {t : Stage} (ht : t.sharing = true) : s ≠ t := by
            rintro rfl
            simp [hs] at ht
          rw [List.filter_cons_of_neg (by simp [hs])] at h
          rw [List.idxOf_cons_ne _ (hne hshares.1), List.idxOf_cons_ne _ (hne hshares.2)]
          exact Nat.succ_lt_succ (ih h)

/-- What is kept of an order if only the stages that share the devices count. -/
theorem filter_sharing {order : List Stage} (h : order.Perm Stage.all) :
    order.filter Stage.sharing =
      if order.idxOf .responder < order.idxOf .bus then [.responder, .bus] else [.bus, .responder] := by
  have hpair : (order.filter Stage.sharing).Perm [.responder, .bus] := h.filter _
  obtain hfilter | hfilter := List.perm_pair.mp hpair
  · rw [hfilter, if_pos (idxOf_lt_of_filter (by decide) hfilter)]
  · rw [hfilter, if_neg (Nat.lt_asymm (idxOf_lt_of_filter (by decide) hfilter))]

/-- One system tick that evaluates its stages in a given order. -/
def tickIn (c : Core) (order : List Stage) : Core :=
  ((order.foldl step c).count { systemTicks := 1 }).commit

/-- A tick evaluates the stages in the order of their list. -/
theorem tick_eq_tickIn (c : Core) : c.tick = c.tickIn Stage.all :=
  rfl

end Core

namespace Bridge

/-- **The order of the stages makes no difference** to a tick, whatever has happened before it, as
long as the responder and the bus keep theirs. -/
theorem tickIn_eq_of_perm {config : Config} {b : Bridge} (hb : ofConfig config = .ok b)
    (incidents : List Incident) {order order' : List Core.Stage}
    (horder : order.Perm Core.Stage.all) (horder' : order'.Perm Core.Stage.all)
    (hkept : order.idxOf .responder < order.idxOf .bus ↔
      order'.idxOf .responder < order'.idxOf .bus) :
    (b.undergo incidents).core.tickIn order = (b.undergo incidents).core.tickIn order' := by
  have hwired := wired_undergo (fresh_ofConfig hb).wired incidents
  have hsharing : order.filter Core.Stage.sharing = order'.filter Core.Stage.sharing := by
    simp only [Core.filter_sharing horder, Core.filter_sharing horder', hkept]
  have hnodup : order.Nodup := horder.nodup_iff.mpr (by decide)
  have hfold := Core.foldl_step_eq_of_perm hwired (horder.trans horder'.symm) hnodup hsharing
  rw [Core.tickIn, hfold, Core.tickIn]

/-- A tick may go against the flow of a packet. -/
theorem tickIn_eq_reversed :
    let b := assemble {} defaultLayout
    let incidents : List Incident := .write readFrame :: List.replicate 12 .tick
    let order : List Core.Stage :=
      [.endpoint, .serializer, .responder, .bus, .deserializer, .framer, .crossbar, .deframer]
    ofConfig {} = .ok b ∧ order.Perm Core.Stage.all ∧
      (b.undergo incidents).core.tickIn order = (b.undergo incidents).core.tickIn Core.Stage.all := by
  intro b incidents order
  have hb : ofConfig {} = .ok b := rfl
  have horder : order.Perm Core.Stage.all := by decide
  exact ⟨hb, horder, tickIn_eq_of_perm hb incidents horder (List.Perm.refl _) (by decide)⟩

end Bridge

end LinkBridge
