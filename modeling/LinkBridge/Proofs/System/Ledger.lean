import LinkBridge.Proofs.Passages
import LinkBridge.Proofs.System.Reachable

/-!
# LinkBridge.Proofs.System.Ledger

What passes the points of a bridge is entered in a `Ledger`. The ledger is kept from the states a
bridge goes through and the counters come from its components, so the two can be held against each
other. At every moment each counter is what has passed its point of the bridge, where what waits in
the queue behind that point has passed it and a packet between its first beat and its last has passed
the crossbar (`Core.passed`). No step of the domain upsets that, and no incident does but a reset of
the domain (`Bridge.Accounts.meet`). What the ledger says of the endpoint can be read from its
histories, as long as they are not cleared (`Bridge.endpoint_remembers`).
-/

namespace LinkBridge

/-- What has passed the points of a bridge. -/
structure Ledger where
  /-- Words accepted from host software. -/
  accepted : List Word := []
  /-- Words drained by host software. -/
  drained : List Word := []
  /-- Beats the crossbar has taken from the deframer. -/
  dispatched : List PacketBeat := []
  /-- Beats the crossbar has taken from the ports, each with its port. -/
  served : List (UInt8 × PacketBeat) := []
  /-- Beats the framer has taken. -/
  framed : List PacketBeat := []
  /-- For every Etherbone request that was performed the records that answer it. -/
  replies : List (List Etherbone.Record) := []
  /-- The TLPs that have reached the endpoint, as far as they can be read. -/
  tlps : List (Except Tlp.Fault Tlp.Record) := []
  /-- The interrupts the endpoint has taken. -/
  vectors : List UInt8 := []

namespace Core

open Crossbar (sentBy Served)
open Tlp.Endpoint (record)

/-! ## keeping a ledger -/

/-- Enters what passes when a stage is evaluated. -/
def note (c : Core) (l : Ledger) : Stage → Ledger
  | .crossbar =>
    let t := c.crossbar.tick c.arriving.peek c.leaving.ready
    { l with
      dispatched := l.dispatched ++ t.removed c.arriving.peek
      served := l.served ++ c.crossbar.serving c.leaving.ready }
  | .framer =>
    let t := c.framer.tick c.leaving.peek c.outbound.ready
    { l with framed := l.framed ++ t.removed c.leaving.peek }
  | .responder =>
    let request := (c.crossbar.port? c.etherboneTag).bind (·.source.peek)
    { l with replies := l.replies ++ c.responder.replying c.bus request }
  | .endpoint =>
    { l with
      tlps := l.tlps ++ c.endpoint.arriving c.down.peek
      vectors := l.vectors ++ c.interrupts.peek.toList }
  | .deframer | .deserializer | .serializer | .bus => l

/-- Enters what passes when stages are evaluated in order. -/
def noteStages (c : Core) (l : Ledger) : List Stage → Ledger
  | [] => l
  | stage :: rest => (c.step stage).noteStages (c.note l stage) rest

/-- Enters what passes on ticks of the domain. -/
def noteTicks (c : Core) (l : Ledger) : Nat → Ledger
  | 0 => l
  | n + 1 => (Nat.repeat tick n c).noteStages (c.noteTicks l n) Stage.all

/-- Stages see nothing of host software. -/
theorem noteStages_host (c : Core) (l : Ledger) (stages : List Stage) :
    (c.noteStages l stages).accepted = l.accepted ∧
      (c.noteStages l stages).drained = l.drained := by
  induction stages generalizing c l with
  | nil => exact ⟨rfl, rfl⟩
  | cons stage stages ih =>
      obtain ⟨haccepted, hdrained⟩ := ih (c.step stage) (c.note l stage)
      cases stage <;> exact ⟨haccepted, hdrained⟩

theorem noteTicks_host (c : Core) (l : Ledger) (n : Nat) :
    (c.noteTicks l n).accepted = l.accepted ∧ (c.noteTicks l n).drained = l.drained := by
  induction n with
  | zero => exact ⟨rfl, rfl⟩
  | succ n ih =>
      obtain ⟨haccepted, hdrained⟩ := noteStages_host (Nat.repeat tick n c) (c.noteTicks l n) Stage.all
      exact ⟨haccepted.trans ih.1, hdrained.trans ih.2⟩

/-- **What stages and the ends of ticks keep, ticks keep.** -/
theorem Wired.noteTicks {P : Core → Ledger → Prop} {c : Core} {l : Ledger} (hw : c.Wired)
    (hstage : ∀ c l, c.Wired → P c l → ∀ stage, P (c.step stage) (c.note l stage))
    (hend : ∀ c l, P c l → P (c.count { systemTicks := 1 }).commit l) (h : P c l) (n : Nat) :
    P (Nat.repeat Core.tick n c) (c.noteTicks l n) := by
  have hstages {c : Core} {l : Ledger} (hw : c.Wired) (h : P c l) (stages : List Stage) :
      P (stages.foldl step c) (c.noteStages l stages) := by
    induction stages generalizing c l with
    | nil => exact h
    | cons stage stages ih => exact ih (step_wired hw stage) (hstage c l hw h stage)
  induction n with
  | zero => exact h
  | succ n ih => exact hend _ _ (hstages (hw.ticks n) ih Stage.all)

/-! ## the balance -/

/-- The beats the user of a port has put into it. -/
def handedOver (c : Core) (l : Ledger) (tag : UInt8) : List PacketBeat :=
  sentBy tag l.served ++ c.crossbar.sinkOf tag

/-- What has passed the points of the domain: what has left the queue behind a point, and what waits
in it. -/
def passed (c : Core) (l : Ledger) : Counters.Passages where
  deframed := (l.dispatched ++ c.arriving.contents).countP (·.last)
  routed := l.dispatched.countP (·.last) + c.crossbar.route.isSome.toNat
  granted := (l.served.map (·.2)).countP (·.last) + c.crossbar.grant.isSome.toNat
  framed := l.framed.countP (·.last)
  tlpsSent := (c.handedOver l c.tlpTag).countP (·.last)
  tlpsReceived := l.tlps.length + c.down.contents.countP (·.last)
  tlpsMalformed := Tlp.Endpoint.malformed l.tlps
  interrupts := (l.vectors ++ c.interrupts.contents).length

/-- A domain and a ledger that agree; `left` are the words that have left the domain. -/
structure Accounts (c : Core) (l : Ledger) (left : List Word) : Prop where
  passages : c.counters.passages = c.passed l
  leaving : l.served.map (·.2) = l.framed ++ c.leaving.contents
  members : ∀ s ∈ l.served, s.1 = c.etherboneTag ∨ s.1 = c.tlpTag
  served : ∃ owner, Served none l.served owner ∧ c.crossbar.Owned owner
  /-- The TLP port has been given packets of the lengths they say. -/
  tlps : c.serializer.Sent (c.handedOver l c.tlpTag)
  replies : c.handedOver l c.etherboneTag ++ c.responder.owed =
    Etherbone.Responder.answers c.etherboneTag l.replies
  words (beats : List PacketBeat) : left ++ c.wording beats =
    Framer.framing.answers false (l.served.map (·.2) ++ beats)

section

variable {c : Core} {l : Ledger} {left : List Word}

/-! ## stage by stage -/

/-- A report adds to what has passed. -/
theorem Accounts.report (h : c.Accounts l left) {counted : Counters} {p : Counters.Passages}
    (hcounted : counted.passages = p) : (c.counters + counted).passages = c.passed l + p := by
  rw [Counters.passages_add, h.passages, hcounted]

/-- Changing a port changes nothing about what the user of another has put into it. -/
theorem handedOver_touches {c' : Core} {tag : UInt8} {p p' : Port}
    (hx : c.crossbar.Touches c'.crossbar tag p p') {other : UInt8} (hother : other ≠ tag) :
    c'.handedOver l other = c.handedOver l other := by
  rw [handedOver, handedOver, (hx.others other hother).1]

/-- What a user puts into its port joins what it has put there. -/
theorem handedOver_fill {c' : Core} {tag : UInt8} {p p' : Port}
    (hx : c.crossbar.Touches c'.crossbar tag p p') {sent : List PacketBeat}
    (hsink : p'.sink.contents = p.sink.contents ++ sent) :
    c'.handedOver l tag = c.handedOver l tag ++ sent := by
  rw [handedOver, handedOver, hx.sink', hx.sink, hsink, List.append_assoc]

theorem Accounts.stepDeframer (h : c.Accounts l left) : c.stepDeframer.Accounts l left := by
  let t := c.deframer.tick c.inbound.peek c.arriving.ready
  have harriving : c.stepDeframer.arriving.contents = c.arriving.contents ++ t.sent.toList :=
    t.contents_fill c.arriving trivial Deframer.ready_of_sent
  refine { h with passages := (h.report (c.deframer.tick_passages ..)).trans ?_ }
  refine congrArg (fun n => { c.passed l with deframed := n }) ?_
  rw [harriving, ← List.append_assoc]
  exact List.countP_append.symm

/-- The crossbar takes from the ports what their users have put into them. -/
theorem handedOver_stepCrossbar (hw : c.Wired) (tag : UInt8) :
    c.stepCrossbar.handedOver (c.note l .crossbar) tag = c.handedOver l tag := by
  have hserves := Crossbar.arbitrate_serves hw.known c.leaving.ready
  have hsink : c.stepCrossbar.crossbar.sinkOf tag =
      (c.crossbar.arbitrate c.leaving.ready).next.sinkOf tag :=
    (Crossbar.dispatch_routes _ c.arriving.peek).sinkOf tag
  show sentBy tag (l.served ++ c.crossbar.serving c.leaving.ready) ++ _ = _
  rw [hsink, Crossbar.sentBy_append, List.append_assoc, handedOver, hserves.sinkOf]

/-- What the crossbar reports is what passes it. -/
theorem passed_stepCrossbar (hw : c.Wired) :
    c.passed l + (c.crossbar.tick c.arriving.peek c.leaving.ready).counted.passages =
      c.stepCrossbar.passed (c.note l .crossbar) := by
  let t := c.crossbar.tick c.arriving.peek c.leaving.ready
  let sent := c.crossbar.serving c.leaving.ready
  have hserves := Crossbar.arbitrate_serves hw.known c.leaving.ready
  have hpasses := Crossbar.tick_passages hw.known c.arriving.peek c.leaving.ready
  have harriving : c.arriving.contents =
      t.removed c.arriving.peek ++ c.stepCrossbar.arriving.contents :=
    Transfer.contents_eq_drain t c.arriving
  have hdeframed : (c.passed l).deframed =
      (c.stepCrossbar.passed (c.note l .crossbar)).deframed := by
    show (l.dispatched ++ c.arriving.contents).countP _ =
      ((l.dispatched ++ t.removed c.arriving.peek) ++ c.stepCrossbar.arriving.contents).countP _
    rw [harriving, List.append_assoc]
  have hrouted : (c.passed l).routed + t.counted.passages.routed =
      (c.stepCrossbar.passed (c.note l .crossbar)).routed := by
    show l.dispatched.countP _ + c.crossbar.route.isSome.toNat + _ =
      (l.dispatched ++ t.removed c.arriving.peek).countP _ + t.next.route.isSome.toNat
    rw [List.countP_append, Nat.add_assoc, Nat.add_comm _ t.counted.passages.routed,
      hpasses.routed, Nat.add_assoc]
  have hgranted : (c.passed l).granted + t.counted.passages.granted =
      (c.stepCrossbar.passed (c.note l .crossbar)).granted := by
    show (l.served.map (·.2)).countP _ + c.crossbar.grant.isSome.toNat + _ =
      ((l.served ++ sent).map (·.2)).countP _ + t.next.grant.isSome.toNat
    rw [List.map_append, List.countP_append, hserves.beats, Nat.add_assoc,
      Nat.add_comm _ t.counted.passages.granted, hpasses.granted, Nat.add_assoc]
    rfl
  have htlps : (c.passed l).tlpsSent = (c.stepCrossbar.passed (c.note l .crossbar)).tlpsSent :=
    congrArg (List.countP PacketBeat.last) (handedOver_stepCrossbar hw c.tlpTag).symm
  rw [hpasses.passages]
  exact Counters.Passages.ext hdeframed hrouted hgranted rfl htlps rfl rfl rfl rfl rfl

theorem Accounts.stepCrossbar (h : c.Accounts l left) (hw : c.Wired) :
    c.stepCrossbar.Accounts (c.note l .crossbar) left := by
  let t := c.crossbar.tick c.arriving.peek c.leaving.ready
  let sent := c.crossbar.serving c.leaving.ready
  have hserves := Crossbar.arbitrate_serves hw.known c.leaving.ready
  have hfollows := stepCrossbar_follows hw
  have hleaving : c.stepCrossbar.leaving.contents = c.leaving.contents ++ sent.map (·.2) := by
    rw [hserves.beats]
    exact t.contents_fill c.leaving trivial hserves.ready
  have hserved : (l.served ++ sent).map (·.2) = l.served.map (·.2) ++ sent.map (·.2) :=
    List.map_append
  refine ⟨(h.report rfl).trans (passed_stepCrossbar hw), ?_, ?_, ?_, ?_, ?_, ?_⟩
  · show (l.served ++ sent).map (·.2) = l.framed ++ c.stepCrossbar.leaving.contents
    rw [hserved, h.leaving, hleaving, List.append_assoc]
  · intro s hs
    rcases List.mem_append.mp hs with hs | hs
    · exact h.members s hs
    · exact hfollows.advances.members s hs
  · obtain ⟨owner, hserved, howned⟩ := h.served
    exact hfollows.advances.served hserved howned
  · have htlps := h.tlps
    rw [← handedOver_stepCrossbar hw c.tlpTag] at htlps
    exact htlps
  · exact (congrArg (· ++ c.responder.owed)
      (handedOver_stepCrossbar hw c.etherboneTag)).trans h.replies
  · intro beats
    show left ++ c.stepCrossbar.wording beats =
      Framer.framing.answers false ((l.served ++ sent).map (·.2) ++ beats)
    rw [hserved, List.append_assoc, ← h.words, hfollows.advances.wording, List.nil_append]

theorem Accounts.stepFramer (h : c.Accounts l left) (hw : c.Wired) :
    c.stepFramer.Accounts (c.note l .framer) left := by
  let t := c.framer.tick c.leaving.peek c.outbound.ready
  have hleaving : c.leaving.contents =
      t.removed c.leaving.peek ++ c.stepFramer.leaving.contents :=
    Transfer.contents_eq_drain t c.leaving
  have hwording (beats : List PacketBeat) : c.wording beats = c.stepFramer.wording beats :=
    (stepFramer_follows hw).advances.wording beats
  refine { h with
    passages := (h.report (c.framer.tick_passages ..)).trans ?_
    leaving := ?_
    words := fun beats => by rw [← hwording]; exact h.words beats }
  · exact congrArg (fun n => { c.passed l with framed := n }) List.countP_append.symm
  · show l.served.map (·.2) = (l.framed ++ t.removed c.leaving.peek) ++ _
    rw [List.append_assoc, ← hleaving, h.leaving]

theorem Accounts.stepDeserializer (h : c.Accounts l left) (hw : c.Wired) :
    c.stepDeserializer.Accounts l left := by
  obtain ⟨port, hport⟩ := hw.exists_port c.tlpTag (by simp)
  let t := c.deserializer.tick port.source.peek c.down.ready
  have hstep : c.stepDeserializer = { c with
      deserializer := t.next, down := t.fill c.down
      crossbar := c.crossbar.modifyPort c.tlpTag fun p => { p with source := t.drain port.source }
      counters := c.counters + t.counted } := stepDeserializer_eq hport
  have hconserves := c.deserializer.tick_conserves port.source.peek c.down.ready
  have hdown : (t.fill c.down).contents = c.down.contents ++ t.sent.toList :=
    t.contents_fill c.down trivial hconserves.ready
  have hx := Crossbar.touches_modifyPort hport
    (f := fun p => { p with source := t.drain port.source }) fun _ => rfl
  have hhanded (tag : UInt8) : c.stepDeserializer.handedOver l tag = c.handedOver l tag := by
    rw [hstep, handedOver, handedOver, hx.sinkOf_eq rfl]
  have hreceived : (c.passed l).tlpsReceived + t.sent.toList.countP (·.last) =
      l.tlps.length + (t.fill c.down).contents.countP (·.last) := by
    rw [hdown, List.countP_append, ← Nat.add_assoc]
    rfl
  rw [hstep] at hhanded ⊢
  refine { h with
    passages := (h.report (c.deserializer.tick_passages ..)).trans ?_
    tlps := ?_
    replies := ?_ }
  · exact congrArg₂ (fun m n => { c.passed l with tlpsSent := m, tlpsReceived := n })
      (congrArg (List.countP PacketBeat.last) (hhanded c.tlpTag).symm) hreceived
  · rw [hhanded]
    exact h.tlps
  · rw [hhanded]
    exact h.replies

theorem Accounts.stepSerializer (h : c.Accounts l left) (hw : c.Wired) :
    c.stepSerializer.Accounts l left := by
  obtain ⟨port, hport⟩ := hw.exists_port c.tlpTag (by simp)
  let t := c.serializer.tick c.up.peek port.sink.ready
  have hstep : c.stepSerializer = { c with
      serializer := t.next, up := t.drain c.up
      crossbar := c.crossbar.modifyPort c.tlpTag fun p => { p with sink := t.fill port.sink }
      counters := c.counters + t.counted } := stepSerializer_eq hport
  have hready := (Tlp.Serializer.tick_keeps hw.sound c.up.peek port.sink.ready).2
  have hsink : (t.fill port.sink).contents = port.sink.contents ++ t.sent.toList :=
    t.contents_fill port.sink trivial hready
  have hx := Crossbar.touches_modifyPort hport
    (f := fun p => { p with sink := t.fill port.sink }) fun _ => rfl
  have hhanded : c.stepSerializer.handedOver l c.tlpTag =
      c.handedOver l c.tlpTag ++ t.sent.toList := by
    rw [hstep]
    exact handedOver_fill hx hsink
  have hothers : c.stepSerializer.handedOver l c.etherboneTag = c.handedOver l c.etherboneTag := by
    rw [hstep]
    exact handedOver_touches hx hw.distinct
  rw [hstep] at hhanded hothers ⊢
  refine { h with
    passages := (h.report (c.serializer.tick_passages ..)).trans ?_
    tlps := ?_
    replies := ?_ }
  · refine congrArg (fun n => { c.passed l with tlpsSent := n }) ?_
    rw [hhanded]
    exact List.countP_append.symm
  · rw [hhanded]
    exact Tlp.Serializer.tick_sent hw.sound h.tlps c.up.peek port.sink.ready
  · rw [hothers]
    exact h.replies

theorem Accounts.stepResponder (h : c.Accounts l left) (hw : c.Wired) :
    c.stepResponder.Accounts (c.note l .responder) left := by
  obtain ⟨port, hport⟩ := hw.exists_port c.etherboneTag (by simp)
  let t := c.responder.tick c.bus port.source.peek port.sink.ready
  have hstep : c.stepResponder = { c with
      responder := t.next.1, bus := t.next.2
      crossbar := c.crossbar.modifyPort c.etherboneTag fun p =>
        { p with source := t.drain port.source, sink := t.fill port.sink }
      counters := c.counters + t.counted } := stepResponder_eq hport
  have hnote : c.note l .responder =
      { l with replies := l.replies ++ c.responder.replying c.bus port.source.peek } := by
    simp only [note, hport]
    rfl
  obtain ⟨hready, howed⟩ := c.responder.tick_owed c.bus port.source.peek port.sink.ready
  have hsink : (t.fill port.sink).contents = port.sink.contents ++ t.sent.toList :=
    t.contents_fill port.sink trivial hready
  have hx := Crossbar.touches_modifyPort hport
    (f := fun p => { p with source := t.drain port.source, sink := t.fill port.sink })
    fun _ => rfl
  have hhanded : c.stepResponder.handedOver l c.etherboneTag =
      c.handedOver l c.etherboneTag ++ t.sent.toList := by
    rw [hstep]
    exact handedOver_fill hx hsink
  have hothers : c.stepResponder.handedOver l c.tlpTag = c.handedOver l c.tlpTag := by
    rw [hstep]
    exact handedOver_touches hx hw.distinct.symm
  rw [hnote]
  rw [hstep] at hhanded hothers ⊢
  refine { h with
    passages := (h.report (c.responder.tick_passages ..)).trans ?_
    tlps := ?_
    replies := ?_ }
  · exact congrArg (fun n => { c.passed l with tlpsSent := n })
      (congrArg (List.countP PacketBeat.last) hothers.symm)
  · have htlps := h.tlps
    rw [← hothers] at htlps
    exact htlps
  · have hanswers : c.responder.owed ++
        Etherbone.Responder.answers c.responder.tag (c.responder.replying c.bus port.source.peek) =
          t.sent.toList ++ t.next.1.owed := howed.symm
    rw [Etherbone.Responder.answers_append, ← h.replies, List.append_assoc, ← hw.responder,
      hanswers, ← List.append_assoc, hw.responder, ← hhanded]
    rfl

theorem Accounts.stepBus (h : c.Accounts l left) (hw : c.Wired) : c.stepBus.Accounts l left := by
  let t := c.bus.tick c.interrupts.ready
  obtain ⟨hready, -, -⟩ :=
    Etherbone.Responder.outlook_tick (r := c.responder) hw.controllers c.interrupts.ready
  have hinterrupts : c.stepBus.interrupts.contents = c.interrupts.contents ++ t.sent.toList :=
    t.contents_fill c.interrupts trivial hready
  refine { h with passages := (h.report (c.bus.tick_passages ..)).trans ?_ }
  refine congrArg (fun n => { c.passed l with interrupts := n }) ?_
  rw [hinterrupts, ← List.append_assoc]
  exact List.length_append.symm

theorem Accounts.stepEndpoint (h : c.Accounts l left) :
    c.stepEndpoint.Accounts (c.note l .endpoint) left := by
  have hdown : c.down.contents = c.down.peek.toList ++ c.stepEndpoint.down.contents :=
    c.down.contents_take
  have hinterrupts : c.interrupts.contents =
      c.interrupts.peek.toList ++ c.stepEndpoint.interrupts.contents :=
    c.interrupts.contents_take
  have hreceived : (c.passed l).tlpsReceived =
      (c.stepEndpoint.passed (c.note l .endpoint)).tlpsReceived := by
    show l.tlps.length + c.down.contents.countP _ =
      (l.tlps ++ c.endpoint.arriving c.down.peek).length + c.stepEndpoint.down.contents.countP _
    rw [hdown, List.countP_append, List.length_append, c.endpoint.length_arriving, Nat.add_assoc]
  have hmalformed : (c.passed l).tlpsMalformed +
      Tlp.Endpoint.malformed (c.endpoint.arriving c.down.peek) =
        (c.stepEndpoint.passed (c.note l .endpoint)).tlpsMalformed :=
    List.countP_append.symm
  have hvectors : (c.passed l).interrupts =
      (c.stepEndpoint.passed (c.note l .endpoint)).interrupts := by
    show (l.vectors ++ c.interrupts.contents).length =
      ((l.vectors ++ c.interrupts.peek.toList) ++ c.stepEndpoint.interrupts.contents).length
    rw [List.append_assoc, ← hinterrupts]
  refine { h with passages := (h.report (c.endpoint.tick_passages ..)).trans ?_ }
  exact Counters.Passages.ext rfl rfl rfl rfl rfl hreceived hmalformed hvectors rfl rfl

/-- **No stage upsets the balance.** -/
theorem Accounts.step (h : c.Accounts l left) (hw : c.Wired) (stage : Stage) :
    (c.step stage).Accounts (c.note l stage) left := by
  cases stage with
  | deframer => exact h.stepDeframer
  | crossbar => exact h.stepCrossbar hw
  | framer => exact h.stepFramer hw
  | deserializer => exact h.stepDeserializer hw
  | serializer => exact h.stepSerializer hw
  | responder => exact h.stepResponder hw
  | bus => exact h.stepBus hw
  | endpoint => exact h.stepEndpoint

/-! ## ticks -/

theorem Accounts.count (h : c.Accounts l left) {counted : Counters}
    (hcounted : counted.passages = {}) : (c.count counted).Accounts l left :=
  { h with passages := h.report hcounted }

theorem Accounts.commit (h : c.Accounts l left) : c.commit.Accounts l left := by
  have hhanded (tag : UInt8) : c.commit.handedOver l tag = c.handedOver l tag :=
    congrArg (sentBy tag l.served ++ ·) (c.crossbar.sinkOf_commit tag)
  have harriving : c.commit.arriving.contents = c.arriving.contents := c.arriving.contents_commit
  have hleaving : c.commit.leaving.contents = c.leaving.contents := c.leaving.contents_commit
  have hdown : c.commit.down.contents = c.down.contents := c.down.contents_commit
  have hinterrupts : c.commit.interrupts.contents = c.interrupts.contents :=
    c.interrupts.contents_commit
  have hpassed : c.commit.passed l = c.passed l := by
    simp only [passed, hhanded, harriving, hdown, hinterrupts]
    rfl
  refine { h with
    passages := h.passages.trans hpassed.symm
    leaving := by rw [hleaving]; exact h.leaving
    tlps := by rw [hhanded]; exact h.tlps
    replies := by rw [hhanded]; exact h.replies
    words := fun beats => ?_ }
  have hwording : c.commit.wording beats = c.wording beats := by
    rw [wording, hleaving]
    rfl
  rw [hwording]
  exact h.words beats

theorem Accounts.ticks (h : c.Accounts l left) (hw : c.Wired) (n : Nat) :
    (Nat.repeat Core.tick n c).Accounts (c.noteTicks l n) left :=
  hw.noteTicks (P := fun c l => c.Accounts l left) (fun _ _ hw h => h.step hw)
    (fun _ _ h => (h.count rfl).commit) h n

/-! ## the histories of the endpoint -/

/-- A domain whose endpoint has kept what the ledger says it was given. -/
structure Remembers (c : Core) (l : Ledger) : Prop where
  received : c.endpoint.received = (Tlp.Endpoint.handled l.tlps).foldl record []
  vectors : c.endpoint.vectors = l.vectors.foldl record []

theorem Remembers.stepEndpoint (h : c.Remembers l) :
    c.stepEndpoint.Remembers (c.note l .endpoint) := by
  obtain ⟨-, -, hvectors⟩ := c.endpoint.tick_conserves c.down.peek c.interrupts.peek c.up.ready
  have hreceived := c.endpoint.tick_received c.down.peek c.interrupts.peek c.up.ready
  constructor
  · show (c.endpoint.tick ..).next.received = _
    rw [hreceived, h.received, ← List.foldl_append, Tlp.Endpoint.handled, Tlp.Endpoint.handled,
      ← List.filterMap_append]
    rfl
  · show (c.endpoint.tick ..).next.vectors = _
    rw [hvectors, h.vectors, ← List.foldl_append]
    rfl

theorem Remembers.step (h : c.Remembers l) (stage : Stage) :
    (c.step stage).Remembers (c.note l stage) := by
  cases stage with
  | endpoint => exact h.stepEndpoint
  | deframer | crossbar | framer | bus => exact ⟨h.received, h.vectors⟩
  | deserializer =>
      have hendpoint : c.stepDeserializer.endpoint = c.endpoint := by
        unfold Core.stepDeserializer
        split <;> rfl
      exact ⟨hendpoint ▸ h.received, hendpoint ▸ h.vectors⟩
  | serializer =>
      have hendpoint : c.stepSerializer.endpoint = c.endpoint := by
        unfold Core.stepSerializer
        split <;> rfl
      exact ⟨hendpoint ▸ h.received, hendpoint ▸ h.vectors⟩
  | responder =>
      have hendpoint : c.stepResponder.endpoint = c.endpoint := by
        unfold Core.stepResponder
        split <;> rfl
      exact ⟨hendpoint ▸ h.received, hendpoint ▸ h.vectors⟩

theorem Remembers.ticks (h : c.Remembers l) (hw : c.Wired) (n : Nat) :
    (Nat.repeat Core.tick n c).Remembers (c.noteTicks l n) :=
  hw.noteTicks (P := Remembers) (fun _ _ _ h => h.step) (fun _ _ h => ⟨h.received, h.vectors⟩) h n

end

end Core

namespace Bridge

/-! ## the whole bridge -/

/-- Enters what passes on an incident. -/
def note (b : Bridge) (l : Ledger) : Incident → Ledger
  | .tick => b.linkTick.core.noteTicks l b.ratio
  | .coreTick => b.core.noteTicks l 1
  | .write words => { l with accepted := l.accepted ++ words.take b.host.free }
  | .drain => { l with drained := l.drained ++ b.host.sentWords }
  | .linkTick | .pause _ | .resetLink | .resetCore | .inject _ | .writeMemory .. | .clearReceived
  | .clearVectors | .readBus _ | .writeBus .. | .writeBusBlock .. => l

/-- Enters what passes on one incident after the other. -/
def noteAll (b : Bridge) (l : Ledger) : List Incident → Ledger
  | [] => l
  | incident :: rest => (b.meet incident).noteAll (b.note l incident) rest

/-- All that passes on one incident after the other. -/
def ledger (b : Bridge) (incidents : List Incident) : Ledger :=
  b.noteAll {} incidents

/-- All words the host has received. -/
def received (b : Bridge) (l : Ledger) : List Word :=
  l.drained ++ b.host.sentWords

/-- A bridge and a ledger that agree. -/
structure Accounts (b : Bridge) (l : Ledger) : Prop where
  core : b.core.Accounts l (b.received l)
  passages : b.linkCounters.passages =
    { wordsIn := b.linkCounters.linkWordsIn, wordsOut := (b.received l).length }
  accepted : b.linkCounters.linkWordsIn + b.host.toDevice.length = l.accepted.length

section

variable {b : Bridge} {l : Ledger}

/-- What leaves the domain on a tick of the link is received. -/
theorem Accounts.linkTick (h : b.Accounts l) : b.linkTick.Accounts l := by
  let m := b.bus.tick b.host b.core.outbound.peek b.core.inbound.ready
  have hm : Link.Bus.Moves b.host b.core.outbound.peek b.core.inbound.ready m :=
    b.bus.tick_moves ..
  have hpassages : m.counted.passages =
      { wordsIn := m.sent.toList.length, wordsOut := (m.removed b.core.outbound.peek).length } :=
    b.bus.tick_passages ..
  have houtbound : b.core.outbound.contents =
      m.removed b.core.outbound.peek ++ b.linkTick.core.outbound.contents := by
    show _ = _ ++ (m.drain b.core.outbound).commitReader.contents
    rw [CrossFifo.contents_commitReader]
    exact Transfer.contents_eq_drain m b.core.outbound
  have hreceived : b.linkTick.received l = b.received l ++ m.removed b.core.outbound.peek := by
    show l.drained ++ m.next.2.sentWords = _
    rw [hm.sentWords, ← List.append_assoc]
    rfl
  have hwordsIn : b.linkTick.linkCounters.linkWordsIn =
      b.linkCounters.linkWordsIn + m.sent.toList.length :=
    congrArg (b.linkCounters.linkWordsIn + ·) hm.wordsIn
  refine ⟨{ h.core with words := fun beats => ?_ }, ?_, ?_⟩
  · have hwords := h.core.words beats
    rw [Core.wording, houtbound, List.append_assoc, ← List.append_assoc, ← hreceived] at hwords
    exact hwords
  · rw [hwordsIn, hreceived, List.length_append]
    show (b.linkCounters + m.counted).passages = _
    rw [Counters.passages_add, h.passages, hpassages]
    rfl
  · have htoDevice := congrArg List.length hm.toDevice
    rw [List.length_append] at htoDevice
    have haccepted := h.accepted
    rw [hwordsIn]
    show _ + m.next.2.toDevice.length = _
    omega

/-- Nothing is accepted or received on ticks of the domain. -/
theorem Accounts.coreTicks (h : b.Accounts l) (hw : b.core.Wired) (n : Nat) :
    ({ b with core := Nat.repeat Core.tick n b.core } : Bridge).Accounts
      (b.core.noteTicks l n) := by
  obtain ⟨haccepted, hdrained⟩ := Core.noteTicks_host b.core l n
  let b' : Bridge := { b with core := Nat.repeat Core.tick n b.core }
  have hreceived : b'.received (b.core.noteTicks l n) = b.received l :=
    congrArg (· ++ b.host.sentWords) hdrained
  refine ⟨?_, ?_, haccepted ▸ h.accepted⟩
  · rw [hreceived]
    exact h.core.ticks hw n
  · rw [hreceived]
    exact h.passages

/-- **No incident upsets the balance**, a reset of the domain apart. -/
theorem Accounts.meet (h : b.Accounts l) (hw : b.core.Wired) {incident : Incident}
    (hincident : incident ≠ .resetCore) : (b.meet incident).Accounts (b.note l incident) := by
  cases incident with
  | tick =>
      have hticks := h.linkTick.coreTicks (linkTick_wired hw) b.ratio
      rw [Bridge.meet, Bridge.tick, advance, repeat_coreTick]
      exact ⟨hticks.core, hticks.passages, hticks.accepted⟩
  | linkTick => exact h.linkTick
  | coreTick => exact h.coreTicks hw 1
  | write words =>
      refine ⟨{ h.core with }, h.passages, ?_⟩
      show b.linkCounters.linkWordsIn + (b.host.toDevice ++ words.take b.host.free).length =
        (l.accepted ++ words.take b.host.free).length
      rw [List.length_append, List.length_append, ← h.accepted, Nat.add_assoc]
  | drain =>
      have hreceived : (b.meet .drain).received (b.note l .drain) = b.received l :=
        List.append_nil _
      refine ⟨{ h.core with words := fun beats => ?_ }, ?_, h.accepted⟩
      · rw [hreceived]
        exact h.core.words beats
      · rw [hreceived]
        exact h.passages
  | resetCore => contradiction
  | pause | resetLink | inject | writeMemory | clearReceived | clearVectors | readBus | writeBus
  | writeBusBlock => exact ⟨{ h.core with }, h.passages, h.accepted⟩

theorem Accounts.undergo (h : b.Accounts l) (hw : b.core.Wired) {incidents : List Incident}
    (hincidents : .resetCore ∉ incidents) :
    (b.undergo incidents).Accounts (b.noteAll l incidents) := by
  induction incidents generalizing b l with
  | nil => exact h
  | cons incident incidents ih =>
      have hfirst : incident ≠ .resetCore := fun heq => hincidents (heq ▸ List.mem_cons_self)
      exact ih (h.meet hw hfirst) (wired_meet hw incident)
        fun hmem => hincidents (List.mem_cons_of_mem incident hmem)

end

/-! ## the histories of the endpoint -/

/-- A history is kept until it is cleared. -/
theorem remembers_meet {b : Bridge} {l : Ledger} (h : b.core.Remembers l) (hw : b.core.Wired)
    {incident : Incident} (hreceived : incident ≠ .clearReceived)
    (hvectors : incident ≠ .clearVectors) : (b.meet incident).core.Remembers (b.note l incident) := by
  cases incident with
  | tick =>
      rw [Bridge.meet, Bridge.tick, advance, repeat_coreTick]
      have hlink : b.linkTick.core.Remembers l := ⟨h.received, h.vectors⟩
      exact hlink.ticks (linkTick_wired hw) b.ratio
  | coreTick => exact h.ticks hw 1
  | clearReceived | clearVectors => contradiction
  | linkTick | write | drain | resetCore | pause | resetLink | inject | writeMemory | readBus
  | writeBus | writeBusBlock => exact ⟨h.received, h.vectors⟩

/-- **What the ledger says of the endpoint the endpoint has kept**, as far as its histories reach. -/
theorem endpoint_remembers {b : Bridge} (hw : b.core.Wired) {l : Ledger}
    (h : b.core.Remembers l) {incidents : List Incident} (hreceived : .clearReceived ∉ incidents)
    (hvectors : .clearVectors ∉ incidents) :
    (b.undergo incidents).core.Remembers (b.noteAll l incidents) := by
  induction incidents generalizing b l with
  | nil => exact h
  | cons incident incidents ih =>
      rw [List.mem_cons, not_or] at hreceived hvectors
      exact ih (wired_meet hw incident)
        (remembers_meet h hw (Ne.symm hreceived.1) (Ne.symm hvectors.1)) hreceived.2 hvectors.2

end Bridge

end LinkBridge
