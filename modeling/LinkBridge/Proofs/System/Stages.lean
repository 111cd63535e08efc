import LinkBridge.Proofs.Framing.Deframer
import LinkBridge.Proofs.System.Forecast

/-!
# LinkBridge.Proofs.System.Stages

What the stages of the system domain do to its forecast. The deframer lets beats enter and the
crossbar sends beats on; every other stage moves something one step further and changes nothing.
For the responder this only holds while the bus is idle.
-/

namespace LinkBridge

namespace Core

open Crossbar (Routed routing sentBy Served)
open Etherbone (Effect)

variable {c : Core}

/-! ## ports -/

theorem Wired.exists_port (h : c.Wired) (tag : UInt8) (htag : tag ∈ [c.etherboneTag, c.tlpTag]) :
    ∃ p, c.crossbar.port? tag = some p := by
  have hsome := c.crossbar.isSome_port? tag
  rw [h.tags, List.contains_iff_mem.mpr htag] at hsome
  exact Option.isSome_iff_exists.mp hsome

/-! ## what a stage keeps -/

/-- What the stages behind the deframer do. -/
structure Follows (c c' : Core) (sent : List (UInt8 × PacketBeat)) : Prop where
  advances : c.Advances c' [] sent []
  wired : c'.Wired
  measured : c.Measured → c'.Measured
  inbound : c'.inbound = c.inbound
  deframer : c'.deframer = c.deframer
  framing : c'.counters.losses.framing = c.counters.losses.framing

theorem Follows.trans {c' c'' : Core} {sent sent' : List (UInt8 × PacketBeat)}
    (h : c.Follows c' sent) (h' : c'.Follows c'' sent') : c.Follows c'' (sent ++ sent') where
  advances := h.advances.trans h'.advances
  wired := h'.wired
  measured hmeasured := h'.measured (h.measured hmeasured)
  inbound := h'.inbound.trans h.inbound
  deframer := h'.deframer.trans h.deframer
  framing := h'.framing.trans h.framing

/-- Nothing that is sent comes from elsewhere. -/
theorem members_nil : ∀ s ∈ ([] : List (UInt8 × PacketBeat)),
    s.1 = c.etherboneTag ∨ s.1 = c.tlpTag := nofun

/-- Sending nothing serves no port. -/
theorem served_nil {x x' : Crossbar} (hgrant : x'.grant = x.grant) {owner : Option UInt8}
    {before : List (UInt8 × PacketBeat)} (hserved : Served none before owner)
    (howned : x.Owned owner) : ∃ owner', Served none (before ++ []) owner' ∧ x'.Owned owner' := by
  refine ⟨owner, by rwa [List.append_nil], ?_⟩
  rw [Crossbar.Owned, hgrant]
  exact howned

/-- A report without losses on the way in does not change how many packets were refused. -/
theorem refused_add {counted : Counters} (h : counted.losses = {}) (n : Nat) :
    c.counters.packetsUnrouted + n = (c.counters + counted).packetsUnrouted + n :=
  congrArg (·.unrouted + n) (Counters.losses_add_of_eq h).symm

/-- A report without given up TLPs does not change how many were given up. -/
theorem overflowed_add {counted : Counters} (h : counted.tlpOverflows = 0) {n n' : Int}
    (hn : n = n') : (c.counters.tlpOverflows : Int) + n =
      ((c.counters + counted).tlpOverflows : Int) + n' := by
  have hcount : (c.counters + counted).tlpOverflows = c.counters.tlpOverflows + counted.tlpOverflows :=
    rfl
  rw [hcount, h, hn, Nat.add_zero]

/-! ## stage by stage -/

/-- **The framer passes words on.** -/
theorem stepFramer_follows (h : c.Wired) : c.Follows c.stepFramer [] := by
  have hlossless := c.framer.lossless_tick c.leaving.peek c.outbound.ready
  have hwording (beats : List PacketBeat) : c.stepFramer.wording beats = c.wording beats :=
    (c.framer.tick_conserves (Source.peek c.leaving) (Sink.ready c.outbound)).contents
      c.leaving c.outbound h.outbound beats
  exact
    { advances :=
        { tags := ⟨rfl, rfl⟩
          refused := fun _ => refused_add hlossless.losses _
          endpoint := fun _ => rfl
          completions := fun _ => rfl
          overflowed := fun _ => overflowed_add hlossless.tlpOverflows rfl
          bus := fun _ => rfl
          replies := fun _ => rfl
          vectors := fun _ => rfl
          wording := fun beats => (hwording beats).symm
          members := members_nil
          served := served_nil rfl }
      wired := { h with outbound := (CrossFifo.isOpen_fill _ _).mpr h.outbound }
      measured := id
      inbound := rfl
      deframer := rfl
      framing := congrArg _ (Counters.losses_add_of_eq hlossless.losses) }

/-- **The bus passes an interrupt on.** -/
theorem stepBus_follows (h : c.Wired) : c.Follows c.stepBus [] := by
  have hlossless := c.bus.lossless_tick c.interrupts.ready
  obtain ⟨hready, hstanding, houtlook⟩ :=
    Etherbone.Responder.outlook_tick (r := c.responder) h.controllers c.interrupts.ready
  have hcontents : c.stepBus.interrupts.contents =
      c.interrupts.contents ++ (c.bus.tick c.interrupts.ready).sent.toList :=
    Transfer.contents_fill _ c.interrupts trivial hready
  have heffects (beats : List PacketBeat) : c.effects beats =
      (c.bus.tick c.interrupts.ready).sent.toList.map .interrupt ++ c.stepBus.effects beats :=
    houtlook _
  exact
    { advances :=
        { tags := ⟨rfl, rfl⟩
          refused := fun _ => refused_add hlossless.losses _
          endpoint := fun _ => rfl
          completions := fun _ => rfl
          overflowed := fun _ => overflowed_add hlossless.tlpOverflows rfl
          bus := fun beats => congrArg (Etherbone.receiving.after · _) hstanding.symm
          replies := fun beats => by
            have hbeats : Effect.beats c.responder.tag (c.effects beats) =
                Effect.beats c.responder.tag (c.stepBus.effects beats) := by
              rw [heffects, Effect.beats_append]
              simp [Effect.beats]
            exact congrArg (fun beats => c.crossbar.sinkOf c.etherboneTag ++
              (c.responder.owed ++ beats)) hbeats
          vectors := fun beats => by
            rw [List.nil_append, vectorsBehind, heffects, Effect.vectors_append,
              Effect.vectors_interrupt, ← List.append_assoc, ← hcontents]
            rfl
          wording := fun _ => rfl
          members := members_nil
          served := served_nil rfl }
      wired := { h with controllers := (c.bus.kinds_tick _).symm ▸ h.controllers }
      measured := id
      inbound := rfl
      deframer := rfl
      framing := congrArg _ (Counters.losses_add_of_eq hlossless.losses) }

/-- The completions that the endpoint adds are short. -/
theorem stepEndpoint_measured (h : c.Measured) : c.stepEndpoint.Measured := by
  let t := c.endpoint.tick c.down.peek c.interrupts.peek c.up.ready
  obtain ⟨answers, houtbound, hlengths⟩ :=
    c.endpoint.tick_outbound c.down.peek c.interrupts.peek c.up.ready
  have hready := (c.endpoint.tick_conserves c.down.peek c.interrupts.peek c.up.ready).1.ready
  have hup : c.stepEndpoint.up.contents = c.up.contents ++ t.sent.toList :=
    t.contents_fill c.up trivial hready
  have hbeats : c.stepEndpoint.up.contents ++ c.stepEndpoint.endpoint.outbound =
      c.up.contents ++ c.endpoint.outbound ++ (answers.map Tlp.Record.toBeats).flatten := by
    rw [hup, List.append_assoc, List.append_assoc, ← List.flatMap_def]
    exact congrArg (c.up.contents ++ ·) houtbound
  rw [Measured, hbeats]
  refine Tlp.Serializer.Measured.append h (List.forall_mem_map.mpr fun r hr => ?_)
  obtain ⟨-, hpos, hle⟩ := hlengths r hr
  exact Tlp.Serializer.sendable_ofDwords (List.ne_nil_of_length_pos (by omega))
    fun _ => Nat.lt_of_le_of_lt hle (by decide)

/-- **The endpoint takes TLPs and interrupts and passes completions on.** -/
theorem stepEndpoint_follows (h : c.Wired) : c.Follows c.stepEndpoint [] := by
  have hlossless := c.endpoint.lossless_tick c.down.peek c.interrupts.peek c.up.ready
  obtain ⟨hconserves, hafter, hvectors⟩ :=
    c.endpoint.tick_conserves c.down.peek c.interrupts.peek c.up.ready
  have hdown : c.down.contents = c.down.peek.toList ++ c.stepEndpoint.down.contents :=
    c.down.contents_take
  have hinterrupts : c.interrupts.contents =
      c.interrupts.peek.toList ++ c.stepEndpoint.interrupts.contents :=
    c.interrupts.contents_take
  have hupstream (beats : List PacketBeat) : c.stepEndpoint.upstream beats = c.upstream beats :=
    hconserves.contents c.down c.up trivial _
  exact
    { advances :=
        { tags := ⟨rfl, rfl⟩
          refused := fun _ => refused_add hlossless.losses _
          endpoint := fun beats => by
            rw [List.nil_append, endpointBehind, downstream, hdown, List.append_assoc, ← hafter]
            rfl
          completions := fun beats =>
            congrArg (fun beats => c.crossbar.sinkOf c.tlpTag ++ c.serializer.future beats)
              (hupstream beats).symm
          overflowed := fun beats => overflowed_add hlossless.tlpOverflows
            (congrArg c.serializer.overflowsDue (hupstream beats).symm)
          bus := fun _ => rfl
          replies := fun _ => rfl
          vectors := fun beats => by
            rw [List.nil_append, vectorsBehind, hinterrupts, List.append_assoc, List.foldl_append,
              ← hvectors]
            rfl
          wording := fun _ => rfl
          members := members_nil
          served := served_nil rfl }
      wired := { h with }
      measured := stepEndpoint_measured
      inbound := rfl
      deframer := rfl
      framing := congrArg _ (Counters.losses_add_of_eq hlossless.losses) }

/-- Changing a port changes nothing about where the inbound beats go. -/
theorem routed_touches {c' : Core} {tag : UInt8} {p p' : Port}
    (hx : c.crossbar.Touches c'.crossbar tag p p')
    (harriving : c'.arriving = c.arriving) (beats : List PacketBeat) :
    c'.routed beats = c.routed beats := by
  rw [routed, routed, hx.tags, hx.route, harriving]

/-- Nor about the wiring. -/
theorem known_touches {x x' : Crossbar} {tag : UInt8} {p p' : Port} (hx : x.Touches x' tag p p')
    (h : x.GrantKnown) : x'.GrantKnown := by
  intro tag htag
  rw [hx.grant] at htag
  rw [hx.tags]
  exact h tag htag

/-- **The deserializer passes TLPs on.** -/
theorem stepDeserializer_follows (h : c.Wired) : c.Follows c.stepDeserializer [] := by
  obtain ⟨port, hport⟩ := h.exists_port c.tlpTag (by simp)
  let t := c.deserializer.tick port.source.peek c.down.ready
  let c' : Core :=
    { c with
      deserializer := t.next, down := t.fill c.down
      crossbar := c.crossbar.modifyPort c.tlpTag fun p => { p with source := t.drain port.source }
      counters := c.counters + t.counted }
  have hstep : c.stepDeserializer = c' := by
    rw [stepDeserializer, hport]
    rfl
  have hx : c.crossbar.Touches c'.crossbar c.tlpTag port
      { port with source := t.drain port.source } :=
    Crossbar.touches_modifyPort hport fun _ => rfl
  have hlossless : t.counted.Lossless := c.deserializer.lossless_tick port.source.peek c.down.ready
  have hrouted := routed_touches hx rfl
  obtain ⟨hsinks, hsources⟩ := hx.others c.etherboneTag h.distinct
  have hdeliveries (beats : List PacketBeat) :
      c'.deliveries c.etherboneTag beats = c.deliveries c.etherboneTag beats := by
    rw [deliveries, deliveries, hrouted, hsources]
  have hsame : c.SameEtherbone c' := ⟨rfl, rfl, rfl, rfl, rfl⟩
  have hetherbone := hsame.keeps [] [] hdeliveries hsinks.symm
  have hdownstream (beats : List PacketBeat) : c'.downstream beats = c.downstream beats := by
    have hconserves := c.deserializer.tick_conserves (Source.peek port.source) (Sink.ready c.down)
    rw [downstream, downstream, deliveries, deliveries, hrouted, hx.source, hx.source']
    exact hconserves.contents port.source c.down trivial _
  rw [hstep]
  exact
    { advances :=
        { tags := ⟨rfl, rfl⟩
          refused := fun beats => by
            rw [refused, refused, hrouted]
            exact refused_add hlossless.losses _
          endpoint := fun beats => by
            rw [endpointBehind, endpointBehind, hdownstream]
            rfl
          completions := fun beats => by
            rw [completionsDue, completionsDue, upstream, upstream, hdownstream, hx.sink, hx.sink']
            rfl
          overflowed := fun beats => overflowed_add hlossless.tlpOverflows
            (congrArg (fun beats => c.serializer.overflowsDue (c.up.contents ++
              c.endpoint.future beats)) (hdownstream beats).symm)
          bus := fun beats => (hetherbone beats).1
          replies := fun beats => (hetherbone beats).2.1
          vectors := fun beats => (hetherbone beats).2.2
          wording := fun _ => rfl
          members := members_nil
          served := served_nil rfl }
      wired := { h with tags := hx.tags.trans h.tags, known := known_touches hx h.known }
      measured := id
      inbound := rfl
      deframer := rfl
      framing := congrArg _ (Counters.losses_add_of_eq hlossless.losses) }

/-- Whatever is sent, the serializer stays at its place. -/
theorem stepSerializer_wired (h : c.Wired) : c.stepSerializer.Wired := by
  obtain ⟨port, hport⟩ := h.exists_port c.tlpTag (by simp)
  let t := c.serializer.tick c.up.peek port.sink.ready
  let x := c.crossbar.modifyPort c.tlpTag fun p => { p with sink := t.fill port.sink }
  have hstep : c.stepSerializer =
      { c with
        serializer := t.next, up := t.drain c.up, crossbar := x
        counters := c.counters + t.counted } := by
    rw [stepSerializer, hport]
    rfl
  have hx : c.crossbar.Touches x c.tlpTag port { port with sink := t.fill port.sink } :=
    Crossbar.touches_modifyPort hport fun _ => rfl
  have hkeeps := (Tlp.Serializer.tick_keeps h.sound c.up.peek port.sink.ready).1
  rw [hstep]
  exact { h with
    tags := hx.tags.trans h.tags
    known := known_touches hx h.known
    sound := hkeeps.sound
    serializer := hkeeps.tag.trans h.serializer }

/-- **The serializer passes completions on**, as long as their lengths fit. -/
theorem stepSerializer_follows (h : c.Wired) (hmeasured : c.Measured) :
    c.Follows c.stepSerializer [] := by
  obtain ⟨port, hport⟩ := h.exists_port c.tlpTag (by simp)
  let t := c.serializer.tick c.up.peek port.sink.ready
  let c' : Core :=
    { c with
      serializer := t.next, up := t.drain c.up
      crossbar := c.crossbar.modifyPort c.tlpTag fun p => { p with sink := t.fill port.sink }
      counters := c.counters + t.counted }
  have hstep : c.stepSerializer = c' := by
    rw [stepSerializer, hport]
    rfl
  have hx : c.crossbar.Touches c'.crossbar c.tlpTag port { port with sink := t.fill port.sink } :=
    Crossbar.touches_modifyPort hport fun _ => rfl
  have hlosses : t.counted.losses = {} := c.serializer.losses_tick c.up.peek port.sink.ready
  have hup : c.up.contents ++ c.endpoint.outbound =
      c.up.peek.toList ++ (c.up.take.contents ++ c.endpoint.outbound) := by
    rw [c.up.contents_take, List.append_assoc]
  rw [Measured, hup] at hmeasured
  obtain ⟨hmeasured', hconserves⟩ :=
    Tlp.Serializer.tick_conserves hmeasured (Sink.ready port.sink)
  have hrouted := routed_touches hx rfl
  obtain ⟨hsinks, hsources⟩ := hx.others c.etherboneTag h.distinct
  have hdeliveries (beats : List PacketBeat) :
      c'.deliveries c.etherboneTag beats = c.deliveries c.etherboneTag beats := by
    rw [deliveries, deliveries, hrouted, hsources]
  have hsame : c.SameEtherbone c' := ⟨rfl, rfl, rfl, rfl, rfl⟩
  have hetherbone := hsame.keeps [] [] hdeliveries hsinks.symm
  have hdownstream (beats : List PacketBeat) : c'.downstream beats = c.downstream beats := by
    rw [downstream, downstream, deliveries, deliveries, hrouted, hx.source, hx.source']
  have hcompletions (beats : List PacketBeat) :
      c'.completionsDue beats = c.completionsDue beats := by
    rw [completionsDue, completionsDue, upstream, upstream, hdownstream, hx.sink, hx.sink']
    exact hconserves.contents c.up port.sink trivial _
  have hoverflowed (beats : List PacketBeat) : c'.overflowed beats = c.overflowed beats := by
    let xs := c.up.take.contents ++ c.endpoint.future (c.downstream beats)
    have hbefore : c.upstream beats = c.up.peek.toList ++ xs := by
      rw [upstream, c.up.contents_take, List.append_assoc]
    have hbehind : c'.upstream beats = t.left c.up.peek ++ xs := by
      rw [upstream, hdownstream, ← List.append_assoc]
      exact congrArg (· ++ _) (Transfer.contents_drain t c.up)
    have htick := Tlp.Serializer.overflowsDue_tick hmeasured port.sink.ready xs
    rw [overflowed, overflowed, hbefore, hbehind, ← htick]
    show ((c.counters.tlpOverflows + t.counted.tlpOverflows : Nat) : Int) + _ = _
    rw [Int.natCast_add, Int.add_assoc]
  rw [hstep]
  exact
    { advances :=
        { tags := ⟨rfl, rfl⟩
          refused := fun beats => by
            rw [refused, refused, hrouted]
            exact refused_add hlosses _
          endpoint := fun beats => by
            rw [endpointBehind, endpointBehind, hdownstream]
            rfl
          completions := fun beats => (hcompletions beats).symm
          overflowed := fun beats => (hoverflowed beats).symm
          bus := fun beats => (hetherbone beats).1
          replies := fun beats => (hetherbone beats).2.1
          vectors := fun beats => (hetherbone beats).2.2
          wording := fun _ => rfl
          members := members_nil
          served := served_nil rfl }
      wired := hstep ▸ stepSerializer_wired h
      measured := fun _ => by
        have hleft : c'.up.contents = t.left c.up.peek ++ c.up.take.contents :=
          Transfer.contents_drain t c.up
        rw [Measured, hleft, List.append_assoc]
        exact hmeasured'
      inbound := rfl
      deframer := rfl
      framing := congrArg _ (Counters.losses_add_of_eq hlosses) }

/-- **As long as the bus is idle the responder passes requests and answers on.** -/
theorem stepResponder_follows (h : c.Wired) (hbus : c.bus.isIdle = true) :
    c.Follows c.stepResponder [] ∧
      (c.stepResponder.bus = c.bus ∨ c.stepResponder.responder.request = #[]) ∧
      (c.responder.request = #[] → c.stepResponder.bus = c.bus) := by
  obtain ⟨port, hport⟩ := h.exists_port c.etherboneTag (by simp)
  let t := c.responder.tick c.bus port.source.peek port.sink.ready
  let c' : Core :=
    { c with
      responder := t.next.1, bus := t.next.2
      crossbar := c.crossbar.modifyPort c.etherboneTag fun p =>
        { p with source := t.drain port.source, sink := t.fill port.sink }
      counters := c.counters + t.counted }
  have hstep : c.stepResponder = c' := by
    rw [stepResponder, hport]
    rfl
  have hx : c.crossbar.Touches c'.crossbar c.etherboneTag port
      { port with source := t.drain port.source, sink := t.fill port.sink } :=
    Crossbar.touches_modifyPort hport fun _ => rfl
  have hkeeps := Etherbone.Responder.tick_keeps (r := c.responder) hbus (Source.peek port.source)
    (Sink.ready port.sink)
  have hlossless : t.counted.Lossless := hkeeps.lossless
  have hrouted := routed_touches hx rfl
  obtain ⟨hsinks, hsources⟩ := hx.others c.tlpTag h.distinct.symm
  have hdeliveries (beats : List PacketBeat) :
      c'.deliveries c.tlpTag beats = c.deliveries c.tlpTag beats := by
    rw [deliveries, deliveries, hrouted, hsources]
  have hsame : c.SameTlp c' := ⟨rfl, rfl, rfl, rfl, rfl, rfl⟩
  have htlp := hsame.keeps [] [] hdeliveries hsinks.symm
  -- the responder sees what it has not taken behind what it leaves of the presented beat
  have hbefore (beats : List PacketBeat) : c.deliveries c.etherboneTag beats =
      port.source.peek.toList ++
        (port.source.take.contents ++ Routed.sentTo c.etherboneTag (c.routed beats)) := by
    rw [deliveries, hx.source, port.source.contents_take, List.append_assoc]
  have hbehind (beats : List PacketBeat) : c'.deliveries c.etherboneTag beats =
      t.left port.source.peek ++
        (port.source.take.contents ++ Routed.sentTo c.etherboneTag (c.routed beats)) := by
    rw [deliveries, hrouted, hx.source', ← List.append_assoc]
    exact congrArg (· ++ _) (Transfer.contents_drain t port.source)
  have hreplies (beats : List PacketBeat) : c'.repliesDue beats = c.repliesDue beats := by
    rw [repliesDue, repliesDue, deliveries, deliveries, hrouted, hx.sink, hx.sink', hx.source,
      hx.source']
    exact hkeeps.conserves.contents port.source port.sink trivial _
  refine ⟨?_, ?_, ?_⟩ <;> rw [hstep]
  · exact
      { advances :=
          { tags := ⟨rfl, rfl⟩
            refused := fun beats => by
              rw [refused, refused, hrouted]
              exact refused_add hlossless.losses _
            endpoint := fun beats => (htlp beats).1
            completions := fun beats => (htlp beats).2.1
            overflowed := fun beats =>
              overflowed_add hlossless.tlpOverflows (htlp beats).2.2
            bus := fun beats => by
              rw [busBehind, busBehind, List.nil_append, hbefore, hbehind]
              exact (hkeeps.standing _).symm
            replies := fun beats => (hreplies beats).symm
            vectors := fun beats => by
              rw [vectorsBehind, vectorsBehind, effects, effects, List.nil_append, hbefore, hbehind]
              exact congrArg (fun vectors => (c.interrupts.contents ++ vectors).foldl _ _)
                (hkeeps.vectors _).symm
            wording := fun _ => rfl
            members := members_nil
            served := served_nil rfl }
        wired := { h with
          tags := hx.tags.trans h.tags
          known := known_touches hx h.known
          responder := hkeeps.tag.trans h.responder
          controllers := hkeeps.kinds.symm ▸ h.controllers }
        measured := id
        inbound := rfl
        deframer := rfl
        framing := congrArg _ (Counters.losses_add_of_eq hlossless.losses) }
  · exact hkeeps.request
  · exact hkeeps.short

/-- **The crossbar passes beats on, from one port at a time.** -/
theorem stepCrossbar_follows (h : c.Wired) :
    c.Follows c.stepCrossbar (c.crossbar.serving c.leaving.ready) := by
  let outbound := c.crossbar.arbitrate c.leaving.ready
  let inbound := outbound.next.dispatch c.arriving.peek
  let sent := c.crossbar.serving c.leaving.ready
  have hserves : c.crossbar.Serves c.leaving.ready outbound sent :=
    Crossbar.arbitrate_serves h.known c.leaving.ready
  have hroutes : outbound.next.Routes c.arriving.peek inbound :=
    Crossbar.dispatch_routes outbound.next c.arriving.peek
  have htags : c.stepCrossbar.crossbar.tags = c.crossbar.tags := hroutes.tags.trans hserves.tags
  have harriving : c.stepCrossbar.arriving.contents =
      inbound.left c.arriving.peek ++ c.arriving.take.contents :=
    Transfer.contents_drain inbound c.arriving
  have hleaving : c.stepCrossbar.leaving.contents = c.leaving.contents ++ sent.map (·.2) := by
    rw [hserves.beats]
    exact (c.crossbar.tick c.arriving.peek c.leaving.ready).contents_fill c.leaving trivial
      hserves.ready
  have hrouted (beats : List PacketBeat) : c.stepCrossbar.routed beats =
      (routing outbound.next.tags).answers inbound.next.route
        (inbound.left c.arriving.peek ++ (c.arriving.take.contents ++ beats)) := by
    rw [routed, htags, ← hserves.tags, harriving, List.append_assoc]
    rfl
  have hrouted' (beats : List PacketBeat) : c.routed beats =
      (routing outbound.next.tags).answers outbound.next.route
        (c.arriving.peek.toList ++ (c.arriving.take.contents ++ beats)) := by
    rw [routed, c.arriving.contents_take, List.append_assoc, hserves.tags, hserves.route]
  have hdeliveries (tag : UInt8) (beats : List PacketBeat) :
      c.stepCrossbar.deliveries tag beats = c.deliveries tag beats := by
    rw [deliveries, deliveries, hrouted, hrouted', ← hserves.sourceOf]
    exact hroutes.sourceOf tag _
  have hsinks (tag : UInt8) :
      c.crossbar.sinkOf tag = sentBy tag sent ++ c.stepCrossbar.crossbar.sinkOf tag := by
    rw [hserves.sinkOf, ← hroutes.sinkOf]
    rfl
  have hsame : c.SameTlp c.stepCrossbar := ⟨rfl, rfl, rfl, rfl, rfl, rfl⟩
  have hsame' : c.SameEtherbone c.stepCrossbar := ⟨rfl, rfl, rfl, rfl, rfl⟩
  have htlp := hsame.keeps [] sent (hdeliveries _) (hsinks _)
  have hetherbone := hsame'.keeps [] sent (hdeliveries _) (hsinks _)
  exact
    { advances :=
        { tags := ⟨rfl, rfl⟩
          refused := fun beats => by
            have hrefusals := hroutes.refusals (c.arriving.take.contents ++ beats)
            have hcounted : c.stepCrossbar.counters.packetsUnrouted =
                c.counters.packetsUnrouted +
                  (outbound.counted.packetsUnrouted + inbound.counted.packetsUnrouted) := rfl
            rw [refused, refused, List.nil_append, hrouted, hrouted', hcounted, hserves.unrouted]
            omega
          endpoint := fun beats => (htlp beats).1
          completions := fun beats => (htlp beats).2.1
          overflowed := fun beats => overflowed_add (Crossbar.framing_tick ..).2 (htlp beats).2.2
          bus := fun beats => (hetherbone beats).1
          replies := fun beats => (hetherbone beats).2.1
          vectors := fun beats => (hetherbone beats).2.2
          wording := fun beats => by
            rw [Core.wording, Core.wording, hleaving, List.append_assoc]
            rfl
          members := fun s hs => by
            have hmem := hserves.members s hs
            rw [h.tags] at hmem
            simpa using hmem
          served := fun hserved howned => by
            obtain ⟨owner, hserved, howned⟩ := hserves.served hserved howned
            refine ⟨owner, hserved, ?_⟩
            rw [Crossbar.Owned, ← hroutes.grant] at howned
            exact howned }
      wired := { h with
        tags := htags.trans h.tags
        known := fun tag htag => by
          have hgrant : outbound.next.grant = some tag := hroutes.grant.symm.trans htag
          exact hroutes.tags.symm ▸ hserves.known tag hgrant }
      measured := id
      inbound := rfl
      deframer := rfl
      framing := Counters.framing_add rfl (Crossbar.framing_tick ..).1 }

/-- **The deframer lets beats enter.** -/
theorem stepDeframer_advances (h : c.Wired) :
    c.Advances c.stepDeframer
        (c.deframer.tick c.inbound.peek c.arriving.ready).sent.toList [] [] ∧
      c.stepDeframer.Wired := by
  let t := c.deframer.tick c.inbound.peek c.arriving.ready
  have harriving : c.stepDeframer.arriving.contents = c.arriving.contents ++ t.sent.toList :=
    t.contents_fill c.arriving trivial Deframer.ready_of_sent
  have hrouted (beats : List PacketBeat) :
      c.stepDeframer.routed beats = c.routed (t.sent.toList ++ beats) := by
    rw [routed, routed, harriving, List.append_assoc]
    rfl
  have hdeliveries (tag : UInt8) (beats : List PacketBeat) :
      c.stepDeframer.deliveries tag beats = c.deliveries tag (t.sent.toList ++ beats) :=
    congrArg (fun routed => c.crossbar.sourceOf tag ++ Routed.sentTo tag routed) (hrouted beats)
  have hsame : c.SameTlp c.stepDeframer := ⟨rfl, rfl, rfl, rfl, rfl, rfl⟩
  have hsame' : c.SameEtherbone c.stepDeframer := ⟨rfl, rfl, rfl, rfl, rfl⟩
  have htlp := hsame.keeps t.sent.toList [] (hdeliveries _) rfl
  have hetherbone := hsame'.keeps t.sent.toList [] (hdeliveries _) rfl
  have hreports : t.counted.packetsUnrouted = 0 ∧ t.counted.tlpOverflows = 0 :=
    Deframer.reports_tick ..
  have hcounted : c.stepDeframer.counters.packetsUnrouted = c.counters.packetsUnrouted := by
    show c.counters.packetsUnrouted + t.counted.packetsUnrouted = _
    rw [hreports.1]
    rfl
  constructor
  · exact
      { tags := ⟨rfl, rfl⟩
        refused := fun beats => by rw [refused, refused, hrouted, hcounted]
        endpoint := fun beats => (htlp beats).1
        completions := fun beats => (htlp beats).2.1
        overflowed := fun beats => overflowed_add hreports.2 (htlp beats).2.2
        bus := fun beats => (hetherbone beats).1
        replies := fun beats => (hetherbone beats).2.1
        vectors := fun beats => (hetherbone beats).2.2
        wording := fun _ => rfl
        members := members_nil
        served := served_nil rfl }
  · exact { h with inbound := (CrossFifo.isOpen_drain _ _).mpr h.inbound }

/-- A lossless report changes nothing. -/
theorem count_follows (h : c.Wired) (counted : Counters) (hlossless : counted.Lossless) :
    c.Follows (c.count counted) [] :=
  { advances :=
      { tags := ⟨rfl, rfl⟩
        refused := fun _ => refused_add hlossless.losses _
        endpoint := fun _ => rfl
        completions := fun _ => rfl
        overflowed := fun _ => overflowed_add hlossless.tlpOverflows rfl
        bus := fun _ => rfl
        replies := fun _ => rfl
        vectors := fun _ => rfl
        wording := fun _ => rfl
        members := members_nil
        served := served_nil rfl }
    wired := { h with }
    measured := id
    inbound := rfl
    deframer := rfl
    framing := congrArg _ (Counters.losses_add_of_eq hlossless.losses) }

/-- **The end of a tick makes visible what is stored.** -/
theorem commit_advances (h : c.Wired) :
    c.Advances c.commit [] [] [] ∧ c.commit.Wired := by
  have hrouted (beats : List PacketBeat) : c.commit.routed beats = c.routed beats := by
    show (routing c.crossbar.commit.tags).answers c.crossbar.route
      (c.arriving.commit.contents ++ beats) = c.routed beats
    rw [Crossbar.tags_commit, Channel.contents_commit]
    rfl
  have hdeliveries (tag : UInt8) (beats : List PacketBeat) :
      c.commit.deliveries tag beats = c.deliveries tag beats := by
    rw [deliveries, deliveries, hrouted]
    exact congrArg (· ++ _) (c.crossbar.sourceOf_commit tag)
  have hsinks (tag : UInt8) : c.commit.crossbar.sinkOf tag = c.crossbar.sinkOf tag :=
    c.crossbar.sinkOf_commit tag
  have hsame : c.SameTlp c.commit :=
    ⟨rfl, rfl, c.down.contents_commit, rfl, c.up.contents_commit, rfl⟩
  have hsame' : c.SameEtherbone c.commit := ⟨rfl, rfl, rfl, c.interrupts.contents_commit, rfl⟩
  have htlp := hsame.keeps [] [] (hdeliveries _) (hsinks _).symm
  have hetherbone := hsame'.keeps [] [] (hdeliveries _) (hsinks _).symm
  have hleaving : c.commit.leaving.contents = c.leaving.contents := c.leaving.contents_commit
  constructor
  · exact
      { tags := ⟨rfl, rfl⟩
        refused := fun beats => by
          rw [refused, refused, hrouted]
          rfl
        endpoint := fun beats => (htlp beats).1
        completions := fun beats => (htlp beats).2.1
        overflowed := fun beats => congrArg ((c.counters.tlpOverflows : Int) + ·) (htlp beats).2.2
        bus := fun beats => (hetherbone beats).1
        replies := fun beats => (hetherbone beats).2.1
        vectors := fun beats => (hetherbone beats).2.2
        wording := fun beats => by
          rw [Core.wording, Core.wording, hleaving]
          rfl
        members := members_nil
        served := served_nil rfl }
  · exact { h with
      tags := (c.crossbar.tags_commit).trans h.tags
      known := fun tag htag => (c.crossbar.tags_commit).symm ▸ h.known tag htag
      inbound := (CrossFifo.isOpen_commitReader _).mpr h.inbound }

theorem commit_measured (h : c.Measured) : c.commit.Measured := by
  have hup : c.commit.up.contents = c.up.contents := c.up.contents_commit
  rw [Measured, hup]
  exact h

end Core

end LinkBridge
