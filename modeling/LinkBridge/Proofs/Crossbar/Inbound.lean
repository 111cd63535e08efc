import LinkBridge.Crossbar
import LinkBridge.Proofs.Stream.Contents
import LinkBridge.Proofs.Stream.Transducer

/-!
# LinkBridge.Proofs.Crossbar.Inbound

The inbound half of the crossbar, and what its ports store. Routing a stream of beats needs no more
than the registered destinations and the route of the packet in progress; the crossbar may settle a
route before it takes the beat, and may hold a beat back while a port is full, but what a port
stores, followed by what will still be routed to it, never changes (`dispatch_routes`).
-/

namespace LinkBridge

namespace Crossbar

/-! ## ports -/

/-- The beats on their way from the user of a destination. -/
def sinkOf (x : Crossbar) (tag : UInt8) : List PacketBeat :=
  (x.port? tag).elim [] fun p => p.sink.contents

/-- The beats on their way to the user of a destination. -/
def sourceOf (x : Crossbar) (tag : UInt8) : List PacketBeat :=
  (x.port? tag).elim [] fun p => p.source.contents

/-- A destination has a port when it is registered. -/
theorem isSome_port? (x : Crossbar) (tag : UInt8) : (x.port? tag).isSome = x.tags.contains tag := by
  rw [Bool.eq_iff_iff]
  simp [port?, tags]

theorem tag_of_port? {x : Crossbar} {tag : UInt8} {p : Port} (h : x.port? tag = some p) :
    p.tag = tag := by
  simpa using List.find?_some h

/-- The port of a destination after a change. -/
theorem port?_modifyPort_map (x : Crossbar) (tag : UInt8) {f : Port → Port}
    (hf : ∀ p, (f p).tag = p.tag) (tag' : UInt8) :
    (x.modifyPort tag f).port? tag' =
      (x.port? tag').map fun p => if p.tag == tag then f p else p := by
  have htag (p : Port) : (if p.tag == tag then f p else p).tag = p.tag := by
    split
    · exact hf p
    · rfl
  rw [port?, modifyPort, List.find?_map]
  simp only [Function.comp_def, htag]
  rfl

/-- Changing one port leaves the others alone. -/
theorem port?_modifyPort (x : Crossbar) (tag : UInt8) {f : Port → Port}
    (hf : ∀ p, (f p).tag = p.tag) (tag' : UInt8) :
    (x.modifyPort tag f).port? tag' =
      if tag' = tag then (x.port? tag').map f else x.port? tag' := by
  rw [port?_modifyPort_map x tag hf]
  cases hport : x.port? tag' with
  | none => simp
  | some p =>
      have := tag_of_port? hport
      by_cases heq : tag' = tag <;> simp [heq, this]

theorem tags_modifyPort (x : Crossbar) (tag : UInt8) {f : Port → Port}
    (hf : ∀ p, (f p).tag = p.tag) : (x.modifyPort tag f).tags = x.tags := by
  rw [tags, modifyPort, List.map_map, tags]
  congr 1
  funext p
  simp only [Function.comp_apply]
  split
  · exact hf p
  · rfl

/-- What changing a port does to a crossbar. -/
structure Touches (x x' : Crossbar) (tag : UInt8) (p p' : Port) : Prop where
  tags : x'.tags = x.tags
  route : x'.route = x.route
  grant : x'.grant = x.grant
  sink : x.sinkOf tag = p.sink.contents
  sink' : x'.sinkOf tag = p'.sink.contents
  source : x.sourceOf tag = p.source.contents
  source' : x'.sourceOf tag = p'.source.contents
  others (other : UInt8) : other ≠ tag →
    x'.sinkOf other = x.sinkOf other ∧ x'.sourceOf other = x.sourceOf other

theorem touches_modifyPort {x : Crossbar} {tag : UInt8} {p : Port} (hport : x.port? tag = some p)
    {f : Port → Port} (hf : ∀ p, (f p).tag = p.tag) :
    x.Touches (x.modifyPort tag f) tag p (f p) where
  tags := x.tags_modifyPort tag hf
  route := rfl
  grant := rfl
  sink := by rw [sinkOf, hport]; rfl
  sink' := by rw [sinkOf, port?_modifyPort x tag hf, if_pos rfl, hport]; rfl
  source := by rw [sourceOf, hport]; rfl
  source' := by rw [sourceOf, port?_modifyPort x tag hf, if_pos rfl, hport]; rfl
  others other hother := by
    rw [sinkOf, sourceOf, port?_modifyPort x tag hf, if_neg hother]
    exact ⟨rfl, rfl⟩

/-- A half of the port that is kept is the same everywhere. -/
theorem Touches.sinkOf_eq {x x' : Crossbar} {tag : UInt8} {p p' : Port}
    (h : x.Touches x' tag p p') (hsink : p'.sink = p.sink) (other : UInt8) :
    x'.sinkOf other = x.sinkOf other := by
  by_cases hother : other = tag
  · rw [hother, h.sink', h.sink, hsink]
  · exact (h.others other hother).1

theorem Touches.sourceOf_eq {x x' : Crossbar} {tag : UInt8} {p p' : Port}
    (h : x.Touches x' tag p p') (hsource : p'.source = p.source) (other : UInt8) :
    x'.sourceOf other = x.sourceOf other := by
  by_cases hother : other = tag
  · rw [hother, h.source', h.source, hsource]
  · exact (h.others other hother).2

theorem port?_commit (x : Crossbar) (tag : UInt8) :
    x.commit.port? tag = (x.port? tag).map Port.commit := by
  rw [port?, commit, List.find?_map]
  rfl

@[simp] theorem tags_commit (x : Crossbar) : x.commit.tags = x.tags := by
  simp [tags, commit, Port.commit]

@[simp] theorem sinkOf_commit (x : Crossbar) (tag : UInt8) :
    x.commit.sinkOf tag = x.sinkOf tag := by
  rw [sinkOf, port?_commit, sinkOf]
  cases x.port? tag with
  | none => rfl
  | some p => exact p.sink.contents_commit

@[simp] theorem sourceOf_commit (x : Crossbar) (tag : UInt8) :
    x.commit.sourceOf tag = x.sourceOf tag := by
  rw [sourceOf, port?_commit, sourceOf]
  cases x.port? tag with
  | none => rfl
  | some p => exact p.source.contents_commit

/-- Ports that are idle store nothing. -/
theorem contents_of_isIdle {x : Crossbar} (h : x.isIdle = true) (tag : UInt8) :
    x.sinkOf tag = [] ∧ x.sourceOf tag = [] := by
  unfold sinkOf sourceOf
  cases hport : x.port? tag with
  | none => exact ⟨rfl, rfl⟩
  | some p =>
      simp only [isIdle, Bool.and_eq_true, List.all_eq_true, Port.isIdle] at h
      obtain ⟨hsink, hsource⟩ := h.2 p (List.mem_of_find?_eq_some hport)
      exact ⟨Channel.contents_of_isEmpty hsink, Channel.contents_of_isEmpty hsource⟩

/-- A crossbar that is idle has no packet in progress. -/
theorem none_of_isIdle {x : Crossbar} (h : x.isIdle = true) : x.grant = none ∧ x.route = none := by
  simp only [isIdle, Bool.and_eq_true, Option.isNone_iff_eq_none] at h
  exact h.1

/-! ## routing beat by beat -/

/-- What becomes of the beats of the inbound stream. -/
inductive Routed where
  /-- A packet without a port begins. -/
  | refused
  /-- A beat goes to a port. -/
  | delivered (tag : UInt8) (beat : PacketBeat)

/-- The route behind a beat. -/
def Route.behind (route : Route) (beat : PacketBeat) : Option Route :=
  if beat.last then none else some route

/-- Routes beats to the registered destinations; the state is the route of the packet in
progress. -/
def routing (tags : List UInt8) : Transducer (Option Route) PacketBeat Routed where
  step
    | none, beat =>
      if tags.contains beat.dst then
        (Route.behind (.port beat.dst) beat, [.delivered beat.dst beat])
      else (Route.behind .dropped beat, [.refused])
    | some (.port tag), beat => (Route.behind (.port tag) beat, [.delivered tag beat])
    | some .dropped, beat => (Route.behind .dropped beat, [])

/-- The head beat of a packet with a port settles its route. -/
theorem routing_known {tags : List UInt8} (beat : PacketBeat)
    (h : tags.contains beat.dst = true) (xs : List PacketBeat) :
    (routing tags).after none (beat :: xs) =
        (routing tags).after (some (.port beat.dst)) (beat :: xs) ∧
      (routing tags).answers none (beat :: xs) =
        (routing tags).answers (some (.port beat.dst)) (beat :: xs) := by
  simp only [Transducer.after, Transducer.answers, routing, h, if_true, and_self]

/-- The head beat of a packet without a port is refused. -/
theorem routing_unknown {tags : List UInt8} (beat : PacketBeat)
    (h : ¬ tags.contains beat.dst = true) (xs : List PacketBeat) :
    (routing tags).after none (beat :: xs) =
        (routing tags).after (some .dropped) (beat :: xs) ∧
      (routing tags).answers none (beat :: xs) =
        .refused :: (routing tags).answers (some .dropped) (beat :: xs) := by
  simp only [Transducer.after, Transducer.answers, routing, h, if_false, Bool.false_eq_true,
    List.singleton_append, List.nil_append, and_self]

/-- The beats delivered to a destination. -/
def Routed.sentTo (tag : UInt8) (rs : List Routed) : List PacketBeat :=
  rs.filterMap fun
    | .delivered tag' beat => if tag' = tag then some beat else none
    | .refused => none

/-- The packets refused. -/
def Routed.refusals (rs : List Routed) : Nat :=
  rs.countP fun
    | .refused => true
    | .delivered .. => false

@[simp] theorem Routed.sentTo_append (tag : UInt8) (rs ss : List Routed) :
    sentTo tag (rs ++ ss) = sentTo tag rs ++ sentTo tag ss :=
  List.filterMap_append

@[simp] theorem Routed.refusals_append (rs ss : List Routed) :
    refusals (rs ++ ss) = refusals rs + refusals ss :=
  List.countP_append

/-! ## routing packet by packet -/

/-- Within a packet the route stays what it is. -/
theorem routing_beatsOf (tags : List UInt8) (route : Route) (dst : UInt8) (length : Word)
    {ws : List Word} (hne : ws ≠ []) :
    (routing tags).after (some route) (Packet.beatsOf dst length ws) = none ∧
      (routing tags).answers (some route) (Packet.beatsOf dst length ws) =
        match route with
        | .port tag => (Packet.beatsOf dst length ws).map (.delivered tag)
        | .dropped => [] := by
  induction ws with
  | nil => exact absurd rfl hne
  | cons w rest ih =>
      cases rest with
      | nil => cases route <;> exact ⟨rfl, rfl⟩
      | cons x rest =>
          obtain ⟨hafter, hanswers⟩ := ih (List.cons_ne_nil x rest)
          rw [Packet.beatsOf, Transducer.after, Transducer.answers]
          cases route with
          | port tag => exact ⟨hafter, congrArg (_ :: ·) hanswers⟩
          | dropped => exact ⟨hafter, hanswers⟩

/-- Where a packet goes. -/
def Routed.ofPacket (tags : List UInt8) (p : Packet) : List Routed :=
  if tags.contains p.dst then p.beats.map (.delivered p.dst) else [.refused]

/-- A packet is delivered or refused as a whole. -/
theorem routing_packet (tags : List UInt8) (p : Packet) :
    (routing tags).after none p.beats = none ∧
      (routing tags).answers none p.beats = Routed.ofPacket tags p := by
  obtain ⟨w, rest, hwords⟩ := List.exists_cons_of_ne_nil p.words_ne_nil
  have hbeats : p.beats = { dst := p.dst, length := p.length, data := w, last := rest.isEmpty } ::
      Packet.beatsOf p.dst p.length rest := by
    rw [Packet.beats, hwords, Packet.beatsOf]
  have hrouted (route : Route) : (routing tags).after (some route) p.beats = none ∧
      (routing tags).answers (some route) p.beats = match route with
        | .port tag => p.beats.map (.delivered tag)
        | .dropped => [] :=
    routing_beatsOf tags route p.dst p.length p.words_ne_nil
  unfold Routed.ofPacket
  cases hknown : tags.contains p.dst with
  | true =>
      obtain ⟨hafter, hanswers⟩ := hrouted (.port p.dst)
      rw [hbeats] at hafter hanswers ⊢
      obtain ⟨hsame, hsame'⟩ := routing_known
        { dst := p.dst, length := p.length, data := w, last := rest.isEmpty } hknown
        (Packet.beatsOf p.dst p.length rest)
      rw [hsame, hsame']
      exact ⟨hafter, hanswers⟩
  | false =>
      obtain ⟨hafter, hanswers⟩ := hrouted .dropped
      rw [hbeats] at hafter hanswers ⊢
      obtain ⟨hsame, hsame'⟩ := routing_unknown
        { dst := p.dst, length := p.length, data := w, last := rest.isEmpty }
        (by rw [hknown]; exact Bool.false_ne_true) (Packet.beatsOf p.dst p.length rest)
      rw [hsame, hsame', hanswers]
      exact ⟨hafter, rfl⟩

/-- **Packets are routed one after the other.** -/
theorem routing_packets (tags : List UInt8) (ps : List Packet) :
    (routing tags).answers none (ps.flatMap Packet.beats) = ps.flatMap (Routed.ofPacket tags) := by
  rw [(routing tags).answers_flatMap none _ ps fun p _ => (routing_packet tags p).1]
  simp only [(routing_packet tags _).2]

/-- A registered destination gets its packets. -/
theorem Routed.sentTo_ofPacket {tags : List UInt8} {tag : UInt8} (htag : tag ∈ tags)
    (ps : List Packet) :
    sentTo tag (ps.flatMap (ofPacket tags)) =
      (ps.filter fun p => p.dst == tag).flatMap Packet.beats := by
  have hmap (dst : UInt8) (beats : List PacketBeat) :
      sentTo tag (beats.map (.delivered dst)) = if dst = tag then beats else [] := by
    induction beats with
    | nil => simp [sentTo]
    | cons b rest ih =>
        rw [List.map_cons]
        by_cases hdst : dst = tag
        · rw [if_pos hdst] at ih ⊢
          simp only [sentTo, List.filterMap_cons, if_pos hdst]
          exact congrArg (b :: ·) ih
        · simp [sentTo, hdst]
  induction ps with
  | nil => rfl
  | cons p ps ih =>
      rw [List.flatMap_cons, sentTo_append, ih, List.filter_cons]
      by_cases hdst : p.dst = tag
      · simp [ofPacket, htag, hmap, hdst]
      · have hrefused : sentTo tag [.refused] = [] := rfl
        by_cases hknown : p.dst ∈ tags <;> simp [ofPacket, hknown, hmap, hdst, hrefused]

/-- The packets without a port are refused. -/
theorem Routed.refusals_ofPacket (tags : List UInt8) (ps : List Packet) :
    refusals (ps.flatMap (ofPacket tags)) = ps.countP fun p => !tags.contains p.dst := by
  have hmap (dst : UInt8) (beats : List PacketBeat) :
      refusals (beats.map (.delivered dst)) = 0 := by
    induction beats with
    | nil => rfl
    | cons b rest ih => exact ih
  induction ps with
  | nil => rfl
  | cons p ps ih =>
      rw [List.flatMap_cons, refusals_append, ih, List.countP_cons]
      by_cases hknown : p.dst ∈ tags
      · simp [ofPacket, hknown, hmap]
      · have hrefused : refusals [.refused] = 1 := rfl
        simp [ofPacket, hknown, hrefused, Nat.add_comm]

/-! ## the inbound half -/

/-- What a tick of the inbound half does, seen from the stream of beats. -/
structure Routes (x : Crossbar) (input : Option PacketBeat) (t : Transfer Crossbar PacketBeat) :
    Prop where
  tags : t.next.tags = x.tags
  grant : t.next.grant = x.grant
  sinkOf (tag : UInt8) : t.next.sinkOf tag = x.sinkOf tag
  sourceOf (tag : UInt8) (xs : List PacketBeat) :
    t.next.sourceOf tag ++
        Routed.sentTo tag ((routing x.tags).answers t.next.route (t.left input ++ xs)) =
      x.sourceOf tag ++ Routed.sentTo tag ((routing x.tags).answers x.route (input.toList ++ xs))
  refusals (xs : List PacketBeat) :
    t.counted.packetsUnrouted +
        Routed.refusals ((routing x.tags).answers t.next.route (t.left input ++ xs)) =
      Routed.refusals ((routing x.tags).answers x.route (input.toList ++ xs))

section

variable {x : Crossbar}

/-- A tick without effect. -/
theorem routes_refl (x : Crossbar) (input : Option PacketBeat) : x.Routes input { next := x } where
  tags := rfl
  grant := rfl
  sinkOf _ := rfl
  sourceOf _ _ := rfl
  refusals _ := Nat.zero_add _

/-- The crossbar behind a beat of the packet in progress. -/
def behind (x : Crossbar) (beat : PacketBeat) : Crossbar :=
  if beat.last then { x with route := none } else x

theorem route_behind {route : Route} (h : x.route = some route) (beat : PacketBeat) :
    (x.behind beat).route = route.behind beat := by
  unfold behind Route.behind
  split
  · rfl
  · exact h

/-- Behind a beat only the route can have changed. -/
theorem behind_eq (x : Crossbar) (beat : PacketBeat) :
    ∃ route, x.behind beat = { x with route } := by
  unfold behind
  split
  · exact ⟨none, rfl⟩
  · exact ⟨x.route, rfl⟩

/-- Dropping a beat. -/
theorem routes_dropped (h : x.route = some .dropped) (beat : PacketBeat) :
    x.Routes (some beat) { next := x.behind beat, taken := true } := by
  have hroute := route_behind h beat
  obtain ⟨route, heq⟩ := x.behind_eq beat
  refine ⟨?_, ?_, fun tag => ?_, fun tag xs => ?_, fun xs => ?_⟩
  · rw [heq]
    rfl
  · rw [heq]
  · rw [heq]
    rfl
  · rw [h]
    simp only [hroute]
    rw [heq]
    rfl
  · rw [h]
    simp only [hroute]
    exact Nat.zero_add _

/-- Storing a beat at the port of its packet. -/
theorem routes_port {tag : UInt8} {p : Port} (h : x.route = some (.port tag))
    (hport : x.port? tag = some p) (hready : p.source.ready = true) (beat : PacketBeat) :
    let stored := x.modifyPort tag fun p => { p with source := p.source.push beat }
    x.Routes (some beat) { next := stored.behind beat, taken := true } := by
  intro stored
  have hx : x.Touches stored tag p { p with source := p.source.push beat } :=
    touches_modifyPort hport fun _ => rfl
  have hroute : (stored.behind beat).route = Route.behind (.port tag) beat :=
    route_behind (x := stored) h beat
  have hcontents : (p.source.push beat).contents = p.source.contents ++ [beat] := by
    rw [Channel.contents_push, if_pos hready]
  obtain ⟨route, heq⟩ := stored.behind_eq beat
  refine ⟨?_, ?_, fun tag' => ?_, fun tag' xs => ?_, fun xs => ?_⟩
  · rw [heq]
    exact hx.tags
  · rw [heq]
    exact hx.grant
  · rw [heq]
    exact hx.sinkOf_eq rfl tag'
  · rw [h]
    simp only [hroute]
    rw [heq]
    show stored.sourceOf tag' ++ _ = _
    by_cases htag : tag' = tag
    · rw [htag, hx.source', hx.source, hcontents]
      simp [Transfer.left, Transducer.answers, routing, Routed.sentTo]
    · rw [(hx.others tag' htag).2]
      simp [Ne.symm htag, Transfer.left, Transducer.answers, routing, Routed.sentTo]
  · rw [h]
    simp only [hroute]
    simp [Transfer.left, Transducer.answers, routing, Routed.refusals]

/-- A beat of the packet in progress goes where its packet goes. -/
theorem deliver_routes {route : Route} (h : x.route = some route) (beat : PacketBeat) :
    x.Routes (some beat) (x.deliver beat) := by
  unfold deliver
  rw [h]
  cases route with
  | dropped => exact routes_dropped h beat
  | port tag =>
      cases hport : x.port? tag with
      | none => simpa only [hport] using routes_refl x _
      | some p =>
          by_cases hready : p.source.ready = true
          · simpa only [hport, if_pos hready, behind] using routes_port h hport hready beat
          · simpa only [hport, if_neg hready] using routes_refl x _

theorem counted_deliver (x : Crossbar) (beat : PacketBeat) : (x.deliver beat).counted = {} := by
  unfold deliver
  repeat' split
  all_goals rfl

/-- A head beat whose route is settled on this tick; `refused` is what the choice adds. -/
theorem settled_routes {route : Route} {beat : PacketBeat} (refused : List Routed)
    {counted : Counters} (hroute : x.route = none)
    (hsettled : ∀ xs, (routing x.tags).answers none (beat :: xs) =
      refused ++ (routing x.tags).answers (some route) (beat :: xs))
    (hsent : ∀ tag, Routed.sentTo tag refused = [])
    (hcounted : counted.packetsUnrouted = Routed.refusals refused) :
    x.Routes (some beat)
      { ({ x with route := some route } : Crossbar).deliver beat with counted } := by
  let y : Crossbar := { x with route := some route }
  have h : y.Routes (some beat) (y.deliver beat) := deliver_routes rfl beat
  have hanswers (xs : List PacketBeat) :
      (routing x.tags).answers x.route ((some beat).toList ++ xs) =
      refused ++ (routing y.tags).answers y.route ((some beat).toList ++ xs) := by
    rw [hroute]
    exact hsettled xs
  refine ⟨h.tags, h.grant, h.sinkOf, fun tag xs => ?_, fun xs => ?_⟩
  · rw [hanswers, Routed.sentTo_append, hsent, List.nil_append]
    exact h.sourceOf tag xs
  · have hrefusals := h.refusals xs
    rw [counted_deliver] at hrefusals
    rw [hanswers, Routed.refusals_append, ← hrefusals, ← hcounted]
    show counted.packetsUnrouted + _ = counted.packetsUnrouted + (0 + _)
    rw [Nat.zero_add]
    rfl

/-- **A tick changes nothing about where the inbound beats go.** -/
theorem dispatch_routes (x : Crossbar) (input : Option PacketBeat) :
    x.Routes input (x.dispatch input) := by
  cases input with
  | none => exact routes_refl x none
  | some beat =>
      unfold dispatch chooseRoute
      cases hroute : x.route with
      | some route =>
          have h := deliver_routes hroute beat
          refine ⟨h.tags, h.grant, h.sinkOf, h.sourceOf, fun xs => ?_⟩
          have hrefusals := h.refusals xs
          rw [counted_deliver] at hrefusals
          exact hrefusals
      | none =>
          simp only [isSome_port?]
          split
          · next hknown =>
            exact settled_routes [] hroute (fun xs => (routing_known _ hknown xs).2)
              (fun _ => rfl) rfl
          · next hunknown =>
            exact settled_routes [.refused] hroute (fun xs => (routing_unknown _ hunknown xs).2)
              (fun _ => rfl) rfl

end

end Crossbar

end LinkBridge
