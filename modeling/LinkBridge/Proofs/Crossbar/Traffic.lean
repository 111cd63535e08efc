import LinkBridge.Proofs.Crossbar.Packets

/-!
# LinkBridge.Proofs.Crossbar.Traffic

The crossbar between a stream of packets on one side and the users of its ports on the other.
`History` records what has passed its ends; availability, room, the users' pushes and takes and the
tick boundaries come in any order (`Event`). Each direction has an invariant of its own
(`History.Inward`, `History.Outward`) that every event keeps.

Main statement: inbound, a port has received the packets addressed to it, as far as they were
consumed; outbound, the output is made of whole packets, each taken from one port
(`packets_conserved`).
-/

namespace LinkBridge

namespace Crossbar

/-! ## the users of the ports -/

theorem port?_pushTo (x : Crossbar) (tag : UInt8) (beat : PacketBeat) (tag' : UInt8) :
    (x.pushTo tag beat).port? tag' = if tag' = tag
      then (x.port? tag').map fun p => { p with sink := p.sink.push beat } else x.port? tag' :=
  port?_modifyPort x tag (f := fun p => { p with sink := p.sink.push beat }) (fun _ => rfl) tag'

theorem port?_takeFrom (x : Crossbar) (tag tag' : UInt8) :
    (x.takeFrom tag).port? tag' = if tag' = tag
      then (x.port? tag').map fun p => { p with source := p.source.take } else x.port? tag' :=
  port?_modifyPort x tag (f := fun p => { p with source := p.source.take }) (fun _ => rfl) tag'

theorem sinkOf_pushTo (x : Crossbar) (tag : UInt8) (beat : PacketBeat) (tag' : UInt8) :
    (x.pushTo tag beat).sinkOf tag' = x.sinkOf tag' ++
      sentBy tag' (if (x.port? tag).any (·.sink.ready) then [(tag, beat)] else []) := by
  rw [sinkOf, port?_pushTo, sinkOf]
  by_cases htag : tag' = tag
  · subst htag
    cases x.port? tag' with
    | none => simp [sentBy]
    | some p =>
        simp only [if_true, Option.map_some, Option.elim_some, Option.any_some, p.sink.contents_push]
        split <;> simp [sentBy]
  · rw [if_neg htag]
    split <;> simp [sentBy, Ne.symm htag]

theorem sourceOf_pushTo (x : Crossbar) (tag : UInt8) (beat : PacketBeat) (tag' : UInt8) :
    (x.pushTo tag beat).sourceOf tag' = x.sourceOf tag' := by
  rw [sourceOf, port?_pushTo, sourceOf]
  split <;> cases x.port? tag' <;> rfl

theorem sourceOf_takeFrom (x : Crossbar) (tag tag' : UInt8) : x.sourceOf tag' =
    sentBy tag' (((x.port? tag).bind (·.source.peek)).toList.map (tag, ·)) ++
      (x.takeFrom tag).sourceOf tag' := by
  rw [sourceOf, sourceOf, port?_takeFrom]
  by_cases htag : tag' = tag
  · subst htag
    cases x.port? tag' with
    | none => simp [sentBy]
    | some p =>
        simp only [if_true, Option.map_some, Option.elim_some, Option.bind_some,
          p.source.contents_take]
        cases p.source.peek <;> simp [sentBy]
  · rw [if_neg htag]
    cases (x.port? tag).bind (·.source.peek) <;> simp [sentBy, Ne.symm htag]

theorem sinkOf_takeFrom (x : Crossbar) (tag tag' : UInt8) :
    (x.takeFrom tag).sinkOf tag' = x.sinkOf tag' := by
  rw [sinkOf, port?_takeFrom, sinkOf]
  split <;> cases x.port? tag' <;> rfl

@[simp] theorem tags_pushTo (x : Crossbar) (tag : UInt8) (beat : PacketBeat) :
    (x.pushTo tag beat).tags = x.tags :=
  x.tags_modifyPort tag fun _ => rfl

@[simp] theorem tags_takeFrom (x : Crossbar) (tag : UInt8) : (x.takeFrom tag).tags = x.tags :=
  x.tags_modifyPort tag fun _ => rfl

/-! ## registration -/

section

variable {tags : List UInt8}

/-- Registration leaves empty ports, one for each destination. -/
theorem ports_of_register {x x' : Crossbar} (h : tags.foldlM register x = .ok x') :
    x' = { x with ports := x.ports ++ tags.map (Port.empty · x.depth) } := by
  induction tags generalizing x with
  | nil =>
      obtain rfl : x = x' := Except.ok.inj h
      simp
  | cons tag tags ih =>
      rw [List.foldlM_cons] at h
      cases hregister : x.register tag with
      | error fault =>
          rw [hregister] at h
          exact nomatch h
      | ok y =>
          rw [hregister] at h
          have hy : y = { x with ports := x.ports ++ [.empty tag x.depth] } := by
            unfold register at hregister
            split at hregister
            · exact nomatch hregister
            · split at hregister
              · exact nomatch hregister
              · exact (Except.ok.inj hregister).symm
          rw [ih h, hy]
          simp

theorem contents_of_empty_ports {x : Crossbar} {depth : Nat}
    (h : x.ports = tags.map (Port.empty · depth)) (tag : UInt8) :
    x.sinkOf tag = [] ∧ x.sourceOf tag = [] := by
  unfold sinkOf sourceOf
  cases hport : x.port? tag with
  | none => exact ⟨rfl, rfl⟩
  | some p =>
      have hmem : p ∈ x.ports := List.mem_of_find?_eq_some hport
      rw [h] at hmem
      obtain ⟨tag', -, rfl⟩ := List.mem_map.mp hmem
      exact ⟨rfl, rfl⟩

end

/-! ## histories -/

/-- What may happen to a crossbar that carries traffic. -/
inductive Event where
  /-- One tick. The next beat of the master input is presented or not, and the master output has
  room or not. -/
  | tick (presented ready : Bool)
  /-- The user of a port offers a beat. -/
  | push (tag : UInt8) (beat : PacketBeat)
  /-- The user of a port takes the beat presented to it. -/
  | take (tag : UInt8)
  /-- The end of a tick. -/
  | commit
  deriving DecidableEq

/-- A crossbar and what has passed its ends. -/
structure History where
  now : Crossbar
  /-- The beats of the master input that are still to be consumed. -/
  coming : List PacketBeat
  /-- The beats consumed from the master input. -/
  consumed : List PacketBeat := []
  /-- The beats on the master output. -/
  output : List PacketBeat := []
  /-- The beats taken from the ports for the master output, each with its port. -/
  served : List (UInt8 × PacketBeat) := []
  /-- The beats accepted from the users, each with its port. -/
  pushed : List (UInt8 × PacketBeat) := []
  /-- The beats taken by the users, each with its port. -/
  popped : List (UInt8 × PacketBeat) := []
  counted : Counters := {}

namespace History

/-- A crossbar in front of a stream. -/
def start (x : Crossbar) (stream : List PacketBeat) : History :=
  { now := x, coming := stream }

/-- The beat of the master input that is presented. -/
def input (h : History) (presented : Bool) : Option PacketBeat :=
  if presented then h.coming.head? else none

/-- One event. -/
def move (h : History) : Event → History
  | .tick presented ready =>
    let t := h.now.tick (h.input presented) ready
    { h with
      now := t.next
      coming := if t.taken then h.coming.tail else h.coming
      consumed := h.consumed ++ if t.taken then (h.input presented).toList else []
      output := h.output ++ t.sent.toList
      served := h.served ++ h.now.serving ready
      counted := h.counted + t.counted }
  | .push tag beat =>
    { h with
      now := h.now.pushTo tag beat
      pushed := h.pushed ++ if (h.now.port? tag).any (·.sink.ready) then [(tag, beat)] else [] }
  | .take tag =>
    { h with
      now := h.now.takeFrom tag
      popped := h.popped ++ ((h.now.port? tag).bind (·.source.peek)).toList.map (tag, ·) }
  | .commit => { h with now := h.now.commit }

/-- Events one after the other. -/
def play (h : History) (events : List Event) : History :=
  events.foldl move h

/-- The beats that the source of a port has received. -/
def received (h : History) (tag : UInt8) : List PacketBeat :=
  sentBy tag h.popped ++ h.now.sourceOf tag

/-- The beats of the packets whose route is settled: those consumed and, if it has its route
already, a head beat that waits. -/
def settled (h : History) : List PacketBeat :=
  h.consumed ++
    if h.now.route.isSome && finished PacketBeat.last h.consumed then h.coming.take 1 else []

/-- The packets of the master output, each beat with its port. -/
def servedPackets (h : History) : List (List (UInt8 × PacketBeat)) :=
  blocks (fun s => s.2.last) h.served

/-! ## the two halves of a tick -/

/-- The outbound half. -/
def arbitrated (h : History) (ready : Bool) : History :=
  let t := h.now.arbitrate ready
  { h with
    now := t.next
    output := h.output ++ t.sent.toList
    served := h.served ++ h.now.serving ready
    counted := h.counted + t.counted }

/-- The inbound half. -/
def dispatched (h : History) (input : Option PacketBeat) : History :=
  let t := h.now.dispatch input
  { h with
    now := t.next
    coming := if t.taken then h.coming.tail else h.coming
    consumed := h.consumed ++ if t.taken then input.toList else []
    counted := h.counted + t.counted }

theorem move_tick (h : History) (presented ready : Bool) :
    h.move (.tick presented ready) = (h.arbitrated ready).dispatched (h.input presented) := by
  simp only [move, dispatched, arbitrated, tick, Counters.add_assoc]
  rfl

theorem dispatched_none (h : History) : h.dispatched none = h := by
  have hcounted : h.counted + {} = h.counted := h.counted.add_zero
  simp [dispatched, dispatch, hcounted]

/-! ## the inbound direction -/

/-- How the crossbar relates to what it has consumed. -/
structure Inward (tags : List UInt8) (stream : List PacketBeat) (h : History) : Prop where
  registered : h.now.tags = tags
  stream : h.consumed ++ h.coming = stream
  /-- The route is that of the packet in progress, or that of a head beat that waits. -/
  route : h.now.route = (routing tags).after none h.consumed ∨
    (routing tags).after none h.consumed = none ∧ ∃ beat rest, h.coming = beat :: rest ∧
      tags.contains beat.dst = true ∧ h.now.route = some (.port beat.dst)
  /-- What a port has received, and what it will receive. -/
  received (tag : UInt8) :
    h.received tag ++ Routed.sentTo tag ((routing tags).answers h.now.route h.coming) =
      Routed.sentTo tag ((routing tags).answers none (h.consumed ++ h.coming))
  refused : h.counted.packetsUnrouted +
      Routed.refusals ((routing tags).answers h.now.route h.coming) =
    Routed.refusals ((routing tags).answers none (h.consumed ++ h.coming))
  routed : h.counted.packetsRouted = (packets h.settled).countP (headedFor tags)

section

variable {tags : List UInt8} {stream : List PacketBeat} {h : History}

/-- What is still to come is answered as if its packet had no route yet. -/
theorem Inward.answers_stream (hin : h.Inward tags stream) :
    (routing tags).answers none (h.consumed ++ h.coming) =
      (routing tags).answers none h.consumed ++ (routing tags).answers h.now.route h.coming := by
  rw [Transducer.answers_append]
  obtain hroute | ⟨hafter, beat, rest, hcoming, hknown, hroute⟩ := hin.route
  · rw [hroute]
  · rw [hroute, hafter, hcoming, (routing_known beat hknown rest).2]

/-- A port has received what was routed to it. -/
theorem Inward.received_eq (hin : h.Inward tags stream) (tag : UInt8) :
    h.received tag = Routed.sentTo tag ((routing tags).answers none h.consumed) := by
  have hreceived := hin.received tag
  rw [hin.answers_stream, Routed.sentTo_append] at hreceived
  exact List.append_cancel_right hreceived

/-- The packets counted as unrouted are those consumed without a port. -/
theorem Inward.packetsUnrouted_eq (hin : h.Inward tags stream) : h.counted.packetsUnrouted =
    Routed.refusals ((routing tags).answers none h.consumed) := by
  have hrefused := hin.refused
  rw [hin.answers_stream, Routed.refusals_append] at hrefused
  omega

/-- Unless a head beat waits with its route, only packets consumed have one. -/
theorem settled_of_route (h : History)
    (hroute : h.now.route = (routing tags).after none h.consumed) : h.settled = h.consumed := by
  have hnone : (routing tags).after none h.consumed = none ↔
      finished PacketBeat.last h.consumed = true :=
    after_routing_eq_none
  rw [← hroute] at hnone
  unfold settled
  cases hnow : h.now.route with
  | none => exact List.append_nil _
  | some route =>
      have hunfinished : finished PacketBeat.last h.consumed = false := by
        rw [← Bool.not_eq_true, ← hnone, hnow]
        nofun
      rw [hunfinished]
      exact List.append_nil _

theorem inward_start {x : Crossbar} (htags : x.tags = tags) (hroute : x.route = none)
    (hempty : ∀ tag, x.sourceOf tag = []) (stream : List PacketBeat) :
    (start x stream).Inward tags stream where
  registered := htags
  stream := rfl
  route := .inl hroute
  received tag := by
    show x.sourceOf tag ++ Routed.sentTo tag ((routing tags).answers x.route stream) = _
    rw [hempty, hroute]
    rfl
  refused := by
    show 0 + Routed.refusals ((routing tags).answers x.route stream) = _
    rw [hroute, Nat.zero_add]
    rfl
  routed := by
    rw [@settled_of_route tags (start x stream) hroute]
    rfl

/-- The outbound half leaves the inbound direction alone. -/
theorem Inward.arbitrated (hin : h.Inward tags stream) {ready : Bool}
    {sent : List (UInt8 × PacketBeat)}
    (hserves : h.now.Serves ready (h.now.arbitrate ready) sent) :
    (h.arbitrated ready).Inward tags stream := by
  have hroute : (h.arbitrated ready).now.route = h.now.route := hserves.route
  have hsettled : (h.arbitrated ready).settled = h.settled := by
    unfold settled
    rw [hroute]
    rfl
  exact
    { registered := hserves.tags.trans hin.registered
      stream := hin.stream
      route := by rw [hroute]; exact hin.route
      received := fun tag => by
        have hreceived : (h.arbitrated ready).received tag = h.received tag :=
          congrArg (sentBy tag h.popped ++ ·) (hserves.sourceOf tag)
        rw [hroute, hreceived]
        exact hin.received tag
      refused := by
        have hcounted : (h.arbitrated ready).counted.packetsUnrouted = h.counted.packetsUnrouted :=
          congrArg (h.counted.packetsUnrouted + ·) hserves.unrouted
        rw [hroute, hcounted]
        exact hin.refused
      routed := by
        have hcounted : (h.arbitrated ready).counted.packetsRouted = h.counted.packetsRouted :=
          congrArg (h.counted.packetsRouted + ·) hserves.routed
        rw [hcounted, hsettled]
        exact hin.routed }

/-- The inbound half changes nothing about what is routed where. -/
theorem Inward.dispatched_conserves (hin : h.Inward tags stream) {beat : PacketBeat}
    {rest : List PacketBeat} (hcoming : h.coming = beat :: rest) :
    let h' := h.dispatched (some beat)
    h'.consumed ++ h'.coming = h.consumed ++ h.coming ∧
      (∀ tag, h'.received tag ++
          Routed.sentTo tag ((routing tags).answers h'.now.route h'.coming) =
        Routed.sentTo tag ((routing tags).answers none (h.consumed ++ h.coming))) ∧
      h'.counted.packetsUnrouted + Routed.refusals ((routing tags).answers h'.now.route h'.coming) =
        Routed.refusals ((routing tags).answers none (h.consumed ++ h.coming)) := by
  intro h'
  let t := h.now.dispatch (some beat)
  have hroutes : h.now.Routes (some beat) t := dispatch_routes h.now (some beat)
  have hleft : h'.coming = t.left (some beat) ++ rest := by
    show (if t.taken then h.coming.tail else h.coming) = _
    rw [hcoming]
    cases htaken : t.taken with
    | true => rw [t.left_of_taken htaken]; rfl
    | false => rw [t.left_of_not_taken htaken]; rfl
  refine ⟨?_, fun tag => ?_, ?_⟩
  · show (h.consumed ++ if t.taken then [beat] else []) ++ h'.coming = _
    rw [hleft, hcoming]
    cases htaken : t.taken with
    | true => rw [t.left_of_taken htaken]; simp
    | false => rw [t.left_of_not_taken htaken]; simp
  · have hkept := hroutes.sourceOf tag rest
    have hreceived := hin.received tag
    rw [hin.registered] at hkept
    rw [History.received, hcoming, List.append_assoc] at hreceived
    rw [hleft, History.received, List.append_assoc, hcoming]
    exact (congrArg (sentBy tag h.popped ++ ·) hkept).trans hreceived
  · have hkept := hroutes.refusals rest
    have hrefused := hin.refused
    rw [hin.registered] at hkept
    rw [hcoming] at hrefused
    rw [hleft, hcoming, ← hrefused]
    show h.counted.packetsUnrouted + t.counted.packetsUnrouted + _ = _
    rw [Nat.add_assoc]
    exact congrArg (h.counted.packetsUnrouted + ·) hkept

/-- With the next beat consumed, a packet more has its route settled if that beat is its head, has a
port and did not wait for it with its route. -/
theorem Inward.countP_packets_concat (hin : h.Inward tags stream) {beat : PacketBeat}
    {rest : List PacketBeat} (hcoming : h.coming = beat :: rest) :
    (packets (h.consumed ++ [beat])).countP (headedFor tags) =
      (packets h.settled).countP (headedFor tags) +
        (h.now.route.isNone && tags.contains beat.dst).toNat := by
  obtain hold | ⟨hafter, beat', rest', hcoming', hknown, hold⟩ := hin.route
  · rw [settled_of_route h hold]
    cases hfinished : finished PacketBeat.last h.consumed with
    | true =>
        rw [hold, after_routing_eq_none.mpr hfinished, Crossbar.countP_packets_concat hfinished]
        cases tags.contains beat.dst <;> rfl
    | false =>
        have hsome : (routing tags).after none h.consumed ≠ none := by
          rw [ne_eq, after_routing_eq_none, hfinished]
          nofun
        rw [hold, countP_packets_concat_unfinished hfinished, Option.isNone_eq_false_iff.mpr
          (Option.isSome_iff_ne_none.mpr hsome)]
        rfl
  · -- the head beat was counted while it waited
    have hsettled : h.settled = h.consumed ++ [beat] := by
      simp [settled, hold, after_routing_eq_none.mp hafter, hcoming]
    rw [hsettled, hold]
    rfl

/-- The inbound half keeps the inbound direction in order if it keeps the route and the count of
packets. -/
theorem Inward.of_dispatched (hin : h.Inward tags stream) {beat : PacketBeat}
    {rest : List PacketBeat} (hcoming : h.coming = beat :: rest)
    (hroute : (h.dispatched (some beat)).now.route =
        (routing tags).after none (h.dispatched (some beat)).consumed ∨
      (routing tags).after none (h.dispatched (some beat)).consumed = none ∧
        ∃ beat' rest', (h.dispatched (some beat)).coming = beat' :: rest' ∧
          tags.contains beat'.dst = true ∧
          (h.dispatched (some beat)).now.route = some (.port beat'.dst))
    (hrouted : (packets (h.dispatched (some beat)).settled).countP (headedFor tags) =
      (packets h.settled).countP (headedFor tags) +
        (h.now.route.isNone && tags.contains beat.dst).toNat) :
    (h.dispatched (some beat)).Inward tags stream := by
  obtain ⟨hstream, hreceived, hrefused⟩ := hin.dispatched_conserves hcoming
  exact
    { registered := (dispatch_routes h.now (some beat)).tags.trans hin.registered
      stream := hstream.trans hin.stream
      route := hroute
      received := fun tag => hstream.symm ▸ hreceived tag
      refused := hstream.symm ▸ hrefused
      routed := by
        have hcounted : (h.dispatched (some beat)).counted.packetsRouted =
            h.counted.packetsRouted + (h.now.dispatch (some beat)).counted.packetsRouted := rfl
        rw [hcounted, hin.routed, (dispatch_settles h.now beat).routed, hin.registered, hrouted] }

/-- A beat consumed goes with its packet. -/
theorem Inward.consume (hin : h.Inward tags stream) {beat : PacketBeat} {rest : List PacketBeat}
    (hcoming : h.coming = beat :: rest) (htaken : (h.now.dispatch (some beat)).taken = true) :
    (h.dispatched (some beat)).Inward tags stream := by
  have hconsumed : (h.dispatched (some beat)).consumed = h.consumed ++ [beat] := by
    simp [dispatched, htaken]
  have hroute : (h.dispatched (some beat)).now.route =
      (routing tags).after none (h.dispatched (some beat)).consumed := by
    rw [hconsumed, Transducer.after_concat]
    refine ((dispatch_settles h.now beat).taken htaken).trans ?_
    rw [hin.registered]
    obtain hroute | ⟨hafter, beat', rest', hcoming', hknown, hroute⟩ := hin.route
    · rw [hroute]
    · obtain rfl : beat = beat' := (List.cons.inj (hcoming.symm.trans hcoming')).1
      rw [hroute, hafter]
      exact (routing_known beat hknown []).1.symm
  refine hin.of_dispatched hcoming (.inl hroute) ?_
  rw [settled_of_route _ hroute, hconsumed]
  exact hin.countP_packets_concat hcoming

/-- A beat that waits changes nothing but that its route may be settled. -/
theorem Inward.wait (hin : h.Inward tags stream) {beat : PacketBeat} {rest : List PacketBeat}
    (hcoming : h.coming = beat :: rest) (htaken : (h.now.dispatch (some beat)).taken = false) :
    (h.dispatched (some beat)).Inward tags stream := by
  have hconsumed : (h.dispatched (some beat)).consumed = h.consumed := by
    simp [dispatched, htaken]
  have hrest : (h.dispatched (some beat)).coming = beat :: rest := by
    simp [dispatched, htaken, hcoming]
  have hroute : (h.dispatched (some beat)).now.route = (h.now.dispatch (some beat)).next.route :=
    rfl
  obtain ⟨hsome, hsame⟩ | ⟨hnone, hknown, hsettled⟩ :=
    (dispatch_settles h.now beat).waiting htaken
  · have hkept : (h.dispatched (some beat)).settled = h.settled := by
      rw [settled, settled, hconsumed, hrest, hroute, hsame, hcoming]
    refine hin.of_dispatched hcoming ?_ ?_
    · rw [hconsumed, hrest, hroute, hsame, ← hcoming]
      exact hin.route
    · rw [hkept, Option.isNone_eq_false_iff.mpr (Option.isSome_iff_ne_none.mpr hsome)]
      rfl
  · -- the route is settled on this tick
    rw [hin.registered] at hknown
    have hafter : (routing tags).after none h.consumed = none := by
      obtain hold | ⟨hafter, -⟩ := hin.route
      · rw [← hold, hnone]
      · exact hafter
    refine hin.of_dispatched hcoming ?_ ?_
    · rw [hconsumed, hrest, hroute]
      exact .inr ⟨hafter, beat, rest, rfl, hknown, hsettled⟩
    · have hbehind : (h.dispatched (some beat)).settled = h.consumed ++ [beat] := by
        rw [settled, hconsumed, hrest, hroute, hsettled, after_routing_eq_none.mp hafter]
        rfl
      rw [hbehind]
      exact hin.countP_packets_concat hcoming

/-- The inbound half keeps the inbound direction in order. -/
theorem Inward.dispatched (hin : h.Inward tags stream) {input : Option PacketBeat}
    (hinput : ∀ beat ∈ input, h.coming.head? = some beat) :
    (h.dispatched input).Inward tags stream := by
  cases input with
  | none => rwa [dispatched_none]
  | some beat =>
      obtain ⟨rest, hcoming⟩ := List.head?_eq_some_iff.mp (hinput beat rfl)
      cases htaken : (h.now.dispatch (some beat)).taken with
      | true => exact hin.consume hcoming htaken
      | false => exact hin.wait hcoming htaken

/-- A registered port has received the packets addressed to it. -/
theorem Inward.received_addressedTo (hin : h.Inward tags stream) {tag : UInt8} (htag : tag ∈ tags) :
    h.received tag = addressedTo tag h.consumed ∧ h.received tag <+: addressedTo tag stream := by
  have hreceived := hin.received_eq tag
  refine ⟨hreceived.trans (sentTo_routing htag _), ?_⟩
  rw [← sentTo_routing htag, ← hin.stream, Transducer.answers_append, Routed.sentTo_append,
    ← hreceived]
  exact List.prefix_append _ _

/-- A beat of a packet without a port is consumed as soon as it is presented. -/
theorem Inward.consumes_unrouted (hin : h.Inward tags stream) {beat : PacketBeat}
    (hhead : h.coming.head? = some beat)
    (hunrouted : ∀ p ∈ (packets (h.consumed ++ [beat])).getLast?, headedFor tags p = false) :
    h.now.route = some .dropped ∨ h.now.route = none ∧ tags.contains beat.dst = false := by
  cases hfinished : finished PacketBeat.last h.consumed with
  | true =>
      have hunknown : tags.contains beat.dst = false := by
        simpa [packets, blocks_concat_finished hfinished, headedFor] using hunrouted
      obtain hroute | ⟨-, beat', rest, hcoming, hknown, -⟩ := hin.route
      · exact .inr ⟨hroute.trans (after_routing_eq_none.mpr hfinished), hunknown⟩
      · obtain rfl : beat' = beat := by simpa [hcoming] using hhead
        exact absurd (hknown.symm.trans hunknown) (by simp)
  | false =>
      obtain ⟨front, packet, hne, hpackets, hconcat⟩ := blocks_concat_unfinished hfinished beat
      obtain ⟨head, rest, rfl⟩ := List.exists_cons_of_ne_nil hne
      have hunknown : head.dst ∉ tags := by
        simpa [packets, hconcat, headedFor] using hunrouted
      have hafter : (routing tags).after none h.consumed = some .dropped := by
        rw [(routing_beats tags h.consumed).1, packets, hpackets, hfinished]
        simp [routeOf, hunknown]
      obtain hroute | ⟨hnone, -⟩ := hin.route
      · exact .inl (hroute.trans hafter)
      · exact absurd (hafter.symm.trans hnone) (by simp)

/-- What users do leaves the route and the input alone. -/
theorem Inward.of_user {h' : History} (hin : h.Inward tags stream)
    (hregistered : h'.now.tags = h.now.tags) (hroute : h'.now.route = h.now.route)
    (hconsumed : h'.consumed = h.consumed) (hcoming : h'.coming = h.coming)
    (hcounted : h'.counted = h.counted) (hreceived : ∀ tag, h'.received tag = h.received tag) :
    h'.Inward tags stream where
  registered := hregistered.trans hin.registered
  stream := by rw [hconsumed, hcoming, hin.stream]
  route := by
    rw [hroute, hconsumed, hcoming]
    exact hin.route
  received tag := by
    rw [hreceived, hroute, hconsumed, hcoming]
    exact hin.received tag
  refused := by
    rw [hcounted, hroute, hconsumed, hcoming]
    exact hin.refused
  routed := by
    have hsettled : h'.settled = h.settled := by
      rw [settled, settled, hroute, hconsumed, hcoming]
    rw [hcounted, hsettled]
    exact hin.routed

/-! ## the outbound direction -/

/-- How the crossbar relates to what it has sent. -/
structure Outward (tags : List UInt8) (h : History) : Prop where
  registered : h.now.tags = tags
  known : h.now.GrantKnown
  output : h.served.map (·.2) = h.output
  pushed (tag : UInt8) : sentBy tag h.pushed = sentBy tag h.served ++ h.now.sinkOf tag
  members : ∀ s ∈ h.served, s.1 ∈ tags
  /-- The port of an unfinished packet holds the grant. -/
  whole : ∃ owner, Served none h.served owner ∧ h.now.Owned owner

theorem outward_start {x : Crossbar} (htags : x.tags = tags) (hgrant : x.grant = none)
    (hempty : ∀ tag, x.sinkOf tag = []) (stream : List PacketBeat) :
    (start x stream).Outward tags where
  registered := htags
  known := by
    intro tag h
    exact absurd (hgrant.symm.trans h) nofun
  output := rfl
  pushed tag := (hempty tag).symm
  members := nofun
  whole := ⟨none, .nil none, .inl rfl⟩

/-- The outbound half serves one port. -/
theorem Outward.arbitrated (hout : h.Outward tags) (ready : Bool) :
    (h.arbitrated ready).Outward tags := by
  have hserves : h.now.Serves ready (h.now.arbitrate ready) (h.now.serving ready) :=
    arbitrate_serves hout.known ready
  obtain ⟨owner, hserved, howned⟩ := hout.whole
  exact
    { registered := hserves.tags.trans hout.registered
      known := hserves.known
      output := by
        show (h.served ++ h.now.serving ready).map (·.2) = h.output ++ _
        rw [List.map_append, hout.output, hserves.beats]
      pushed := fun tag => by
        show sentBy tag h.pushed = sentBy tag (h.served ++ h.now.serving ready) ++ _
        rw [hout.pushed, hserves.sinkOf, sentBy_append, List.append_assoc]
        rfl
      members := fun s hs => by
        obtain hs | hs := List.mem_append.mp hs
        · exact hout.members s hs
        · exact hout.registered ▸ hserves.members s hs
      whole := hserves.served hserved howned }

/-- What keeps the grant and tells where pushed beats went keeps the outbound direction in order. -/
theorem Outward.of_grant {h' : History} (hout : h.Outward tags)
    (hregistered : h'.now.tags = h.now.tags) (hgrant : h'.now.grant = h.now.grant)
    (hserved : h'.served = h.served) (houtput : h'.output = h.output)
    (hpushed : ∀ tag, sentBy tag h'.pushed = sentBy tag h'.served ++ h'.now.sinkOf tag) :
    h'.Outward tags where
  registered := hregistered.trans hout.registered
  known tag htag := by
    rw [hregistered]
    exact hout.known tag (hgrant ▸ htag)
  output := by rw [hserved, houtput, hout.output]
  pushed := hpushed
  members := hserved ▸ hout.members
  whole := by
    obtain ⟨owner, hwhole, howned⟩ := hout.whole
    exact ⟨owner, hserved ▸ hwhole, by rwa [Owned, hgrant]⟩

/-- The inbound half leaves the outbound direction alone. -/
theorem Outward.dispatched (hout : h.Outward tags) (input : Option PacketBeat) :
    (h.dispatched input).Outward tags := by
  have hroutes : h.now.Routes input (h.now.dispatch input) := dispatch_routes h.now input
  refine hout.of_grant hroutes.tags hroutes.grant rfl rfl fun tag => ?_
  rw [show (h.dispatched input).now.sinkOf tag = h.now.sinkOf tag from hroutes.sinkOf tag]
  exact hout.pushed tag

/-- The packets of the output come from registered ports. -/
theorem Outward.one_port (hout : h.Outward tags) :
    ∀ p ∈ h.servedPackets, ∃ tag ∈ tags, ∀ s ∈ p, s.1 = tag := by
  intro p hp
  obtain ⟨owner, hserved, -⟩ := hout.whole
  obtain ⟨s, hs, hport⟩ := hserved.mem_of_mem_blocks hp
  exact ⟨s.1, hout.members s hs, hport⟩

/-- The packets of the output that come from a port are the packets taken from it. -/
theorem Outward.packets_sentBy (hout : h.Outward tags) (tag : UInt8) :
    (h.servedPackets.filter (·.all (·.1 == tag))).map (·.map (·.2)) =
      packets (sentBy tag h.served) := by
  obtain ⟨owner, hserved, -⟩ := hout.whole
  exact hserved.packets_sentBy tag

/-! ## runs -/

/-- **No event loses, duplicates or misdirects a beat.** -/
theorem conserves_move (hin : h.Inward tags stream) (hout : h.Outward tags) (event : Event) :
    (h.move event).Inward tags stream ∧ (h.move event).Outward tags := by
  cases event with
  | tick presented ready =>
      rw [move_tick]
      refine ⟨(hin.arbitrated (arbitrate_serves hout.known ready)).dispatched fun beat hbeat => ?_,
        (hout.arbitrated ready).dispatched _⟩
      unfold input at hbeat
      split at hbeat
      · exact hbeat
      · simp at hbeat
  | push tag beat =>
      refine ⟨hin.of_user (tags_pushTo ..) rfl rfl rfl rfl fun tag' => ?_,
        hout.of_grant (tags_pushTo ..) rfl rfl rfl fun tag' => ?_⟩
      · exact congrArg (sentBy tag' h.popped ++ ·) (h.now.sourceOf_pushTo tag beat tag')
      · show sentBy tag' (h.pushed ++ _) = sentBy tag' h.served ++ (h.now.pushTo tag beat).sinkOf tag'
        rw [sentBy_append, hout.pushed, h.now.sinkOf_pushTo, List.append_assoc]
  | take tag =>
      refine ⟨hin.of_user (tags_takeFrom ..) rfl rfl rfl rfl fun tag' => ?_,
        hout.of_grant (tags_takeFrom ..) rfl rfl rfl fun tag' => ?_⟩
      · show sentBy tag' (h.popped ++ _) ++ (h.now.takeFrom tag).sourceOf tag' =
          sentBy tag' h.popped ++ h.now.sourceOf tag'
        rw [sentBy_append, List.append_assoc, ← h.now.sourceOf_takeFrom]
      · rw [show (h.move (.take tag)).now.sinkOf tag' = h.now.sinkOf tag' from
          h.now.sinkOf_takeFrom tag tag']
        exact hout.pushed tag'
  | commit =>
      refine ⟨hin.of_user (tags_commit _) rfl rfl rfl rfl fun tag' => ?_,
        hout.of_grant (tags_commit _) rfl rfl rfl fun tag' => ?_⟩
      · exact congrArg (sentBy tag' h.popped ++ ·) (h.now.sourceOf_commit tag')
      · rw [show (h.move .commit).now.sinkOf tag' = h.now.sinkOf tag' from h.now.sinkOf_commit tag']
        exact hout.pushed tag'

theorem conserves_play (hin : h.Inward tags stream) (hout : h.Outward tags) (events : List Event) :
    (h.play events).Inward tags stream ∧ (h.play events).Outward tags := by
  induction events generalizing h with
  | nil => exact ⟨hin, hout⟩
  | cons event events ih =>
      obtain ⟨hin', hout'⟩ := conserves_move hin hout event
      exact ih hin' hout'

end

end History

namespace History

/-- **Packets are routed and arbitrated as wholes.** Whatever the schedule, a port has received the
packets addressed to it, as far as they were consumed, and no others; packets without a port are
consumed without waiting; every packet is counted once. The output is made of packets taken from one
port each, in the order in which its user pushed them, and nothing is lost. -/
theorem packets_conserved (depth : Nat) (tags : List UInt8) {x : Crossbar}
    (hregister : tags.foldlM register { depth } = .ok x) (stream : List PacketBeat)
    (events : List Event) :
    let h := (start x.close stream).play events
    h.consumed ++ h.coming = stream ∧
      (∀ tag ∈ tags, h.received tag = addressedTo tag h.consumed ∧
        h.received tag <+: addressedTo tag stream) ∧
      (∀ tag ∉ tags, h.received tag = []) ∧
      h.counted.packetsUnrouted = (packets h.consumed).countP (fun p => !headedFor tags p) ∧
      h.counted.packetsRouted = (packets h.settled).countP (headedFor tags) ∧
      (∀ beat ready, h.coming.head? = some beat →
        (∀ p ∈ (packets (h.consumed ++ [beat])).getLast?, headedFor tags p = false) →
        (h.move (.tick true ready)).consumed = h.consumed ++ [beat]) ∧
      packets h.output = h.servedPackets.map (·.map (·.2)) ∧
      (∀ p ∈ h.servedPackets, ∃ tag ∈ tags, ∀ s ∈ p, s.1 = tag) ∧
      (∀ tag, (h.servedPackets.filter (·.all (·.1 == tag))).map (·.map (·.2)) =
        packets (sentBy tag h.served)) ∧
      ∀ tag, sentBy tag h.pushed = sentBy tag h.served ++ h.now.sinkOf tag := by
  intro h
  have hx := ports_of_register hregister
  have hports : x.close.ports = tags.map (Port.empty · depth) := by rw [hx]; rfl
  have htags : x.close.tags = tags := by
    rw [Crossbar.tags, hports, List.map_map]
    exact List.map_id tags
  have hempty := contents_of_empty_ports hports
  obtain ⟨hin, hout⟩ : h.Inward tags stream ∧ h.Outward tags :=
    conserves_play
      (inward_start htags (by rw [hx]; rfl) (fun tag => (hempty tag).2) stream)
      (outward_start htags (by rw [hx]; rfl) (fun tag => (hempty tag).1) stream) events
  refine ⟨hin.stream, fun tag htag => hin.received_addressedTo htag, fun tag htag => ?unregistered,
    ?unrouted, hin.routed, fun beat ready hhead hrefused => ?consumes, ?output, hout.one_port,
    hout.packets_sentBy, hout.pushed⟩
  case unregistered => rw [hin.received_eq, sentTo_routing_of_not_mem htag]
  case unrouted => rw [hin.packetsUnrouted_eq, refusals_routing]
  case output => rw [← hout.output, packets, blocks_map, servedPackets]
  case consumes =>
    have hready := hin.arbitrated (arbitrate_serves hout.known ready)
    have htaken := (dispatch_settles (h.arbitrated ready).now beat).refused
      (hready.registered.symm ▸ hready.consumes_unrouted hhead hrefused)
    have hinput : h.input true = some beat := hhead
    rw [move_tick, hinput, dispatched, htaken]
    rfl

/-- One packet through the port of its destination and one that has none; in the other direction a
packet of two beats, whose second beat comes late, and a packet that waits for it. -/
theorem packets_conserved_two_ports :
    let delivered : PacketBeat := { dst := 1, data := 5, last := true }
    let refused : PacketBeat := { dst := 9, data := 6, last := true }
    let first : PacketBeat := { dst := 0, length := 2, data := 3 }
    let second : PacketBeat := { dst := 0, length := 2, data := 4, last := true }
    let waiting : PacketBeat := { dst := 1, length := 1, data := 8, last := true }
    let events : List Event := [.push 0 first, .push 1 waiting, .commit, .tick true false, .commit,
      .tick true true, .commit, .push 0 second, .commit, .take 1, .tick true true, .commit,
      .tick true true, .commit]
    let h := (start { depth := 1, ports := [.empty 0 1, .empty 1 1], closed := true }
      [delivered, refused]).play events
    h.received 1 = [delivered] ∧ h.received 1 = addressedTo 1 h.consumed ∧
      h.counted.packetsUnrouted = (packets h.consumed).countP (fun p => !headedFor [0, 1] p) ∧
      h.counted.packetsUnrouted = 1 ∧
      packets h.output = [[first, second], [waiting]] ∧
      packets h.output = h.servedPackets.map (·.map (·.2)) ∧
      sentBy 0 h.pushed = [first, second] ∧
      sentBy 0 h.pushed = sentBy 0 h.served ++ h.now.sinkOf 0 := by
  intro delivered refused first second waiting events h
  obtain ⟨-, hreceived, -, hunrouted, -, -, houtput, -, -, hpushed⟩ := packets_conserved 1 [0, 1]
    (x := { depth := 1, ports := [.empty 0 1, .empty 1 1] }) rfl [delivered, refused] events
  exact ⟨by decide, (hreceived 1 (by decide)).1, hunrouted, by decide, by decide, houtput,
    by decide, hpushed 0⟩

end History

end Crossbar

end LinkBridge
