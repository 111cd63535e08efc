import LinkBridge.Proofs.Crossbar.Outbound
import LinkBridge.Proofs.Framing.Reading
import LinkBridge.Proofs.Stream.Blocks

/-!
# LinkBridge.Proofs.Crossbar.Packets

The crossbar seen packet by packet. A packet reaches up to the first beat that is marked as the last
one, whatever its beats say otherwise. Inbound, the head beat of a packet decides for all of it
(`routing_beats`, `dispatch_settles`); outbound, a served record is made of packets from one port
each (`Served.one_port`).
-/

namespace LinkBridge

namespace Crossbar

/-! ## packets -/

/-- The packets of a stream of beats; only the last one may be unfinished. -/
def packets (beats : List PacketBeat) : List (List PacketBeat) :=
  blocks PacketBeat.last beats

/-- Whether a packet's head beat names one of the destinations. -/
def headedFor (tags : List UInt8) (packet : List PacketBeat) : Bool :=
  packet.head?.any fun beat => tags.contains beat.dst

/-- The beats of the packets in a stream that are addressed to a destination. -/
def addressedTo (tag : UInt8) (beats : List PacketBeat) : List PacketBeat :=
  ((packets beats).filter (headedFor [tag])).flatten

/-- Where a head beat sends its packet. -/
def routeOf (tags : List UInt8) (head : PacketBeat) : Route :=
  if tags.contains head.dst then .port head.dst else .dropped

/-- What becomes of the beats of a packet. -/
def Routed.ofBeats (tags : List UInt8) : List PacketBeat → List Routed
  | [] => []
  | head :: rest =>
    if tags.contains head.dst then (head :: rest).map (.delivered head.dst) else [.refused]

section

variable {tags : List UInt8}

theorem step_routing_none (beat : PacketBeat) : (routing tags).step none beat =
    ((routeOf tags beat).behind beat, Routed.ofBeats tags [beat]) := by
  simp only [routing, routeOf, Routed.ofBeats]
  split <;> rfl

theorem step_routing_some (head : PacketBeat) (rest : List PacketBeat) (beat : PacketBeat) :
    ((routing tags).step (some (routeOf tags head)) beat).1 = (routeOf tags head).behind beat ∧
      Routed.ofBeats tags (head :: rest ++ [beat]) = Routed.ofBeats tags (head :: rest) ++
        ((routing tags).step (some (routeOf tags head)) beat).2 := by
  by_cases hknown : head.dst ∈ tags <;> simp [routing, routeOf, Routed.ofBeats, hknown]

/-- **Beats are routed packet by packet**, each as its head beat says. -/
theorem routing_beats (tags : List UInt8) (beats : List PacketBeat) :
    (routing tags).after none beats =
        (if finished PacketBeat.last beats then none
          else (packets beats).getLast?.bind fun p => p.head?.map (routeOf tags)) ∧
      (routing tags).answers none beats = (packets beats).flatMap (Routed.ofBeats tags) := by
  induction beats using List.reverseRecOn with
  | nil => exact ⟨rfl, rfl⟩
  | append_singleton beats beat ih =>
      obtain ⟨hafter, hanswers⟩ := ih
      rw [Transducer.after_concat, Transducer.answers_concat, hanswers, hafter, finished_concat]
      cases hfinished : finished PacketBeat.last beats with
      | true =>
          rw [if_pos rfl, step_routing_none, packets, packets, blocks_concat_finished hfinished]
          simp [Route.behind]
      | false =>
          obtain ⟨front, packet, hne, hpackets, hconcat⟩ := blocks_concat_unfinished hfinished beat
          obtain ⟨head, rest, rfl⟩ := List.exists_cons_of_ne_nil hne
          obtain ⟨hstep, hbeats⟩ := @step_routing_some tags head rest beat
          rw [packets, packets, hpackets, hconcat]
          refine ⟨by simp [hstep, Route.behind], ?_⟩
          simp only [Bool.false_eq_true, if_false, List.getLast?_concat, Option.bind_some,
            List.head?_cons, Option.map_some, List.flatMap_append, List.flatMap_singleton, hbeats,
            List.append_assoc]

/-- A registered destination gets the packets addressed to it. -/
theorem sentTo_routing {tag : UInt8} (htag : tag ∈ tags) (beats : List PacketBeat) :
    Routed.sentTo tag ((routing tags).answers none beats) = addressedTo tag beats := by
  rw [(routing_beats tags beats).2, addressedTo]
  induction packets beats with
  | nil => rfl
  | cons packet rest ih =>
      have hpacket : Routed.sentTo tag (Routed.ofBeats tags packet) =
          if headedFor [tag] packet then packet else [] := by
        cases packet with
        | nil => rfl
        | cons head beats =>
            by_cases hhead : head.dst = tag
            · simp [Routed.ofBeats, headedFor, hhead, htag, Routed.sentTo]
            · by_cases hknown : head.dst ∈ tags <;>
                simp [Routed.ofBeats, headedFor, hhead, hknown, Routed.sentTo]
      rw [List.flatMap_cons, Routed.sentTo_append, ih, hpacket, List.filter_cons]
      split <;> simp

/-- A destination without a port gets nothing. -/
theorem sentTo_routing_of_not_mem {tag : UInt8} (htag : tag ∉ tags) (beats : List PacketBeat) :
    Routed.sentTo tag ((routing tags).answers none beats) = [] := by
  rw [(routing_beats tags beats).2]
  induction packets beats with
  | nil => rfl
  | cons packet rest ih =>
      rw [List.flatMap_cons, Routed.sentTo_append, ih, List.append_nil]
      cases packet with
      | nil => rfl
      | cons head beats =>
          by_cases hknown : head.dst ∈ tags
          · have hhead : head.dst ≠ tag := fun h => htag (h ▸ hknown)
            simp [Routed.ofBeats, hknown, hhead, Routed.sentTo]
          · simp [Routed.ofBeats, hknown, Routed.sentTo]

/-- The packets without a port are refused. -/
theorem refusals_routing (tags : List UInt8) (beats : List PacketBeat) :
    Routed.refusals ((routing tags).answers none beats) =
      (packets beats).countP fun p => !headedFor tags p := by
  rw [(routing_beats tags beats).2]
  have hne : ∀ p ∈ packets beats, p ≠ [] := fun p hp => ne_nil_of_mem_blocks hp
  generalize packets beats = ps at hne ⊢
  induction ps with
  | nil => rfl
  | cons packet rest ih =>
      obtain ⟨hpacket, hrest⟩ := List.forall_mem_cons.mp hne
      obtain ⟨head, beats, rfl⟩ := List.exists_cons_of_ne_nil hpacket
      rw [List.flatMap_cons, Routed.refusals_append, ih hrest, List.countP_cons, Nat.add_comm]
      by_cases hknown : head.dst ∈ tags <;>
        simp [Routed.ofBeats, headedFor, hknown, Routed.refusals, Function.comp_def]

/-- Behind finished packets a beat begins a new one. -/
theorem countP_packets_concat {beats : List PacketBeat}
    (h : finished PacketBeat.last beats = true) (beat : PacketBeat) :
    (packets (beats ++ [beat])).countP (headedFor tags) =
      (packets beats).countP (headedFor tags) + if tags.contains beat.dst then 1 else 0 := by
  rw [packets, packets, blocks_concat_finished h, List.countP_append]
  simp [headedFor, List.countP_cons]

/-- Within a packet a beat begins none. -/
theorem countP_packets_concat_unfinished {beats : List PacketBeat}
    (h : finished PacketBeat.last beats = false) (beat : PacketBeat) :
    (packets (beats ++ [beat])).countP (headedFor tags) =
      (packets beats).countP (headedFor tags) := by
  obtain ⟨front, packet, hne, hpackets, hconcat⟩ := blocks_concat_unfinished h beat
  obtain ⟨head, rest, rfl⟩ := List.exists_cons_of_ne_nil hne
  rw [packets, packets, hpackets, hconcat]
  simp [headedFor, List.countP_append, List.countP_cons]

/-- The route in progress is the one of the packet in progress. -/
theorem after_routing_eq_none {beats : List PacketBeat} :
    (routing tags).after none beats = none ↔ finished PacketBeat.last beats = true := by
  rcases List.eq_nil_or_concat beats with rfl | ⟨front, beat, rfl⟩
  · simp
  · rw [List.concat_eq_append, Transducer.after_concat, finished_concat]
    rcases (routing tags).after none front with _ | ⟨tag⟩ | _ <;>
      simp only [routing, Route.behind] <;> repeat' split
    all_goals simp_all

/-! ## the route in progress -/

/-- What a tick that is presented a beat does to the route and to the count of packets routed. -/
structure Settles (x : Crossbar) (beat : PacketBeat) (t : Transfer Crossbar PacketBeat) : Prop where
  /-- A beat that is taken goes with its packet. -/
  taken : t.taken = true → t.next.route = ((routing x.tags).step x.route beat).1
  /-- A head beat with a port may have its route settled before it is taken. -/
  waiting : t.taken = false → x.route ≠ none ∧ t.next.route = x.route ∨
    x.route = none ∧ x.tags.contains beat.dst = true ∧ t.next.route = some (.port beat.dst)
  routed : t.counted.packetsRouted = (x.route.isNone && x.tags.contains beat.dst).toNat
  /-- A beat without a port never waits. -/
  refused : x.route = some .dropped ∨ x.route = none ∧ x.tags.contains beat.dst = false →
    t.taken = true

/-- Delivering a beat leaves the route to the rest of its packet. -/
theorem deliver_route {x : Crossbar} {route : Route} (h : x.route = some route)
    (beat : PacketBeat) :
    ((x.deliver beat).taken = true → (x.deliver beat).next.route = route.behind beat) ∧
      ((x.deliver beat).taken = false → (x.deliver beat).next.route = some route) ∧
      (route = .dropped → (x.deliver beat).taken = true) := by
  have hbehind (y : Crossbar) (hy : y.route = some route) :
      (if beat.last then { y with route := none } else y).route = route.behind beat :=
    route_behind hy beat
  unfold deliver
  rw [h]
  cases route with
  | dropped => exact ⟨fun _ => hbehind x h, nofun, fun _ => rfl⟩
  | port tag =>
      cases hport : x.port? tag with
      | none =>
          simp only [hport]
          exact ⟨nofun, fun _ => h, nofun⟩
      | some p =>
          by_cases hready : p.source.ready = true
          · simp only [hport, hready, if_true]
            exact ⟨fun _ => hbehind _ h, nofun, nofun⟩
          · simp only [hport, if_neg hready]
            exact ⟨nofun, fun _ => h, nofun⟩

/-- **The head beat of a packet settles its route**, which lasts until the packet ends. -/
theorem dispatch_settles (x : Crossbar) (beat : PacketBeat) :
    x.Settles beat (x.dispatch (some beat)) := by
  unfold dispatch chooseRoute
  cases hroute : x.route with
  | some route =>
      obtain ⟨htaken, hwaiting, hdropped⟩ := deliver_route hroute beat
      have hstep : ((routing x.tags).step (some route) beat).1 = route.behind beat := by
        cases route <;> rfl
      exact
        { taken := fun h => by rw [hroute, hstep]; exact htaken h
          waiting := fun h => .inl ⟨by rw [hroute]; nofun, by rw [hroute]; exact hwaiting h⟩
          routed := by rw [hroute]; rfl
          refused := by
            rintro (h | ⟨h, -⟩)
            · exact hdropped (Option.some.inj (hroute.symm.trans h))
            · exact absurd (hroute.symm.trans h) nofun }
  | none =>
      simp only [isSome_port?]
      cases hknown : x.tags.contains beat.dst with
      | true =>
          obtain ⟨htaken, hwaiting, -⟩ :=
            deliver_route (x := { x with route := some (.port beat.dst) }) rfl beat
          exact
            { taken := fun h => by
                rw [hroute, step_routing_none, routeOf, if_pos hknown]
                exact htaken h
              waiting := fun h => .inr ⟨hroute, hknown, hwaiting h⟩
              routed := by rw [hroute, hknown]; rfl
              refused := by
                rintro (h | ⟨-, h⟩)
                · exact absurd (hroute.symm.trans h) nofun
                · exact absurd (hknown.symm.trans h) nofun }
      | false =>
          obtain ⟨htaken, -, hdropped⟩ :=
            deliver_route (x := { x with route := some .dropped }) rfl beat
          exact
            { taken := fun h => by
                have hrouteOf : routeOf x.tags beat = .dropped := by
                  rw [routeOf, hknown]
                  rfl
                rw [hroute, step_routing_none, hrouteOf]
                exact htaken h
              waiting := fun h => absurd (h.symm.trans (hdropped rfl)) nofun
              routed := by rw [hroute, hknown]; rfl
              refused := fun _ => hdropped rfl }

end

/-! ## served records -/

/-- The packets of a served record come from one port each. -/
theorem Served.one_port {owner last : Option UInt8} {sent : List (UInt8 × PacketBeat)}
    (h : Served owner sent last) :
    (∀ tag, owner = some tag → ∀ p ∈ (blocks (fun s => s.2.last) sent).head?, ∀ s ∈ p, s.1 = tag) ∧
      ∀ p ∈ blocks (fun s => s.2.last) sent, ∃ tag, ∀ s ∈ p, s.1 = tag := by
  induction h with
  | nil owner => exact ⟨by simp, by simp⟩
  | @cons owner _ tag beat sent howner _ ih =>
      obtain ⟨hfirst, hall⟩ := ih
      have hsame : ∀ tag', owner = some tag' → tag = tag' := by
        rintro tag' rfl
        simpa [eq_comm] using howner
      cases hlast : beat.last with
      | true =>
          rw [blocks_cons_end (by exact hlast)]
          refine ⟨fun tag' htag' => by simpa using hsame tag' htag', ?_⟩
          exact List.forall_mem_cons.mpr ⟨⟨tag, by simp⟩, hall⟩
      | false =>
          rw [blocks_cons (by exact hlast)]
          have howner' : ownerBehind tag beat = some tag := by simp [ownerBehind, hlast]
          cases hblocks : blocks (fun s => s.2.last) sent with
          | nil =>
              refine ⟨fun tag' htag' => by simpa [joinFirst] using hsame tag' htag', ?_⟩
              exact List.forall_mem_cons.mpr ⟨⟨tag, by simp⟩, by simp⟩
          | cons p ps =>
              rw [hblocks] at hfirst hall
              have hp : ∀ s ∈ (tag, beat) :: p, s.1 = tag :=
                List.forall_mem_cons.mpr ⟨rfl, hfirst tag howner' p rfl⟩
              refine ⟨fun tag' htag' q hq => ?_, ?_⟩
              · obtain rfl : (tag, beat) :: p = q := Option.some.inj hq
                exact hsame tag' htag' ▸ hp
              · exact List.forall_mem_cons.mpr
                  ⟨⟨tag, hp⟩, fun q hq => hall q (List.mem_cons_of_mem p hq)⟩

/-- Their ports have sent something. -/
theorem Served.mem_of_mem_blocks {owner last : Option UInt8} {sent : List (UInt8 × PacketBeat)}
    (h : Served owner sent last) {p : List (UInt8 × PacketBeat)}
    (hp : p ∈ blocks (fun s => s.2.last) sent) : ∃ s ∈ sent, ∀ s' ∈ p, s'.1 = s.1 := by
  obtain ⟨tag, htag⟩ := h.one_port.2 p hp
  obtain ⟨s, rest, rfl⟩ := List.exists_cons_of_ne_nil (ne_nil_of_mem_blocks hp)
  refine ⟨s, ?_, fun s' hs' => (htag s' hs').trans (htag s List.mem_cons_self).symm⟩
  rw [← flatten_blocks (fun s => s.2.last) sent]
  exact List.mem_flatten_of_mem hp List.mem_cons_self

/-- **The packets of a served record that come from a port are the packets it has sent.** -/
theorem Served.packets_sentBy {owner last : Option UInt8} {sent : List (UInt8 × PacketBeat)}
    (h : Served owner sent last) (tag : UInt8) :
    ((blocks (fun s => s.2.last) sent).filter (·.all (·.1 == tag))).map (·.map (·.2)) =
      packets (sentBy tag sent) := by
  rw [packets, sentBy, blocks_map, blocks_filter]
  intro p hp
  obtain ⟨s, -, hs⟩ := h.mem_of_mem_blocks hp
  by_cases heq : s.1 = tag
  · exact .inl fun s' hs' => by simpa [hs s' hs'] using heq
  · exact .inr fun s' hs' => by simpa [hs s' hs'] using heq

/-- A packet that is sent is one of the packets of a port. -/
theorem Served.mem_packets {owner last : Option UInt8} {sent : List (UInt8 × PacketBeat)}
    (h : Served owner sent last) {p : List PacketBeat} (hp : p ∈ packets (sent.map (·.2))) :
    ∃ s ∈ sent, p ∈ packets (sentBy s.1 sent) := by
  rw [packets, blocks_map] at hp
  obtain ⟨q, hq, rfl⟩ := List.mem_map.mp hp
  obtain ⟨s, hs, hport⟩ := h.mem_of_mem_blocks hq
  refine ⟨s, hs, ?_⟩
  rw [← h.packets_sentBy]
  refine List.mem_map_of_mem (List.mem_filter.mpr ⟨hq, ?_⟩)
  exact List.all_eq_true.mpr fun s' hs' => beq_iff_eq.mpr (hport s' hs')

/-- The packets that carry payloads. -/
theorem packets_flatMap_beatsFor (tag : UInt8) {payloads : List (List Word)}
    (hne : ∀ ws ∈ payloads, ws ≠ []) :
    packets (payloads.flatMap (Packet.beatsFor tag)) = payloads.map (Packet.beatsFor tag) := by
  induction payloads with
  | nil => rfl
  | cons ws payloads ih =>
      obtain ⟨hws, hpayloads⟩ := List.forall_mem_cons.mp hne
      rw [packets] at ih ⊢
      rw [List.flatMap_cons, Packet.beatsFor, Packet.blocks_beatsOf_append tag _ hws, ih hpayloads]
      rfl

end Crossbar

end LinkBridge
