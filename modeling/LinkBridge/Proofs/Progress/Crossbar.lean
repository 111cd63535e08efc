import LinkBridge.Proofs.Crossbar.Packets
import LinkBridge.Proofs.Progress.Queues

/-!
# LinkBridge.Proofs.Progress.Crossbar

Progress of the crossbar with any number of ports. Each half either moves a beat, settles where the
next packet goes or which port comes next, or waits; a half that waits has no beat to move or no room
for it (`tick_load`). Packets stay whole on the way: the port that has the grant is the only one
whose sink may begin within a packet, and the port of the route is the only one whose source may end
within one (`tick_whole`).
-/

namespace LinkBridge

namespace Crossbar

open Channel (length_drain)

variable {x : Crossbar}

/-! ## ports -/

/-- Where destinations differ, a port is found by its destination. -/
theorem port?_of_mem (h : x.tags.Nodup) {p : Port} (hp : p ∈ x.ports) :
    x.port? p.tag = some p := by
  unfold port?
  unfold tags at h
  generalize x.ports = ports at h hp ⊢
  induction ports with
  | nil => contradiction
  | cons q rest ih =>
      obtain ⟨hq, hrest⟩ := List.nodup_cons.mp h
      rcases List.mem_cons.mp hp with rfl | hp
      · simp
      · have hne : q.tag ≠ p.tag := fun heq => hq (List.mem_map.mpr ⟨p, hp, heq.symm⟩)
        rw [List.find?_cons_of_neg (by simpa using hne)]
        exact ih hrest hp

theorem mem_tags_of_port? {tag : UInt8} {p : Port} (h : x.port? tag = some p) : tag ∈ x.tags := by
  have hsome := x.isSome_port? tag
  rw [h] at hsome
  exact List.contains_iff_mem.mp hsome.symm

/-- Where destinations differ, a destination has one port. -/
theorem eq_of_port? (h : x.tags.Nodup) {tag : UInt8} {port p : Port}
    (hport : x.port? tag = some port) (hp : p ∈ x.ports) (htag : p.tag = tag) : p = port := by
  have hp := port?_of_mem h hp
  rw [htag, hport] at hp
  exact (Option.some.inj hp).symm

/-- Putting a port back as it was changes nothing. -/
theorem modifyPort_self (hnodup : x.tags.Nodup) {tag : UInt8} {port : Port}
    (hport : x.port? tag = some port) {f : Port → Port} (hf : f port = port) :
    x.modifyPort tag f = x := by
  unfold modifyPort
  have hports : (x.ports.map fun p => if p.tag == tag then f p else p) = x.ports := by
    refine (List.map_congr_left fun p hp => ?_).trans (List.map_id x.ports)
    split
    · next htag => rw [eq_of_port? hnodup hport hp (beq_iff_eq.mp htag), hf, id]
    · rfl
  rw [hports]

/-- Whether the packet in progress goes to a registered destination, if it goes to one. -/
def RouteKnown (x : Crossbar) : Prop :=
  ∀ tag, x.route = some (.port tag) → tag ∈ x.tags

/-- Users that put beats into their port and take beats from it leave the settings alone. -/
theorem reset_modifyPort {tag : UInt8} {f : Port → Port}
    (h : ∀ p ∈ x.ports, p.tag = tag → (f p).flush = p.flush) :
    (x.modifyPort tag f).reset = x.reset := by
  simp only [reset, modifyPort, List.map_map, Function.comp_def]
  congr 1
  refine List.map_congr_left fun p hp => ?_
  split
  · next htag => exact h p hp (beq_iff_eq.mp htag)
  · rfl

@[simp] theorem reset_commit (x : Crossbar) : x.commit.reset = x.reset := by
  simp [reset, commit, Port.flush, Port.commit, Function.comp_def, Channel.flush]

@[simp] theorem reset_reset (x : Crossbar) : x.reset.reset = x.reset := by
  simp [reset, Port.flush, Function.comp_def, Channel.flush]

/-- How many beats the channels of the ports hold. -/
def rooms (x : Crossbar) : List Nat :=
  x.ports.flatMap fun p => [p.sink.capacity, p.source.capacity]

@[simp] theorem rooms_reset (x : Crossbar) : x.reset.rooms = x.rooms := by
  simp [rooms, reset, List.flatMap_map, Port.flush]

@[simp] theorem tags_reset (x : Crossbar) : x.reset.tags = x.tags := by
  simp [tags, reset, Port.flush]

theorem isIdle_reset (x : Crossbar) : x.reset.isIdle = true := by
  simp [isIdle, reset, Port.flush, Port.isIdle, Channel.isEmpty, Channel.flush]

theorem room_of_port? (h : ∀ n ∈ x.rooms, 0 < n) {tag : UInt8} {p : Port}
    (hport : x.port? tag = some p) : 0 < p.sink.capacity ∧ 0 < p.source.capacity := by
  have hmem : p ∈ x.ports := List.mem_of_find?_eq_some hport
  exact ⟨h _ (List.mem_flatMap.mpr ⟨p, hmem, by simp⟩), h _ (List.mem_flatMap.mpr ⟨p, hmem, by simp⟩)⟩

/-! ## loads -/

/-- The beats on their way to the users. -/
def sourceCount (x : Crossbar) : Nat :=
  (x.tags.flatMap x.sourceOf).length

/-- The beats on their way from the users. -/
def sinkCount (x : Crossbar) : Nat :=
  (x.tags.flatMap x.sinkOf).length

/-- The beats behind the inbound half; settling a route is work as well. -/
def inboundLoad (x : Crossbar) : Nat :=
  x.route.isNone.toNat + x.sourceCount

/-- The beats ahead of the outbound half; choosing a port is work as well. -/
def outboundLoad (x : Crossbar) : Nat :=
  x.grant.isNone.toNat + 15 * x.sinkCount

@[simp] theorem inboundLoad_commit (x : Crossbar) : x.commit.inboundLoad = x.inboundLoad := by
  simp [inboundLoad, sourceCount, show x.commit.route = x.route from rfl]

@[simp] theorem outboundLoad_commit (x : Crossbar) : x.commit.outboundLoad = x.outboundLoad := by
  simp [outboundLoad, sinkCount, show x.commit.grant = x.grant from rfl]

/-- How many beats there are at all destinations when those of one change. -/
theorem length_flatMap_add {tags : List UInt8} (hnodup : tags.Nodup) {tag : UInt8}
    (hmem : tag ∈ tags) {f g : UInt8 → List PacketBeat} (h : ∀ other, other ≠ tag → g other = f other) :
    (tags.flatMap g).length + (f tag).length = (tags.flatMap f).length + (g tag).length := by
  induction tags with
  | nil => contradiction
  | cons t rest ih =>
      obtain ⟨ht, hrest⟩ := List.nodup_cons.mp hnodup
      simp only [List.flatMap_cons, List.length_append]
      by_cases heq : t = tag
      · have hsame : rest.flatMap g = rest.flatMap f :=
          congrArg List.flatten <| List.map_congr_left fun other hother =>
            h other (by rintro rfl; exact ht (heq ▸ hother))
        rw [heq, hsame]
        omega
      · have hmem : tag ∈ rest := (List.mem_cons.mp hmem).resolve_left (Ne.symm heq)
        have hsum := ih hrest hmem
        rw [h t heq]
        omega

section

variable {x' : Crossbar} {tag : UInt8} {p p' : Port}

/-- What changing a source does to the load. -/
theorem Touches.inboundLoad (h : x.Touches x' tag p p') (hnodup : x.tags.Nodup)
    (hport : x.port? tag = some p) :
    x'.inboundLoad + p.source.contents.length = x.inboundLoad + p'.source.contents.length := by
  have hsum := length_flatMap_add hnodup (mem_tags_of_port? hport)
    fun other hother => (h.others other hother).2
  rw [h.source, h.source'] at hsum
  rw [Crossbar.inboundLoad, Crossbar.inboundLoad, sourceCount, sourceCount, h.tags, h.route]
  omega

/-- What changing a sink does to the load. -/
theorem Touches.outboundLoad (h : x.Touches x' tag p p') (hnodup : x.tags.Nodup)
    (hport : x.port? tag = some p) :
    x'.outboundLoad + 15 * p.sink.contents.length =
      x.outboundLoad + 15 * p'.sink.contents.length := by
  have hsum := length_flatMap_add hnodup (mem_tags_of_port? hport)
    fun other hother => (h.others other hother).1
  rw [h.sink, h.sink'] at hsum
  rw [Crossbar.outboundLoad, Crossbar.outboundLoad, sinkCount, sinkCount, h.tags, h.grant]
  omega

end

/-! ## the inbound half -/

/-- The crossbar with a beat stored at the port of its packet. -/
def storing (x : Crossbar) (tag : UInt8) (beat : PacketBeat) : Crossbar :=
  ({ x with route := some (.port tag) } : Crossbar).modifyPort tag fun p =>
    { p with source := p.source.push beat }

theorem reset_storing (x : Crossbar) (tag : UInt8) (beat : PacketBeat) :
    (x.storing tag beat).reset = x.reset :=
  reset_modifyPort (x := { x with route := some (.port tag) })
    (f := fun p => { p with source := p.source.push beat }) fun _ _ _ => by
      simp [Port.flush, Channel.flush]

theorem touches_storing {tag : UInt8} {p : Port} (hport : x.port? tag = some p)
    (beat : PacketBeat) : ({ x with route := some (.port tag) } : Crossbar).Touches
      (x.storing tag beat) tag p { p with source := p.source.push beat } :=
  touches_modifyPort (x := { x with route := some (.port tag) })
    (f := fun p => { p with source := p.source.push beat }) hport fun _ => rfl

/-- What a tick of the inbound half does with the beat presented to it. -/
inductive Dispatches (x : Crossbar) (beat : PacketBeat) (t : Transfer Crossbar PacketBeat) :
    Prop where
  /-- The beat is dropped with its packet. -/
  | drops : x.route = none ∨ x.route = some .dropped → t.taken = true →
      t.next = ({ x with route := some .dropped } : Crossbar).behind beat → Dispatches x beat t
  /-- The beat is stored at the port of its packet. -/
  | delivers (tag : UInt8) (p : Port) : x.route = none ∨ x.route = some (.port tag) →
      x.port? tag = some p → p.source.ready = true → t.taken = true →
      t.next = (x.storing tag beat).behind beat → Dispatches x beat t
  /-- The port of the packet, settled now or before, has no room. -/
  | waits (tag : UInt8) : x.route = none ∧ tag ∈ x.tags ∨ x.route = some (.port tag) →
      (∀ p, x.port? tag = some p → p.source.ready = false) → t.taken = false →
      t.next = { x with route := some (.port tag) } → Dispatches x beat t

/-- A beat whose route is settled. -/
theorem dispatches_deliver (route : Route) (h : x.route = none ∨ x.route = some route)
    (hknown : ∀ tag, route = .port tag → x.route = none → tag ∈ x.tags) (beat : PacketBeat)
    {t : Transfer Crossbar PacketBeat}
    (hnext : t.next = (({ x with route := some route } : Crossbar).deliver beat).next)
    (htaken : t.taken = (({ x with route := some route } : Crossbar).deliver beat).taken) :
    x.Dispatches beat t := by
  cases route with
  | dropped => exact .drops h htaken hnext
  | port tag =>
      have hroute : x.route = none ∧ tag ∈ x.tags ∨ x.route = some (.port tag) :=
        h.imp_left fun hnone => ⟨hnone, hknown tag rfl hnone⟩
      unfold deliver at hnext htaken
      cases hport : x.port? tag with
      | none =>
          have hsettled : ({ x with route := some (.port tag) } : Crossbar).port? tag = none := hport
          simp only [hsettled] at hnext htaken
          exact .waits tag hroute (fun p hp => absurd (hport.symm.trans hp) nofun) htaken hnext
      | some p =>
          have hsettled : ({ x with route := some (.port tag) } : Crossbar).port? tag = some p :=
            hport
          by_cases hready : p.source.ready = true
          · simp only [hsettled, hready, if_true] at hnext htaken
            exact .delivers tag p h hport hready htaken hnext
          · simp only [hsettled, if_neg hready] at hnext htaken
            refine .waits tag hroute (fun q hq => ?_) htaken hnext
            rw [← Option.some.inj (hport.symm.trans hq)]
            simpa using hready

theorem dispatch_dispatches (x : Crossbar) (beat : PacketBeat) :
    x.Dispatches beat (x.dispatch (some beat)) := by
  cases hroute : x.route with
  | some route =>
      have hx : ({ x with route := some route } : Crossbar) = x := by rw [← hroute]
      refine dispatches_deliver route (.inr hroute) (fun _ _ hnone => ?_) beat ?_ ?_
      · rw [hroute] at hnone
        contradiction
      · simp only [dispatch, chooseRoute, hroute, hx]
      · simp only [dispatch, chooseRoute, hroute, hx]
  | none =>
      cases hknown : x.tags.contains beat.dst with
      | true =>
          refine dispatches_deliver (.port beat.dst) (.inl hroute) ?_ beat ?_ ?_
          · rintro tag htag -
            rw [← Route.port.inj htag]
            exact List.contains_iff_mem.mp hknown
          · simp only [dispatch, chooseRoute, hroute, isSome_port?, hknown, if_true]
          · simp only [dispatch, chooseRoute, hroute, isSome_port?, hknown, if_true]
      | false =>
          refine dispatches_deliver .dropped (.inl hroute) nofun beat ?_ ?_
          · simp only [dispatch, chooseRoute, hroute, isSome_port?, hknown, Bool.false_eq_true,
              if_false]
          · simp only [dispatch, chooseRoute, hroute, isSome_port?, hknown, Bool.false_eq_true,
              if_false]

theorem inboundLoad_behind_le (x : Crossbar) (beat : PacketBeat) :
    (x.behind beat).inboundLoad ≤ x.inboundLoad + 1 := by
  obtain ⟨route, heq⟩ := x.behind_eq beat
  have hroute : route.isNone.toNat ≤ 1 := Bool.toNat_le _
  rw [heq]
  show route.isNone.toNat + x.sourceCount ≤ x.route.isNone.toNat + x.sourceCount + 1
  omega

theorem inboundLoad_settled (x : Crossbar) (route : Route) :
    ({ x with route := some route } : Crossbar).inboundLoad + x.route.isNone.toNat =
      x.inboundLoad := by
  show 0 + x.sourceCount + x.route.isNone.toNat = x.route.isNone.toNat + x.sourceCount
  omega

/-- **A tick of the inbound half takes a beat, settles a route, or waits for a beat or for room.** -/
theorem dispatch_load (hnodup : x.tags.Nodup) (input : Option PacketBeat) :
    let t := x.dispatch input
    t.next.inboundLoad < x.inboundLoad + 3 * (t.removed input).length ∨
      (t.next = x ∧ t.taken = false) ∧ ∀ beat, input = some beat → ∃ tag,
        x.route = some (.port tag) ∧ ∀ p, x.port? tag = some p → p.source.ready = false := by
  intro t
  cases input with
  | none => exact .inr ⟨⟨rfl, rfl⟩, nofun⟩
  | some beat =>
      obtain ⟨-, htaken, hnext⟩ | ⟨tag, p, -, hport, hready, htaken, hnext⟩ |
        ⟨tag, hroute, hfull, htaken, hnext⟩ := x.dispatch_dispatches beat
      · refine .inl ?_
        have hsettled := x.inboundLoad_settled .dropped
        have hbehind := inboundLoad_behind_le { x with route := some .dropped } beat
        rw [hnext, Transfer.length_removed_of_taken htaken]
        omega
      · refine .inl ?_
        have hsettled := x.inboundLoad_settled (.port tag)
        have hpushed : (p.source.push beat).contents.length = p.source.contents.length + 1 := by
          simp [Channel.contents_push, hready]
        have hstored := (touches_storing hport beat).inboundLoad hnodup hport
        simp only [hpushed] at hstored
        have hbehind := (x.storing tag beat).inboundLoad_behind_le beat
        rw [hnext, Transfer.length_removed_of_taken htaken]
        omega
      · obtain ⟨hnone, -⟩ | hsame := hroute
        · refine .inl ?_
          have hsettled := x.inboundLoad_settled (.port tag)
          rw [hnone, Option.isNone_none, Bool.toNat_true] at hsettled
          rw [hnext]
          omega
        · refine .inr ⟨⟨?_, htaken⟩, fun _ _ => ⟨tag, hsame, hfull⟩⟩
          rw [hnext, ← hsame]

/-! ## packets on the inbound half -/

theorem unfinished_behind (route : Route) (beat : PacketBeat) (xs : List PacketBeat) :
    unfinished PacketBeat.last (route.behind beat).isSome xs =
      unfinished PacketBeat.last (!beat.last) xs := by
  cases hlast : beat.last <;> simp [Route.behind, hlast]

/-- Whether a packet that has reached a destination in part is the one in progress; `begun` says that
the user is within a packet. -/
def Continues (x : Crossbar) (tag : UInt8) (begun : Bool) : Prop :=
  unfinished PacketBeat.last begun (x.sourceOf tag) = true → x.route = some (.port tag)

/-- What a tick of the inbound half does to packets: it follows those of the stream, and a packet that
is stored in part is the one in progress. -/
structure FollowsStream (x : Crossbar) (input : Option PacketBeat)
    (t : Transfer Crossbar PacketBeat) : Prop where
  stream : ∀ xs, unfinished PacketBeat.last t.next.route.isSome (t.left input ++ xs) =
    unfinished PacketBeat.last x.route.isSome (input.toList ++ xs)
  continues : ∀ tag begun, x.Continues tag begun → t.next.Continues tag begun
  known : x.RouteKnown → t.next.RouteKnown
  reset : t.next.reset = x.reset

section

variable {beat : PacketBeat} {t : Transfer Crossbar PacketBeat}

/-- The route behind a beat that is taken follows the stream. -/
theorem unfinished_left_of_taken (htaken : t.taken = true) {route : Route}
    (hroute : t.next.route = route.behind beat) (begun : Bool) (xs : List PacketBeat) :
    unfinished PacketBeat.last t.next.route.isSome (t.left (some beat) ++ xs) =
      unfinished PacketBeat.last begun ((some beat).toList ++ xs) := by
  rw [hroute, Transfer.left_of_taken htaken, unfinished_behind]
  rfl

theorem followsStream_of_drops (hroute : x.route = none ∨ x.route = some .dropped)
    (htaken : t.taken = true)
    (hnext : t.next = ({ x with route := some .dropped } : Crossbar).behind beat) :
    x.FollowsStream (some beat) t := by
  have hbehind : t.next.route = Route.behind .dropped beat := by
    rw [hnext]
    exact route_behind rfl beat
  obtain ⟨route, heq⟩ := ({ x with route := some .dropped } : Crossbar).behind_eq beat
  have hsame : t.next = { x with route } := hnext.trans heq
  refine ⟨unfinished_left_of_taken htaken hbehind _, fun tag begun h hbegun => ?_,
    fun _ tag htag => ?_, by rw [hsame]; rfl⟩
  · rw [hsame] at hbegun
    have hport : x.route = some (.port tag) := h hbegun
    simp [hport] at hroute
  · rw [hbehind, Route.behind] at htag
    cases hlast : beat.last <;> simp [hlast] at htag

theorem followsStream_of_delivers {tag : UInt8} {p : Port}
    (hroute : x.route = none ∨ x.route = some (.port tag)) (hport : x.port? tag = some p)
    (hready : p.source.ready = true) (htaken : t.taken = true)
    (hnext : t.next = (x.storing tag beat).behind beat) : x.FollowsStream (some beat) t := by
  have hbehind : t.next.route = Route.behind (.port tag) beat := by
    rw [hnext]
    exact route_behind rfl beat
  obtain ⟨route, heq⟩ := (x.storing tag beat).behind_eq beat
  have hsame : t.next = { x.storing tag beat with route } := hnext.trans heq
  have htouches := touches_storing hport beat
  have hsource (tag' : UInt8) : t.next.sourceOf tag' = (x.storing tag beat).sourceOf tag' := by
    rw [hsame]
    rfl
  refine ⟨unfinished_left_of_taken htaken hbehind _, fun tag' begun h hbegun => ?_,
    fun _ tag' htag => ?_, ?_⟩
  · rw [hsource] at hbegun
    by_cases htag : tag' = tag
    · -- the packet that ends in the beat just stored is finished with it
      have hpushed : (p.source.push beat).contents = p.source.contents ++ [beat] := by
        rw [Channel.contents_push, if_pos hready]
      rw [htag, htouches.source', hpushed] at hbegun
      have hlast : beat.last = false := by simpa using hbegun
      simp [hbehind, Route.behind, hlast, htag]
    · rw [(htouches.others tag' htag).2] at hbegun
      have hother : x.route = some (.port tag') := h hbegun
      exact absurd (by simpa [hother] using hroute) htag
  · rw [hbehind, Route.behind] at htag
    cases hlast : beat.last with
    | true => simp [hlast] at htag
    | false =>
        obtain rfl : tag = tag' := by simpa [hlast] using htag
        have htags : t.next.tags = x.tags := by
          rw [hsame]
          exact htouches.tags
        rw [htags]
        exact mem_tags_of_port? hport
  · rw [hsame]
    exact x.reset_storing tag beat

theorem followsStream_of_waits {tag : UInt8}
    (hroute : x.route = none ∧ tag ∈ x.tags ∨ x.route = some (.port tag))
    (htaken : t.taken = false) (hnext : t.next = { x with route := some (.port tag) }) :
    x.FollowsStream (some beat) t where
  stream xs := by
    rw [Transfer.left_of_not_taken htaken]
    rfl
  continues tag' begun h hbegun := by
    rw [hnext] at hbegun ⊢
    have hother : x.route = some (.port tag') := h hbegun
    obtain rfl : tag' = tag := by simpa [hother] using hroute
    rfl
  known hknown tag' htag := by
    rw [hnext] at htag ⊢
    obtain rfl : tag = tag' := by simpa using htag
    exact hroute.elim And.right (hknown tag)
  reset := by
    rw [hnext]
    rfl

end

/-- **The inbound half follows the packets of the stream.** -/
theorem dispatch_followsStream (x : Crossbar) (input : Option PacketBeat) :
    x.FollowsStream input (x.dispatch input) := by
  cases input with
  | none => exact ⟨fun _ => rfl, fun _ _ h => h, id, rfl⟩
  | some beat =>
      obtain ⟨hroute, htaken, hnext⟩ | ⟨tag, p, hroute, hport, hready, htaken, hnext⟩ |
        ⟨tag, hroute, -, htaken, hnext⟩ := x.dispatch_dispatches beat
      · exact followsStream_of_drops hroute htaken hnext
      · exact followsStream_of_delivers hroute hport hready htaken hnext
      · exact followsStream_of_waits hroute htaken hnext

/-! ## the outbound half -/

/-- The crossbar with the oldest beat of a port sent. -/
def sending (x : Crossbar) (tag : UInt8) (beat : PacketBeat) (turn : Nat) : Crossbar :=
  { ({ x with turn } : Crossbar).modifyPort tag fun p => { p with sink := p.sink.take } with
    grant := ownerBehind tag beat }

theorem reset_sending (x : Crossbar) (tag : UInt8) (beat : PacketBeat) (turn : Nat) :
    (x.sending tag beat turn).reset = x.reset :=
  reset_modifyPort (x := { x with turn }) (f := fun p => { p with sink := p.sink.take })
    fun _ _ _ => by simp [Port.flush, Channel.flush]

theorem touches_sending {tag : UInt8} {p : Port} (hport : x.port? tag = some p)
    (beat : PacketBeat) (turn : Nat) :
    ({ x with turn, grant := ownerBehind tag beat } : Crossbar).Touches
      (x.sending tag beat turn) tag p { p with sink := p.sink.take } :=
  touches_modifyPort (x := { x with turn, grant := ownerBehind tag beat })
    (f := fun p => { p with sink := p.sink.take }) hport fun _ => rfl

/-- What a tick of the outbound half does. -/
inductive Arbitrates (x : Crossbar) (ready : Bool) (t : Transfer Crossbar PacketBeat) : Prop where
  /-- The port that holds the grant, or comes next, sends its oldest beat. -/
  | sends (tag : UInt8) (p : Port) (beat : PacketBeat) (turn : Nat) :
      x.grant = none ∨ x.grant = some tag → x.port? tag = some p → p.sink.peek = some beat →
      t.sent = some beat → t.next = x.sending tag beat turn → Arbitrates x ready t
  /-- The port that comes next is granted the stream and has to wait for room. -/
  | grants (tag : UInt8) (p : Port) (turn : Nat) : x.grant = none → x.port? tag = some p →
      p.sink.peek ≠ none → t.sent = none → t.next = { x with grant := some tag, turn } →
      Arbitrates x ready t
  /-- There is no beat to send, or no room for it. -/
  | waits : (x.grant = none → ∀ p ∈ x.ports, p.sink.peek = none) →
      (∀ tag p, x.grant = some tag → x.port? tag = some p → ready = true → p.sink.peek = none) →
      t.sent = none → t.next = x → Arbitrates x ready t

/-- A round looks at every port. -/
theorem exists_mem_rotation {p : Port} (hp : p ∈ x.ports) : ∃ i, (p, i) ∈ x.rotation := by
  obtain ⟨i, hi⟩ := List.mem_iff_getElem?.mp hp
  refine ⟨i, ?_⟩
  rw [rotation_eq_rotate, List.mem_rotate]
  exact List.mk_mem_zipIdx_iff_getElem?.mpr hi

/-- What the port that holds the grant does. -/
theorem sendGranted_of_grant {tag : UInt8} {p : Port} (hgrant : x.grant = some tag)
    (hport : x.port? tag = some p) (ready : Bool) :
    x.sendGranted ready = (match p.sink.peek, ready with
      | some beat, true => { next := x.sending tag beat x.turn, sent := some beat }
      | _, _ => { next := x }) := by
  unfold sendGranted
  simp only [hgrant, hport]
  cases p.sink.peek with
  | none => rfl
  | some beat =>
      cases ready with
      | false => rfl
      | true => cases hlast : beat.last <;> simp [sending, ownerBehind, hlast, modifyPort]

theorem arbitrates_of_grant {tag : UInt8} {p : Port} (hgrant : x.grant = some tag)
    (hport : x.port? tag = some p) (ready : Bool) : x.Arbitrates ready (x.arbitrate ready) := by
  have hsend := sendGranted_of_grant hgrant hport ready
  have harbitrate : x.arbitrate ready = { x.sendGranted ready with counted := {} } := by
    simp only [arbitrate, chooseGrant, hgrant]
  have hheld : x.grant = none → ∀ p ∈ x.ports, p.sink.peek = none := by
    rw [hgrant]
    nofun
  rw [harbitrate, hsend]
  cases hpeek : p.sink.peek with
  | none =>
      refine .waits hheld (fun tag' p' hgrant' hport' _ => ?_) rfl rfl
      obtain rfl : tag = tag' := Option.some.inj (hgrant.symm.trans hgrant')
      rwa [← Option.some.inj (hport.symm.trans hport')]
  | some beat =>
      cases ready with
      | false => exact .waits hheld (fun _ _ _ _ => nofun) rfl rfl
      | true => exact .sends tag p beat x.turn (.inr hgrant) hport hpeek rfl rfl

/-- What the port that comes next does when no port holds the grant. -/
theorem arbitrates_of_round (hnodup : x.tags.Nodup) (hgrant : x.grant = none) (ready : Bool) :
    x.Arbitrates ready (x.arbitrate ready) := by
  cases hfind : x.rotation.find? (·.1.sink.peek.isSome) with
  | none =>
      have harbitrate : x.arbitrate ready = { next := x } := by
        simp only [arbitrate, chooseGrant, hgrant, hfind, sendGranted]
      rw [harbitrate]
      refine .waits (fun _ p hp => ?_) (by rw [hgrant]; nofun) rfl rfl
      obtain ⟨i, hi⟩ := exists_mem_rotation hp
      simpa using List.find?_eq_none.mp hfind _ hi
  | some s =>
      obtain ⟨p, i⟩ := s
      have hport : x.port? p.tag = some p :=
        port?_of_mem hnodup (mem_of_mem_rotation (List.mem_of_find?_eq_some hfind))
      have hpeek := List.find?_some hfind
      obtain ⟨beat, hbeat⟩ : ∃ beat, p.sink.peek = some beat :=
        Option.isSome_iff_exists.mp hpeek
      let y : Crossbar := { x with grant := some p.tag, turn := i + 1 }
      obtain ⟨hnext, hsent⟩ : (x.arbitrate ready).next = (y.sendGranted ready).next ∧
          (x.arbitrate ready).sent = (y.sendGranted ready).sent := by
        simp only [arbitrate, chooseGrant, hgrant, hfind, y, and_self]
      rw [sendGranted_of_grant (x := y) rfl hport ready, hbeat] at hnext hsent
      cases ready with
      | false => exact .grants p.tag p (i + 1) hgrant hport (by simp [hbeat]) hsent hnext
      | true => exact .sends p.tag p beat (i + 1) (.inl hgrant) hport hbeat hsent hnext

theorem arbitrate_arbitrates (hnodup : x.tags.Nodup) (hknown : x.GrantKnown) (ready : Bool) :
    x.Arbitrates ready (x.arbitrate ready) := by
  cases hgrant : x.grant with
  | none => exact arbitrates_of_round hnodup hgrant ready
  | some tag =>
      obtain ⟨p, hport⟩ : ∃ p, x.port? tag = some p := by
        rw [← Option.isSome_iff_exists, isSome_port?]
        exact List.contains_iff_mem.mpr (hknown tag hgrant)
      exact arbitrates_of_grant hgrant hport ready

/-- **A tick of the outbound half sends a beat, grants the stream, or waits for a beat or for room.** -/
theorem arbitrate_load (hnodup : x.tags.Nodup) (hknown : x.GrantKnown) (ready : Bool) :
    let t := x.arbitrate ready
    t.next.outboundLoad + 13 * t.sent.toList.length < x.outboundLoad ∨
      (t.next = x ∧ t.sent = none) ∧ (x.grant = none → ∀ p ∈ x.ports, p.sink.peek = none) ∧
        ∀ tag p, x.grant = some tag → x.port? tag = some p → ready = true →
          p.sink.peek = none := by
  intro t
  obtain ⟨tag, p, beat, turn, hgrant, hport, hpeek, hsent, hnext⟩ |
    ⟨tag, p, turn, hgrant, -, -, hsent, hnext⟩ | ⟨hnone, hgranted, hsent, hnext⟩ :=
    arbitrate_arbitrates hnodup hknown ready
  · refine .inl ?_
    have hpopped : p.sink.contents.length = p.sink.take.contents.length + 1 := by
      simp [p.sink.contents_take, hpeek]
    have hsending := (touches_sending hport beat turn).outboundLoad hnodup hport
    have hgranting : ({ x with turn, grant := ownerBehind tag beat } : Crossbar).outboundLoad ≤
        x.outboundLoad + 1 := by
      have hle : (ownerBehind tag beat).isNone.toNat ≤ 1 := Bool.toNat_le _
      show (ownerBehind tag beat).isNone.toNat + 15 * x.sinkCount ≤
        x.grant.isNone.toNat + 15 * x.sinkCount + 1
      omega
    simp only at hsending
    rw [show t.next = _ from hnext, show t.sent = _ from hsent]
    simp only [Option.toList_some, List.length_singleton]
    omega
  · refine .inl ?_
    rw [show t.next = _ from hnext, show t.sent = _ from hsent]
    show 0 + 15 * x.sinkCount + 13 * 0 < x.grant.isNone.toNat + 15 * x.sinkCount
    rw [hgrant, Option.isNone_none, Bool.toNat_true]
    omega
  · exact .inr ⟨⟨hnext, hsent⟩, hnone, hgranted⟩

/-! ## packets on the outbound half -/

/-- Whether a packet from a destination has been sent in part. -/
def within (x : Crossbar) (tag : UInt8) : Bool :=
  decide (x.grant = some tag)

/-- What a tick of the outbound half does to packets: it follows those of every port, and the grant is
only given back behind the last beat of a packet. -/
structure FollowsPorts (x : Crossbar) (t : Transfer Crossbar PacketBeat) : Prop where
  ports : ∀ tag, unfinished PacketBeat.last (t.next.within tag) (t.next.sinkOf tag) =
    unfinished PacketBeat.last (x.within tag) (x.sinkOf tag)
  free : ∀ begun xs, (x.grant = none → unfinished PacketBeat.last begun xs = false) →
    t.next.grant = none → unfinished PacketBeat.last begun (xs ++ t.sent.toList) = false
  reset : t.next.reset = x.reset

section

variable {tag : UInt8} {p : Port} {turn : Nat}

/-- Behind a beat of its packet, a port is within that packet unless the beat is the last one. -/
theorem within_sending (hport : x.port? tag = some p) (beat : PacketBeat) :
    (x.sending tag beat turn).within tag = !beat.last := by
  rw [within, (touches_sending hport beat turn).grant, ownerBehind]
  cases beat.last <;> simp

/-- The other ports are not within a packet. -/
theorem within_sending_other (hgrant : x.grant = none ∨ x.grant = some tag)
    (hport : x.port? tag = some p) (beat : PacketBeat) {other : UInt8} (hne : other ≠ tag) :
    (x.sending tag beat turn).within other = x.within other := by
  rw [within, (touches_sending hport beat turn).grant, within, ownerBehind]
  obtain hgrant | hgrant := hgrant <;> cases beat.last <;> simp [hgrant, hne.symm]

theorem followsPorts_of_sends {beat : PacketBeat} {t : Transfer Crossbar PacketBeat}
    (hgrant : x.grant = none ∨ x.grant = some tag) (hport : x.port? tag = some p)
    (hpeek : p.sink.peek = some beat) (hsent : t.sent = some beat)
    (hnext : t.next = x.sending tag beat turn) : x.FollowsPorts t where
  ports other := by
    have htouches := touches_sending hport beat turn
    rw [hnext]
    by_cases htag : other = tag
    · have hsink : x.sinkOf tag = beat :: p.sink.take.contents := by
        rw [show x.sinkOf tag = _ from htouches.sink, p.sink.contents_take, hpeek]
        rfl
      rw [htag, hsink, htouches.sink', unfinished_cons, within_sending hport]
    · rw [within_sending_other hgrant hport beat htag,
        show (x.sending tag beat turn).sinkOf other = x.sinkOf other from
          (htouches.others other htag).1]
  free begun xs _ hfree := by
    rw [hnext, (touches_sending hport beat turn).grant, ownerBehind] at hfree
    have hlast : beat.last = true := by simpa using hfree
    simp [hsent, hlast]
  reset := by
    rw [hnext]
    exact x.reset_sending tag beat turn

theorem followsPorts_of_grants {t : Transfer Crossbar PacketBeat} (hgrant : x.grant = none)
    (hport : x.port? tag = some p) (hpeek : p.sink.peek ≠ none)
    (hnext : t.next = { x with grant := some tag, turn }) : x.FollowsPorts t where
  ports other := by
    rw [hnext]
    show unfinished PacketBeat.last _ (x.sinkOf other) = _
    by_cases htag : other = tag
    · -- what stores a beat begins a packet, granted or not
      refine unfinished_of_ne_nil (fun hnil => hpeek ?_) _ _
      have hcontents := p.sink.contents_take
      rw [show p.sink.contents = [] by simpa [htag, sinkOf, hport] using hnil] at hcontents
      exact Option.toList_eq_nil_iff.mp (List.append_eq_nil_iff.mp hcontents.symm).1
    · simp [within, hgrant, Ne.symm htag]
  free begun xs _ hfree := by
    rw [hnext] at hfree
    contradiction
  reset := by
    rw [hnext]
    rfl

end

/-- **The outbound half follows the packets of every port.** -/
theorem arbitrate_followsPorts (hnodup : x.tags.Nodup) (hknown : x.GrantKnown) (ready : Bool) :
    x.FollowsPorts (x.arbitrate ready) := by
  obtain ⟨tag, p, beat, turn, hgrant, hport, hpeek, hsent, hnext⟩ |
    ⟨tag, p, turn, hgrant, hport, hpeek, -, hnext⟩ | ⟨-, -, hsent, hnext⟩ :=
    arbitrate_arbitrates hnodup hknown ready
  · exact followsPorts_of_sends hgrant hport hpeek hsent hnext
  · exact followsPorts_of_grants hgrant hport hpeek hnext
  · refine ⟨fun _ => by rw [hnext], fun begun xs h hfree => ?_, by rw [hnext]⟩
    rw [hnext] at hfree
    simpa [hsent] using h hfree

/-! ## what users do to packets -/

section

variable {x' : Crossbar} {tag : UInt8} {p p' : Port}

/-- A user that follows the packets of its source. -/
theorem Touches.continues (h : x.Touches x' tag p p') {begun begun' : Bool}
    (hsource : unfinished PacketBeat.last begun' p'.source.contents =
      unfinished PacketBeat.last begun p.source.contents)
    (hcontinues : x.Continues tag begun) : x'.Continues tag begun' := by
  rw [Continues, h.route, h.source', hsource, ← h.source]
  exact hcontinues

theorem Touches.continues_other (h : x.Touches x' tag p p') {other : UInt8} (hne : other ≠ tag)
    {begun : Bool} (hcontinues : x.Continues other begun) : x'.Continues other begun := by
  rw [Continues, h.route, (h.others other hne).2]
  exact hcontinues

theorem Touches.within (h : x.Touches x' tag p p') (other : UInt8) :
    x'.within other = x.within other := by
  rw [Crossbar.within, h.grant, Crossbar.within]

theorem Touches.unfinished_other (h : x.Touches x' tag p p') {other : UInt8} (hne : other ≠ tag) :
    unfinished PacketBeat.last (x'.within other) (x'.sinkOf other) =
      unfinished PacketBeat.last (x.within other) (x.sinkOf other) := by
  rw [h.within, (h.others other hne).1]

end

/-! ## both halves -/

/-- What keeps a crossbar waiting. -/
structure Waits (x : Crossbar) (input : Option PacketBeat) (ready : Bool) : Prop where
  inbound : ∀ beat, input = some beat → ∃ tag, x.route = some (.port tag) ∧
    ∀ p, x.port? tag = some p → p.source.ready = false
  ungranted : x.grant = none → ∀ p ∈ x.ports, p.sink.peek = none
  granted : ∀ tag p, x.grant = some tag → x.port? tag = some p → ready = true → p.sink.peek = none

/-- **A tick of the crossbar works off the load of either half, or waits.** -/
theorem tick_load (hnodup : x.tags.Nodup) (hknown : x.GrantKnown) (input : Option PacketBeat)
    (ready : Bool) :
    let t := x.tick input ready
    t.next.inboundLoad < x.inboundLoad + 3 * (t.removed input).length ∨
      (t.next.inboundLoad = x.inboundLoad ∧ t.taken = false) ∧
        t.next.outboundLoad + 13 * t.sent.toList.length < x.outboundLoad ∨
      t.Rests x ∧ x.Waits input ready := by
  intro t
  let outbound := x.arbitrate ready
  let inbound := outbound.next.dispatch input
  have hserves : x.Serves ready outbound (x.serving ready) := arbitrate_serves hknown ready
  have hroutes : outbound.next.Routes input inbound := dispatch_routes outbound.next input
  have hinbound : outbound.next.inboundLoad = x.inboundLoad := by
    simp only [inboundLoad, sourceCount, hserves.route, hserves.tags, funext hserves.sourceOf]
  have houtbound : inbound.next.outboundLoad = outbound.next.outboundLoad := by
    simp only [outboundLoad, sinkCount, hroutes.grant, hroutes.tags, funext hroutes.sinkOf]
  have hdispatch := dispatch_load (x := outbound.next) (hserves.tags.symm ▸ hnodup) input
  obtain hlighter | ⟨⟨hsame, htaken⟩, hwaits⟩ := hdispatch
  · exact .inl (hinbound ▸ hlighter)
  · refine .inr ?_
    have hnext : t.next = outbound.next := hsame
    obtain hlighter | ⟨⟨hsame', hsent⟩, hungranted, hgranted⟩ := arbitrate_load hnodup hknown ready
    · exact .inl ⟨⟨by rw [hnext, hinbound], htaken⟩, by rw [hnext]; exact hlighter⟩
    · have hsame' : outbound.next = x := hsame'
      rw [hsame'] at hwaits
      exact .inr ⟨⟨hnext.trans hsame', htaken, hsent⟩, hwaits, hungranted, hgranted⟩

/-- **The crossbar keeps packets whole in both directions.** -/
theorem tick_whole (hnodup : x.tags.Nodup) (hknown : x.GrantKnown) (input : Option PacketBeat)
    (ready : Bool) :
    x.FollowsStream input (x.tick input ready) ∧ x.FollowsPorts (x.tick input ready) := by
  let outbound := x.arbitrate ready
  let inbound := outbound.next.dispatch input
  have hserves : x.Serves ready outbound (x.serving ready) := arbitrate_serves hknown ready
  have hroutes : outbound.next.Routes input inbound := dispatch_routes outbound.next input
  obtain ⟨hroute, hcontinues, hrouteKnown, hreset⟩ := outbound.next.dispatch_followsStream input
  obtain ⟨hwithin, hfree, hreset'⟩ := arbitrate_followsPorts hnodup hknown ready
  constructor
  · refine ⟨fun xs => ?_, fun tag begun h => hcontinues tag begun ?_, fun h => hrouteKnown ?_,
      hreset.trans hreset'⟩
    · rw [← hserves.route]
      exact hroute xs
    · rwa [Continues, hserves.route, hserves.sourceOf]
    · rwa [RouteKnown, hserves.route, hserves.tags]
  · refine ⟨fun tag => ?_, fun begun xs h hgrant => hfree begun xs h ?_, hreset.trans hreset'⟩
    · rw [← hwithin tag]
      show unfinished _ (inbound.next.within tag) (inbound.next.sinkOf tag) = _
      rw [hroutes.sinkOf, within, hroutes.grant, within]
    · rw [← hroutes.grant]
      exact hgrant

end Crossbar

end LinkBridge
