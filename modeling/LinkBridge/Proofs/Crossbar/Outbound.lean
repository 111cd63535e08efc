import LinkBridge.Proofs.Crossbar.Inbound
import LinkBridge.Proofs.Losses
import Mathlib.Data.List.Rotate

/-!
# LinkBridge.Proofs.Crossbar.Outbound

The outbound half of the crossbar. Which port is served next depends on timing, so what is sent is
known up to a merge only: every beat is recorded with the port it comes from, and the record is
*served* when no port cuts into the packet of another (`Served`). A served record of whole packets
from two ports is an interleaving of the two packet sequences (`exists_interleaves`).
-/

namespace LinkBridge

/-- A merge of two lists that keeps the order of both. -/
inductive Interleaves {α : Type} : List α → List α → List α → Prop where
  | nil : Interleaves [] [] []
  /-- The next item is from the first list. -/
  | left {a : α} {as bs cs : List α} : Interleaves as bs cs → Interleaves (a :: as) bs (a :: cs)
  /-- The next item is from the second list. -/
  | right {b : α} {as bs cs : List α} : Interleaves as bs cs → Interleaves as (b :: bs) (b :: cs)

namespace Interleaves

variable {α : Type} {as bs cs : List α}

/-- A merge loses nothing. -/
theorem length_eq (h : Interleaves as bs cs) : cs.length = as.length + bs.length := by
  induction h with
  | nil => rfl
  | left _ ih => simp only [List.length_cons, ih]; omega
  | right _ ih => simp only [List.length_cons, ih]; omega

/-- A merge adds nothing. -/
theorem mem_or_mem (h : Interleaves as bs cs) {c : α} (hc : c ∈ cs) : c ∈ as ∨ c ∈ bs := by
  induction h with
  | nil => contradiction
  | left _ ih =>
      rcases List.mem_cons.mp hc with rfl | hc
      · exact .inl List.mem_cons_self
      · exact (ih hc).imp_left (List.mem_cons_of_mem _)
  | right _ ih =>
      rcases List.mem_cons.mp hc with rfl | hc
      · exact .inr List.mem_cons_self
      · exact (ih hc).imp_right (List.mem_cons_of_mem _)

/-- What is selected from a merge is a merge of what is selected. -/
theorem filter (h : Interleaves as bs cs) (p : α → Bool) :
    Interleaves (as.filter p) (bs.filter p) (cs.filter p) := by
  induction h with
  | nil => exact .nil
  | @left a _ _ _ _ ih =>
      rw [List.filter_cons, List.filter_cons]
      split
      · exact .left ih
      · exact ih
  | @right b _ _ _ _ ih =>
      rw [List.filter_cons, List.filter_cons]
      split
      · exact .right ih
      · exact ih

/-- With one of two lists empty there is only one way to merge them. -/
theorem eq_append (h : Interleaves as bs cs) (hnil : as = [] ∨ bs = []) : cs = as ++ bs := by
  induction h with
  | nil => rfl
  | left _ ih =>
      rcases hnil with hnil | hnil
      · contradiction
      · exact congrArg (_ :: ·) (ih (.inr hnil))
  | right _ ih =>
      rcases hnil with hnil | hnil
      · subst hnil
        exact congrArg (_ :: ·) (ih (.inl rfl))
      · contradiction

end Interleaves

namespace Crossbar

/-! ## served records -/

/-- The beats of a record that come from a port. -/
def sentBy (tag : UInt8) (sent : List (UInt8 × PacketBeat)) : List PacketBeat :=
  (sent.filter fun s => s.1 == tag).map (·.2)

@[simp] theorem sentBy_append (tag : UInt8) (sent more : List (UInt8 × PacketBeat)) :
    sentBy tag (sent ++ more) = sentBy tag sent ++ sentBy tag more := by
  simp [sentBy]

theorem sentBy_cons_self (tag : UInt8) (beat : PacketBeat) (sent : List (UInt8 × PacketBeat)) :
    sentBy tag ((tag, beat) :: sent) = beat :: sentBy tag sent := by
  simp [sentBy]

theorem sentBy_cons_of_ne {tag other : UInt8} (h : other ≠ tag) (beat : PacketBeat)
    (sent : List (UInt8 × PacketBeat)) : sentBy tag ((other, beat) :: sent) = sentBy tag sent := by
  simp [sentBy, h]

/-- What comes from one of two ports comes from the one or the other. -/
theorem countP_sentBy {a b : UInt8} (hab : a ≠ b) (p : PacketBeat → Bool)
    {sent : List (UInt8 × PacketBeat)} (h : ∀ s ∈ sent, s.1 = a ∨ s.1 = b) :
    (sent.map (·.2)).countP p = (sentBy a sent).countP p + (sentBy b sent).countP p := by
  induction sent with
  | nil => rfl
  | cons s sent ih =>
      obtain ⟨hs, hsent⟩ := List.forall_mem_cons.mp h
      obtain ⟨tag, beat⟩ := s
      rw [List.map_cons, List.countP_cons, ih hsent]
      rcases hs with htag | htag
      · obtain rfl : tag = a := htag
        rw [sentBy_cons_self, sentBy_cons_of_ne hab, List.countP_cons]
        exact Nat.add_right_comm ..
      · obtain rfl : tag = b := htag
        rw [sentBy_cons_self, sentBy_cons_of_ne hab.symm, List.countP_cons]
        exact Nat.add_assoc ..

/-- Who owns the outbound stream behind a beat from a port. -/
def ownerBehind (tag : UInt8) (beat : PacketBeat) : Option UInt8 :=
  if beat.last then none else some tag

/-- A record in which a port, once it has begun a packet, is the only one to send until the packet
ends. -/
inductive Served : Option UInt8 → List (UInt8 × PacketBeat) → Option UInt8 → Prop where
  | nil (owner : Option UInt8) : Served owner [] owner
  | cons {owner last : Option UInt8} {tag : UInt8} {beat : PacketBeat}
      {sent : List (UInt8 × PacketBeat)} : owner = none ∨ owner = some tag →
      Served (ownerBehind tag beat) sent last → Served owner ((tag, beat) :: sent) last

/-- One more beat. -/
theorem Served.concat {owner last : Option UInt8} {sent : List (UInt8 × PacketBeat)}
    (h : Served owner sent last) {tag : UInt8} (hlast : last = none ∨ last = some tag)
    (beat : PacketBeat) : Served owner (sent ++ [(tag, beat)]) (ownerBehind tag beat) := by
  induction h with
  | nil owner => exact .cons hlast (.nil _)
  | cons howner _ ih => exact .cons howner (ih hlast)

/-- A port that is served is served until its packet ends. -/
theorem Served.packet {tag dst : UInt8} {length : Word} {ws : List Word} (hne : ws ≠ [])
    {owner : Option UInt8} {sent : List (UInt8 × PacketBeat)} (h : Served owner sent none)
    (hfirst : owner = some tag ∨ ∃ beat more, sent = (tag, beat) :: more) {later : List PacketBeat}
    (hsent : sentBy tag sent = Packet.beatsOf dst length ws ++ later) :
    ∃ front more, sent = front ++ more ∧ front.map (·.2) = Packet.beatsOf dst length ws ∧
      Served none more none ∧ sentBy tag more = later ∧
      ∀ other, other ≠ tag → sentBy other more = sentBy other sent := by
  induction ws generalizing owner sent with
  | nil => exact absurd rfl hne
  | cons w ws ih =>
      cases h with
      | nil owner => rcases hfirst with hfirst | ⟨beat, more, hfirst⟩ <;> contradiction
      | @cons _ _ tag' beat more howner hmore =>
          have htag : tag' = tag := by
            rcases hfirst with hfirst | ⟨beat', more', hfirst⟩
            · rcases howner with hnone | hsome
              · rw [hnone] at hfirst
                contradiction
              · rw [hsome] at hfirst
                exact Option.some.inj hfirst
            · exact congrArg Prod.fst (List.cons.inj hfirst).1
          subst htag
          rw [sentBy_cons_self, Packet.beatsOf, List.cons_append] at hsent
          obtain ⟨hbeat, hlater⟩ := List.cons.inj hsent
          have hlast : beat.last = ws.isEmpty := by rw [hbeat]
          rw [ownerBehind, hlast] at hmore
          cases ws with
          | nil =>
              refine ⟨[(tag', beat)], more, rfl, ?_, hmore, hlater, fun other hother => ?_⟩
              · rw [hbeat]
                rfl
              · exact (sentBy_cons_of_ne hother.symm ..).symm
          | cons x ws =>
              obtain ⟨front, rest, hsplit, hmap, hserved, hrest, hothers⟩ :=
                ih (List.cons_ne_nil x ws) hmore (.inl rfl) hlater
              refine ⟨(tag', beat) :: front, rest, ?_, ?_, hserved, hrest, fun other hother => ?_⟩
              · rw [hsplit, List.cons_append]
              · rw [List.map_cons, hmap, hbeat]
                rfl
              · rw [hothers other hother, sentBy_cons_of_ne hother.symm]

/-- Packets have beats. -/
theorem beats_ne_nil (p : Packet) : p.beats ≠ [] := by
  intro h
  have hwords := congrArg List.length h
  rw [Packet.length_beats, List.length_nil, List.length_eq_zero_iff] at hwords
  exact p.words_ne_nil hwords

/-- The port of the first beat has sent a whole packet before any other is served. -/
theorem Served.front {tag : UInt8} {beat : PacketBeat} {rest : List (UInt8 × PacketBeat)}
    (h : Served none ((tag, beat) :: rest) none) {ps : List Packet}
    (hsent : sentBy tag ((tag, beat) :: rest) = ps.flatMap Packet.beats) :
    ∃ p ps' more, ps = p :: ps' ∧ more.length < ((tag, beat) :: rest).length ∧
      (∀ s ∈ more, s ∈ (tag, beat) :: rest) ∧
      ((tag, beat) :: rest).map (·.2) = p.beats ++ more.map (·.2) ∧ Served none more none ∧
      sentBy tag more = ps'.flatMap Packet.beats ∧
      ∀ other, other ≠ tag → sentBy other more = sentBy other ((tag, beat) :: rest) := by
  cases ps with
  | nil =>
      rw [sentBy_cons_self] at hsent
      contradiction
  | cons p ps =>
      rw [List.flatMap_cons, Packet.beats] at hsent
      obtain ⟨front, more, hsplit, hmap, hserved, hmore, hothers⟩ :=
        h.packet p.words_ne_nil (.inr ⟨beat, rest, rfl⟩) hsent
      have hne : front ≠ [] := by
        rintro rfl
        exact beats_ne_nil p hmap.symm
      refine ⟨p, ps, more, rfl, ?_, fun s hs => ?_, ?_, hserved, hmore, hothers⟩
      · have hpos := List.length_pos_iff.mpr hne
        rw [hsplit, List.length_append]
        omega
      · rw [hsplit]
        exact List.mem_append_right front hs
      · rw [hsplit, List.map_append, hmap, Packet.beats]

/-- **Whole packets from two ports are sent as an interleaving.** -/
theorem exists_interleaves {a b : UInt8} (hab : a ≠ b) {sent : List (UInt8 × PacketBeat)}
    (h : Served none sent none) (htags : ∀ s ∈ sent, s.1 = a ∨ s.1 = b) {as bs : List Packet}
    (has : sentBy a sent = as.flatMap Packet.beats)
    (hbs : sentBy b sent = bs.flatMap Packet.beats) :
    ∃ ps, Interleaves as bs ps ∧ sent.map (·.2) = ps.flatMap Packet.beats := by
  -- the packet sent first is taken off its list; what is left is shorter
  induction hn : sent.length using Nat.strongRecOn generalizing sent as bs with
  | ind n ih =>
      cases sent with
      | nil =>
          have hnil {qs : List Packet} (hqs : [] = qs.flatMap Packet.beats) : qs = [] := by
            cases qs with
            | nil => rfl
            | cons q qs =>
                exact absurd (List.append_eq_nil_iff.mp hqs.symm).1 (beats_ne_nil q)
          rw [hnil has, hnil hbs]
          exact ⟨[], .nil, rfl⟩
      | cons s rest =>
          obtain ⟨tag, beat⟩ := s
          rcases htags _ List.mem_cons_self with htag | htag
          · have htag : tag = a := htag
            subst htag
            obtain ⟨p, as, more, rfl, hshorter, hmem, hbeats, hserved, hmore, hothers⟩ :=
              h.front has
            obtain ⟨ps, hps, hsent⟩ := ih more.length (hn ▸ hshorter) hserved
              (fun s hs => htags s (hmem s hs)) hmore ((hothers b hab.symm).trans hbs) rfl
            refine ⟨p :: ps, hps.left, ?_⟩
            rw [hbeats, hsent, List.flatMap_cons]
          · have htag : tag = b := htag
            subst htag
            obtain ⟨p, bs, more, rfl, hshorter, hmem, hbeats, hserved, hmore, hothers⟩ :=
              h.front hbs
            obtain ⟨ps, hps, hsent⟩ := ih more.length (hn ▸ hshorter) hserved
              (fun s hs => htags s (hmem s hs)) ((hothers a hab).trans has) hmore rfl
            refine ⟨p :: ps, hps.right, ?_⟩
            rw [hbeats, hsent, List.flatMap_cons]

/-! ## the outbound half -/

/-- Whether the owner of the outbound stream, if there is one, holds the grant. -/
def Owned (x : Crossbar) (owner : Option UInt8) : Prop :=
  owner = none ∨ owner = x.grant

/-- Whether the grant is held by a registered destination. -/
def GrantKnown (x : Crossbar) : Prop :=
  ∀ tag, x.grant = some tag → tag ∈ x.tags

/-- The beat that a tick of the outbound half sends, with the port it comes from. -/
def serving (x : Crossbar) (ready : Bool) : List (UInt8 × PacketBeat) :=
  x.chooseGrant.1.grant.toList.zip (x.arbitrate ready).sent.toList

/-- What a tick of the outbound half does: `sent` is the beat sent, with its port. -/
structure Serves (x : Crossbar) (ready : Bool) (t : Transfer Crossbar PacketBeat)
    (sent : List (UInt8 × PacketBeat)) : Prop where
  tags : t.next.tags = x.tags
  route : t.next.route = x.route
  sourceOf (tag : UInt8) : t.next.sourceOf tag = x.sourceOf tag
  sinkOf (tag : UInt8) : x.sinkOf tag = sentBy tag sent ++ t.next.sinkOf tag
  beats : sent.map (·.2) = t.sent.toList
  ready : t.sent.isSome = true → ready = true
  members : ∀ s ∈ sent, s.1 ∈ x.tags
  known : t.next.GrantKnown
  served {owner : Option UInt8} {record : List (UInt8 × PacketBeat)} : Served none record owner →
    x.Owned owner → ∃ owner', Served none (record ++ sent) owner' ∧ t.next.Owned owner'
  routed : t.counted.packetsRouted = 0
  unrouted : t.counted.packetsUnrouted = 0

section

variable {x : Crossbar}

/-- A tick that sends nothing. -/
theorem serves_refl (hknown : x.GrantKnown) (ready : Bool) : x.Serves ready { next := x } [] where
  tags := rfl
  route := rfl
  sourceOf _ := rfl
  sinkOf _ := rfl
  beats := rfl
  ready := nofun
  members := nofun
  known := hknown
  served hserved howned := ⟨_, by rwa [List.append_nil], howned⟩
  routed := rfl
  unrouted := rfl

/-- A round goes through the ports once, from the turn on. -/
theorem rotation_eq_rotate (x : Crossbar) : x.rotation = x.ports.zipIdx.rotate x.turn := by
  rw [rotation, List.rotate_eq_drop_append_take_mod]
  generalize x.ports.zipIdx = ports
  rcases ports with _ | ⟨p, _ | ⟨q, rest⟩⟩
  · simp [List.rotateLeft]
  · simp [List.rotateLeft, Nat.mod_one]
  · rfl

/-- A round looks at registered ports. -/
theorem mem_of_mem_rotation {s : Port × Nat} (h : s ∈ x.rotation) : s.1 ∈ x.ports := by
  rw [rotation_eq_rotate, List.mem_rotate] at h
  exact List.mem_of_getElem? (List.mk_mem_zipIdx_iff_getElem?.mp h)

/-- Choosing a port changes no more than the grant, which is kept as long as it is held, and the
turn. -/
theorem chooseGrant_spec (hknown : x.GrantKnown) :
    ∃ grant turn, x.chooseGrant.1 = { x with grant, turn } ∧
      (x.grant = none ∨ grant = x.grant) ∧ x.chooseGrant.1.GrantKnown ∧
      x.chooseGrant.2.packetsRouted = 0 ∧ x.chooseGrant.2.packetsUnrouted = 0 := by
  unfold chooseGrant
  cases hgrant : x.grant with
  | some tag => exact ⟨x.grant, x.turn, rfl, .inr hgrant, hknown, rfl, rfl⟩
  | none =>
      cases hfind : x.rotation.find? (·.1.sink.peek.isSome) with
      | none => exact ⟨x.grant, x.turn, rfl, .inl rfl, hknown, rfl, rfl⟩
      | some s =>
          obtain ⟨p, i⟩ := s
          refine ⟨some p.tag, i + 1, rfl, .inl rfl, fun tag htag => ?_, rfl, rfl⟩
          obtain rfl : p.tag = tag := Option.some.inj htag
          exact List.mem_map.mpr ⟨p, mem_of_mem_rotation (List.mem_of_find?_eq_some hfind), rfl⟩

/-- The port that holds the grant sends its oldest beat. -/
theorem serves_beat {tag : UInt8} {p : Port} {beat : PacketBeat} (hgrant : x.grant = some tag)
    (hport : x.port? tag = some p) (hpeek : p.sink.peek = some beat) :
    x.Serves true
      { next := { x.modifyPort tag fun p => { p with sink := p.sink.take } with
          grant := ownerBehind tag beat }
        sent := some beat } [(tag, beat)] := by
  let popped := x.modifyPort tag fun p => { p with sink := p.sink.take }
  have hx : x.Touches popped tag p { p with sink := p.sink.take } :=
    touches_modifyPort hport fun _ => rfl
  have htag : tag ∈ x.tags := by
    have hcontains := x.isSome_port? tag
    rw [hport] at hcontains
    exact List.contains_iff_mem.mp hcontains.symm
  have hcontents : p.sink.contents = beat :: p.sink.take.contents := by
    rw [Channel.contents_take, hpeek]
    rfl
  refine ⟨hx.tags, hx.route, hx.sourceOf_eq rfl, fun tag' => ?_, rfl, fun _ => rfl, ?_, ?_, ?_, rfl,
    rfl⟩
  · show x.sinkOf tag' = sentBy tag' [(tag, beat)] ++ popped.sinkOf tag'
    by_cases heq : tag' = tag
    · rw [heq, sentBy_cons_self, hx.sink, hx.sink', hcontents]
      rfl
    · rw [sentBy_cons_of_ne (Ne.symm heq), (hx.others tag' heq).1]
      rfl
  · intro s hs
    rw [List.mem_singleton.mp hs]
    exact htag
  · intro tag' hgrant'
    have howner : ownerBehind tag beat = some tag' := hgrant'
    unfold ownerBehind at howner
    split at howner
    · contradiction
    · obtain rfl := Option.some.inj howner
      exact hx.tags ▸ htag
  · intro owner record hserved howned
    rw [Owned, hgrant] at howned
    exact ⟨_, hserved.concat howned beat, .inr rfl⟩

/-- If there is room, the port that holds the grant sends what it has. -/
theorem sendGranted_serves (hknown : x.GrantKnown) (ready : Bool) :
    x.Serves ready (x.sendGranted ready)
      (x.grant.toList.zip (x.sendGranted ready).sent.toList) := by
  unfold sendGranted
  cases hgrant : x.grant with
  | none => exact serves_refl hknown ready
  | some tag =>
      cases hport : x.port? tag with
      | none =>
          have hcontains := x.isSome_port? tag
          rw [hport, List.contains_iff_mem.mpr (hknown tag hgrant)] at hcontains
          contradiction
      | some p =>
          cases hpeek : p.sink.peek with
          | none =>
              simp only [hport, hpeek]
              exact serves_refl hknown ready
          | some beat =>
              simp only [hport, hpeek]
              cases ready with
              | false => exact serves_refl hknown false
              | true => exact serves_beat hgrant hport hpeek

/-- **A tick serves one port.** -/
theorem arbitrate_serves (hknown : x.GrantKnown) (ready : Bool) :
    x.Serves ready (x.arbitrate ready) (x.serving ready) := by
  obtain ⟨grant, turn, hchoose, hkept, hknown', hrouted, hunrouted⟩ := chooseGrant_spec hknown
  have h := sendGranted_serves hknown' ready
  have harbitrate : x.arbitrate ready =
      { x.chooseGrant.1.sendGranted ready with counted := x.chooseGrant.2 } := rfl
  rw [serving, harbitrate]
  rw [hchoose] at h ⊢
  refine ⟨h.tags, h.route, h.sourceOf, h.sinkOf, h.beats, h.ready, h.members, h.known,
    fun hserved howned => h.served hserved ?_, hrouted, hunrouted⟩
  rcases howned with hnone | howner
  · exact .inl hnone
  · rcases hkept with hfree | hheld
    · exact .inl (howner.trans hfree)
    · exact .inr (howner.trans hheld.symm)

/-- Of all losses the crossbar reports packets without a port only. -/
theorem framing_tick (x : Crossbar) (input : Option PacketBeat) (ready : Bool) :
    (x.tick input ready).counted.losses.framing = {} ∧
      (x.tick input ready).counted.tlpOverflows = 0 := by
  have harbitrate : (x.arbitrate ready).counted.losses.framing = {} ∧
      (x.arbitrate ready).counted.tlpOverflows = 0 := by
    unfold arbitrate chooseGrant
    simp only
    repeat' split
    all_goals exact ⟨rfl, rfl⟩
  have hdispatch (x : Crossbar) : (x.dispatch input).counted.losses.framing = {} ∧
      (x.dispatch input).counted.tlpOverflows = 0 := by
    unfold dispatch chooseRoute
    simp only
    repeat' split
    all_goals exact ⟨rfl, rfl⟩
  obtain ⟨hlosses, hoverflows⟩ := hdispatch (x.arbitrate ready).next
  refine ⟨Counters.framing_add harbitrate.1 hlosses, ?_⟩
  show (x.arbitrate ready).counted.tlpOverflows + _ = 0
  rw [harbitrate.2, hoverflows]

end

end Crossbar

end LinkBridge
