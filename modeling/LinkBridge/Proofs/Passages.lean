import LinkBridge.Etherbone.Responder
import LinkBridge.Framing.Deframer
import LinkBridge.Framing.Framer
import LinkBridge.Proofs.Link.Bus
import LinkBridge.Proofs.Progress.Crossbar
import LinkBridge.Proofs.Tlp.Endpoint
import LinkBridge.Tlp.Deserializer
import LinkBridge.Tlp.Serializer

/-!
# LinkBridge.Proofs.Passages

The counters that tell what has passed. Each of them belongs to one component, and all others leave
it alone. Most components count a packet on the tick on which its last beat passes; the crossbar
counts it with its first beat, so between the two a packet is in progress there
(`Crossbar.tick_passages`).
-/

namespace LinkBridge

namespace Counters

/-- What has passed. -/
@[ext]
structure Passages where
  /-- Packets the deframer passed on. -/
  deframed : Nat := 0
  /-- Packets that were given a route, to a port or to none. -/
  routed : Nat := 0
  /-- Packets that ports were granted. -/
  granted : Nat := 0
  /-- Packets the framer passed on. -/
  framed : Nat := 0
  /-- TLPs the serializer sent. -/
  tlpsSent : Nat := 0
  /-- TLPs the deserializer passed on. -/
  tlpsReceived : Nat := 0
  /-- TLPs the endpoint could not read. -/
  tlpsMalformed : Nat := 0
  /-- Interrupts the bus raised. -/
  interrupts : Nat := 0
  /-- Words read from the host. -/
  wordsIn : Nat := 0
  /-- Words written to the host. -/
  wordsOut : Nat := 0

/-- What a report says about passages. -/
def passages (c : Counters) : Passages where
  deframed := c.packetsDeframed
  routed := c.packetsRouted + c.packetsUnrouted
  granted := c.packetsArbitrated
  framed := c.packetsFramed
  tlpsSent := c.tlpPacketsSent
  tlpsReceived := c.tlpPacketsReceived
  tlpsMalformed := c.tlpMalformed
  interrupts := c.msiSent
  wordsIn := c.linkWordsIn
  wordsOut := c.linkWordsOut

instance : Add Passages where
  add a b :=
    { deframed := a.deframed + b.deframed
      routed := a.routed + b.routed
      granted := a.granted + b.granted
      framed := a.framed + b.framed
      tlpsSent := a.tlpsSent + b.tlpsSent
      tlpsReceived := a.tlpsReceived + b.tlpsReceived
      tlpsMalformed := a.tlpsMalformed + b.tlpsMalformed
      interrupts := a.interrupts + b.interrupts
      wordsIn := a.wordsIn + b.wordsIn
      wordsOut := a.wordsOut + b.wordsOut }

theorem passages_add (a b : Counters) : (a + b).passages = a.passages + b.passages := by
  have hrouted : (a + b).passages.routed = a.passages.routed + b.passages.routed :=
    Nat.add_add_add_comm ..
  exact congrArg (fun n => { (a.passages + b.passages) with routed := n }) hrouted

/-- Reports of which one says nothing about passages. -/
theorem passages_add_left {a b : Counters} {p : Passages} (ha : a.passages = {})
    (hb : b.passages = p) : (a + b).passages = p := by
  rw [passages_add, ha, hb]
  show Passages.mk .. = p
  simp only [Nat.zero_add]

theorem passages_add_right {a b : Counters} {p : Passages} (ha : a.passages = p)
    (hb : b.passages = {}) : (a + b).passages = p := by
  rw [passages_add, ha, hb]
  rfl

end Counters

/-! ## the way in -/

/-- The deframer counts the packets that end. -/
theorem Deframer.tick_passages (d : Deframer) (input : Option Word) (ready : Bool) :
    (d.tick input ready).counted.passages =
      { deframed := (d.tick input ready).sent.toList.countP (·.last) } := by
  have hwait (d : Deframer) (idle : Nat) (stay : Nat → Phase) :
      (d.wait idle stay).counted.passages =
        { deframed := (d.wait idle stay).sent.toList.countP (·.last) } := by
    unfold wait
    repeat' split
    all_goals rfl
  have hannounce (d : Deframer) (dst length : Word) :
      (d.announce dst length).counted.passages =
        { deframed := (d.announce dst length).sent.toList.countP (·.last) } := by
    unfold announce
    simp only
    split <;> rfl
  obtain ⟨timeout, limit, phase⟩ := d
  cases phase with
  | deliver dst length rest =>
      cases rest with
      | nil => rfl
      | cons w rest => cases ready <;> cases rest <;> rfl
  | hunt =>
      cases input with
      | none => rfl
      | some w =>
          simp only [tick]
          split <;> rfl
  | header dst idle =>
      cases input with
      | none => cases dst <;> exact hwait ..
      | some w =>
          cases dst with
          | none => rfl
          | some dst => exact hannounce ..
  | collect dst length payload idle =>
      cases input with
      | none => exact hwait ..
      | some w =>
          simp only [tick]
          split <;> rfl
  | discard left idle =>
      cases input with
      | none => exact hwait ..
      | some w =>
          simp only [tick]
          split <;> rfl

/-- The deserializer counts the TLPs that end. -/
theorem Tlp.Deserializer.tick_passages (d : Deserializer) (input : Option PacketBeat)
    (ready : Bool) : (d.tick input ready).counted.passages =
      { tlpsReceived := (d.tick input ready).sent.toList.countP (·.last) } := by
  unfold tick
  cases input with
  | none => rfl
  | some word =>
      cases hbeat : d.beat? word with
      | none => simp only [hbeat]; rfl
      | some beat =>
          cases ready with
          | false => simp only [hbeat]; rfl
          | true =>
              simp only [hbeat, if_true]
              cases hlast : beat.last <;> simp [Counters.passages, hlast]

/-- The endpoint counts the TLPs it cannot read. -/
theorem Tlp.Endpoint.tick_passages (e : Endpoint) (input : Option Beat) (vector : Option UInt8)
    (ready : Bool) : (e.tick input vector ready).counted.passages =
      { tlpsMalformed := malformed (e.arriving input) } := by
  cases input with
  | none => rfl
  | some beat =>
      show (accept _ beat).2.passages = _
      unfold accept arriving
      by_cases hlast : beat.last = true
      · simp only [if_pos hlast]
        cases hread : Record.ofBeats (e.inbound.push beat).toList <;> rfl
      · simp only [if_neg hlast]
        rfl

/-- The responder counts nothing that passes. -/
theorem Etherbone.passages_performAll (bus : Wishbone.Bus) (rs : List Record) :
    (performAll bus rs).counted.passages = {} := by
  have hrecord (bus : Wishbone.Bus) (r : Record) :
      (performRecord bus r).counted.passages = {} := by
    refine Counters.passages_add_left ?_ ?_
    · unfold performWrites
      split <;> rfl
    · unfold performReads
      split <;> rfl
  induction rs generalizing bus with
  | nil => rfl
  | cons r rest ih => exact Counters.passages_add_left (hrecord bus r) (ih _)

theorem Etherbone.Responder.tick_passages (r : Responder) (bus : Wishbone.Bus)
    (input : Option PacketBeat) (ready : Bool) :
    (r.tick bus input ready).counted.passages = {} := by
  have hperform (r : Responder) (words : List Word) :
      (r.perform bus words).counted.passages = {} := by
    unfold perform
    split
    · rfl
    · simp only
      split <;> exact passages_performAll bus _
  unfold tick
  repeat' split
  all_goals first | rfl | exact hperform _ _

/-! ## the way out -/

/-- The framer counts the packets that end. -/
theorem Framer.tick_passages (f : Framer) (input : Option PacketBeat) (ready : Bool) :
    (f.tick input ready).counted.passages =
      { framed := ((f.tick input ready).removed input).countP (·.last) } := by
  obtain ⟨phase⟩ := f
  cases phase with
  | idle => cases input <;> rfl
  | header word rest => cases ready <;> cases input <;> rfl
  | payload =>
      cases input with
      | none => cases ready <;> rfl
      | some beat =>
          cases ready with
          | false => rfl
          | true =>
              unfold tick
              cases hlast : beat.last <;> simp [Counters.passages, Transfer.removed, hlast]

/-- The serializer counts the packets that end. -/
theorem Tlp.Serializer.tick_passages (s : Serializer) (input : Option Beat) (ready : Bool) :
    (s.tick input ready).counted.passages =
      { tlpsSent := (s.tick input ready).sent.toList.countP (·.last) } := by
  have hsend : (s.send ready).counted.passages =
      { tlpsSent := (s.send ready).sent.toList.countP (·.last) } := by
    simp only [send]
    split
    · next length sent high b rest hphase hbuffer =>
      cases ready with
      | false => rfl
      | true => cases hlast : sent + 1 == length <;> simp [Counters.passages]
    · rfl
  have hstore (s : Serializer) : (s.store input).counted.passages = {} := by
    unfold store
    repeat' split
    all_goals rfl
  exact Counters.passages_add_right hsend (hstore _)

/-- The bus counts the interrupts it raises. -/
theorem Wishbone.Bus.tick_passages (b : Bus) (ready : Bool) :
    (b.tick ready).counted.passages = { interrupts := (b.tick ready).sent.toList.length } := by
  show (offerFirst ready b.devices).counted.passages =
    { interrupts := (offerFirst ready b.devices).sent.toList.length }
  induction b.devices with
  | nil => rfl
  | cons d rest ih =>
      rw [offerFirst]
      split
      · cases d with
        | sram s => rfl
        | msi m =>
            show (m.offer ready).counted.passages =
              { interrupts := (m.offer ready).sent.toList.length }
            unfold Msi.offer
            split <;> rfl
      · exact ih

/-- The bus of the link counts the words it moves. -/
theorem Link.Bus.tick_passages (b : Bus) (host : Host) (word : Option Word) (room : Bool) :
    let t := b.tick host word room
    t.counted.passages =
      { wordsIn := t.sent.toList.length, wordsOut := (t.removed word).length } := by
  intro t
  have hmoves := b.tick_moves host word room
  have hothers : t.counted.passages =
      { wordsIn := t.counted.linkWordsIn, wordsOut := t.counted.linkWordsOut } := by
    simp only [t, tick]
    cases b.phase <;> rfl
  rw [hothers, hmoves.wordsIn, hmoves.wordsOut]
  rfl

/-! ## the crossbar -/

namespace Crossbar

variable {x : Crossbar}

/-- What a tick counts: a packet with its first beat. Between its first beat and its last a packet is
in progress. -/
structure Passes (x : Crossbar) (input : Option PacketBeat) (t : Transfer Crossbar PacketBeat) :
    Prop where
  passages : t.counted.passages =
    { granted := t.counted.passages.granted, routed := t.counted.passages.routed }
  granted : t.counted.passages.granted + x.grant.isSome.toNat =
    t.sent.toList.countP (·.last) + t.next.grant.isSome.toNat
  routed : t.counted.passages.routed + x.route.isSome.toNat =
    (t.removed input).countP (·.last) + t.next.route.isSome.toNat

/-- A grant is counted. -/
theorem chooseGrant_passes (x : Crossbar) :
    x.chooseGrant.2.passages = { granted := x.chooseGrant.2.passages.granted } ∧
      x.chooseGrant.2.passages.granted + x.grant.isSome.toNat =
        x.chooseGrant.1.grant.isSome.toNat := by
  unfold chooseGrant
  cases hgrant : x.grant with
  | some tag => exact ⟨rfl, by simp [hgrant, Counters.passages]⟩
  | none =>
      cases hfind : x.rotation.find? (·.1.sink.peek.isSome) with
      | none => exact ⟨rfl, by simp [hgrant, Counters.passages]⟩
      | some s => exact ⟨rfl, rfl⟩

/-- It is held until the packet ends. -/
theorem sendGranted_passes (hknown : x.GrantKnown) (ready : Bool) :
    x.grant.isSome.toNat = (x.sendGranted ready).sent.toList.countP (·.last) +
      (x.sendGranted ready).next.grant.isSome.toNat := by
  cases hgrant : x.grant with
  | none => simp [sendGranted, hgrant]
  | some tag =>
      obtain ⟨p, hport⟩ : ∃ p, x.port? tag = some p := by
        rw [← Option.isSome_iff_exists, isSome_port?]
        exact List.contains_iff_mem.mpr (hknown tag hgrant)
      rw [sendGranted_of_grant hgrant hport]
      cases hpeek : p.sink.peek with
      | none => simp [hgrant]
      | some beat =>
          cases ready with
          | false => simp [hgrant]
          | true => cases hlast : beat.last <;> simp [sending, ownerBehind, hlast]

/-- A route is kept until the packet ends. -/
theorem deliver_passes {route : Route} (h : x.route = some route) (beat : PacketBeat) :
    ((x.deliver beat).removed (some beat)).countP (·.last) +
      (x.deliver beat).next.route.isSome.toNat = 1 := by
  obtain ⟨htaken, hwaiting, -⟩ := deliver_route h beat
  cases ht : (x.deliver beat).taken with
  | true =>
      rw [htaken ht, Transfer.removed, if_pos ht]
      cases hlast : beat.last <;> simp [Route.behind, hlast]
  | false =>
      rw [hwaiting ht, Transfer.removed, ht]
      rfl

/-- A route is counted when it is chosen. -/
theorem dispatch_passes (x : Crossbar) (input : Option PacketBeat) :
    let t := x.dispatch input
    t.counted.passages = { routed := t.counted.passages.routed } ∧
      t.counted.passages.routed + x.route.isSome.toNat =
        (t.removed input).countP (·.last) + t.next.route.isSome.toNat := by
  intro t
  cases input with
  | none => exact ⟨rfl, rfl⟩
  | some beat =>
      obtain ⟨route, hroute, hpassages, hcount⟩ : ∃ route,
          (x.chooseRoute beat).1.route = some route ∧
          (x.chooseRoute beat).2.passages = { routed := (x.chooseRoute beat).2.passages.routed } ∧
          (x.chooseRoute beat).2.passages.routed + x.route.isSome.toNat = 1 := by
        unfold chooseRoute
        cases hroute : x.route with
        | some route => exact ⟨route, hroute, rfl, rfl⟩
        | none =>
            simp only
            split <;> exact ⟨_, rfl, rfl, rfl⟩
      exact ⟨hpassages, hcount.trans (deliver_passes hroute beat).symm⟩

/-- **The crossbar counts every packet once.** -/
theorem tick_passages (hknown : x.GrantKnown) (input : Option PacketBeat) (ready : Bool) :
    x.Passes input (x.tick input ready) := by
  let outbound := x.arbitrate ready
  let inbound := outbound.next.dispatch input
  have hroute : outbound.next.route = x.route := (arbitrate_serves hknown ready).route
  have hgrant : inbound.next.grant = outbound.next.grant := (dispatch_routes ..).grant
  obtain ⟨-, -, -, -, hknown', -, -⟩ := chooseGrant_spec hknown
  obtain ⟨hchosen, hcount⟩ := x.chooseGrant_passes
  have hsent := sendGranted_passes hknown' ready
  obtain ⟨hpassages, hrouted⟩ := outbound.next.dispatch_passes input
  have hcounted : (x.tick input ready).counted.passages =
      { granted := outbound.counted.passages.granted, routed := inbound.counted.passages.routed } := by
    show (outbound.counted + inbound.counted).passages = _
    rw [Counters.passages_add, show outbound.counted.passages = _ from hchosen, hpassages]
    show Counters.Passages.mk .. = _
    simp only [Nat.zero_add]
    rfl
  rw [hroute] at hrouted
  exact
    { passages := by rw [hcounted]
      granted := by
        rw [hcounted]
        show _ = outbound.sent.toList.countP _ + inbound.next.grant.isSome.toNat
        rw [hgrant]
        exact hcount.trans hsent
      routed := by
        rw [hcounted]
        exact hrouted }

end Crossbar

end LinkBridge
