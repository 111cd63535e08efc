import LinkBridge.Proofs.System.Ledger
import LinkBridge.Proofs.System.Outcome
import Mathlib.Algebra.Ring.Nat

/-!
# LinkBridge.Proofs.System.Balance

The balance of the counters. Once nothing is under way nothing waits behind any point of a bridge, so
its counters say what its ledger says (`Core.Accounts.passages_eq`). What the users of the crossbar
send are whole packets, and the crossbar does not mix them up, so what the framer takes are whole
packets too (`Core.Accounts.whole_packets`) and it has as many of them as last beats.

Main statement: `counters_balance`.
-/

namespace LinkBridge

open Crossbar (packets sentBy)

namespace Core

section

variable {c : Core} {l : Ledger} {left : List Word}

/-! ## an idle domain -/

/-- What has been put into the ports of an idle domain has been sent. -/
theorem handedOver_of_isIdle (hidle : c.isIdle = true) (tag : UInt8) :
    c.handedOver l tag = sentBy tag l.served := by
  obtain ⟨-, ⟨hcrossbar, -, -⟩, -, -⟩ := idle_parts hidle
  rw [handedOver, (Crossbar.contents_of_isIdle hcrossbar tag).1, List.append_nil]

/-- The serializer has sent packets. -/
theorem Accounts.exists_payloads (h : c.Accounts l left) (hw : c.Wired) (hidle : c.isIdle = true) :
    ∃ payloads : List (List Word), (∀ ws ∈ payloads, ws ≠ []) ∧
      sentBy c.tlpTag l.served = payloads.flatMap (Packet.beatsFor c.tlpTag) := by
  obtain ⟨-, -, ⟨hserializer, -⟩, -⟩ := idle_parts hidle
  obtain ⟨⟨hphase, -⟩, -⟩ :
      (c.serializer.phase = .idle ∧ c.serializer.buffer = []) ∧ c.serializer.skipping = false := by
    simpa [Tlp.Serializer.isIdle] using hserializer
  obtain ⟨payloads, hne, hsent⟩ := h.tlps
  rw [hphase, handedOver_of_isIdle hidle, hw.serializer] at hsent
  exact ⟨payloads, hne, hsent⟩

/-- The responder has sent the answers to the requests it has performed. -/
theorem Accounts.sentBy_etherbone (h : c.Accounts l left) (hidle : c.isIdle = true) :
    sentBy c.etherboneTag l.served = (Etherbone.Responder.payloads l.replies).flatMap
      (Packet.beatsFor c.etherboneTag) := by
  obtain ⟨-, -, -, hresponder, -⟩ := idle_parts hidle
  rw [← Etherbone.Responder.answers_eq, ← h.replies,
    Etherbone.Responder.owed_of_isIdle hresponder, List.append_nil, handedOver_of_isIdle hidle]

/-- What has left the ports has been framed. -/
theorem Accounts.served_eq (h : c.Accounts l left) (hidle : c.isIdle = true) :
    l.served.map (·.2) = l.framed := by
  obtain ⟨-, ⟨-, -, hleaving⟩, -, -⟩ := idle_parts hidle
  rw [h.leaving, hleaving, List.append_nil]

/-- **What has been framed are whole packets.** -/
theorem Accounts.whole_packets (h : c.Accounts l left) (hw : c.Wired) (hidle : c.isIdle = true) :
    ∀ p ∈ packets l.framed, Packet.Whole p := by
  intro p hp
  obtain ⟨owner, hserved, -⟩ := h.served
  rw [← h.served_eq hidle] at hp
  obtain ⟨s, hs, hp⟩ := hserved.mem_packets hp
  obtain ⟨payloads, hne, hsent⟩ : ∃ payloads : List (List Word), (∀ ws ∈ payloads, ws ≠ []) ∧
      sentBy s.1 l.served = payloads.flatMap (Packet.beatsFor s.1) := by
    rcases h.members s hs with htag | htag
    · rw [htag]
      exact ⟨_, fun _ => Etherbone.Responder.ne_nil_of_mem_payloads, h.sentBy_etherbone hidle⟩
    · rw [htag]
      exact h.exists_payloads hw hidle
  rw [hsent, Crossbar.packets_flatMap_beatsFor s.1 hne] at hp
  obtain ⟨ws, hws, rfl⟩ := List.mem_map.mp hp
  exact ⟨s.1, ws, hne ws hws, rfl⟩

/-- They are as many as their last beats. -/
theorem Accounts.length_packets (h : c.Accounts l left) (hw : c.Wired) (hidle : c.isIdle = true) :
    (packets l.framed).length = l.framed.countP (·.last) := by
  have hflatten : (packets l.framed).flatMap id = l.framed := by
    rw [List.flatMap_id]
    exact flatten_blocks _ l.framed
  rw [← countP_flatMap_eq fun p hp => (h.whole_packets hw hidle p hp).countP_last]
  exact congrArg (List.countP PacketBeat.last) hflatten

/-- The packets of the two users are all that has been framed. -/
theorem Accounts.countP_framed (h : c.Accounts l left) (hw : c.Wired) (hidle : c.isIdle = true) :
    l.framed.countP (·.last) =
      (sentBy c.tlpTag l.served).countP (·.last) + l.replies.countP (!·.isEmpty) := by
  have hreplies : (sentBy c.etherboneTag l.served).countP (·.last) =
      l.replies.countP (!·.isEmpty) := by
    rw [h.sentBy_etherbone hidle, ← Etherbone.Responder.length_payloads]
    exact countP_flatMap_eq fun ws hws => Packet.countP_last_beatsOf c.etherboneTag _
      (Etherbone.Responder.ne_nil_of_mem_payloads hws)
  rw [← h.served_eq hidle, ← hreplies, Nat.add_comm]
  exact Crossbar.countP_sentBy hw.distinct _ h.members

/-- **The counters of an idle domain say what its ledger says.** -/
theorem Accounts.passages_eq (h : c.Accounts l left) (hidle : c.isIdle = true) :
    c.counters.passages =
      { deframed := l.dispatched.countP (·.last)
        routed := l.dispatched.countP (·.last)
        granted := l.framed.countP (·.last)
        framed := l.framed.countP (·.last)
        tlpsSent := (sentBy c.tlpTag l.served).countP (·.last)
        tlpsReceived := l.tlps.length
        tlpsMalformed := Tlp.Endpoint.malformed l.tlps
        interrupts := l.vectors.length } := by
  obtain ⟨-, ⟨hcrossbar, harriving, -⟩, ⟨-, -, -, hdown, -⟩, -, -, hinterrupts⟩ :=
    idle_parts hidle
  obtain ⟨hgrant, hroute⟩ := Crossbar.none_of_isIdle hcrossbar
  rw [h.passages, passed, handedOver_of_isIdle hidle, h.served_eq hidle, harriving, hdown,
    hinterrupts, hgrant, hroute, List.append_nil, List.append_nil]
  rfl

end

end Core

namespace Bridge

/-! ## the balance -/

/-- A fresh bridge agrees with an empty ledger. -/
theorem Fresh.accounts {b : Bridge} (h : b.Fresh) : b.Accounts {} := by
  obtain ⟨htoDevice, -, hcore⟩ := isIdle_parts h.idle
  obtain ⟨-, ⟨hcrossbar, harriving, hleaving⟩, ⟨hserializer, -, -, hdown, -⟩,
    hresponder, -, hinterrupts⟩ := Core.idle_parts hcore
  have hhanded (tag : UInt8) : b.core.handedOver {} tag = [] :=
    Core.handedOver_of_isIdle hcore tag
  have hreceived : b.received {} = [] := h.received
  obtain ⟨hgrant, hroute⟩ := Crossbar.none_of_isIdle hcrossbar
  have haccounts : b.core.Accounts {} [] :=
    { passages := by
        rw [h.coreCounters, Core.passed, hhanded, harriving, hdown, hinterrupts, hgrant, hroute]
        rfl
      leaving := by
        rw [hleaving]
        rfl
      members := nofun
      served := ⟨none, .nil none, .inl rfl⟩
      tlps := by
        obtain ⟨⟨hphase, -⟩, -⟩ : (b.core.serializer.phase = .idle ∧ _) ∧ _ := by
          simpa [Tlp.Serializer.isIdle] using hserializer
        rw [hhanded, Tlp.Serializer.Sent, hphase]
        exact ⟨[], List.forall_mem_nil _, rfl⟩
      replies := by
        rw [hhanded, Etherbone.Responder.owed_of_isIdle hresponder]
        rfl
      words := fun beats => by
        rw [Trace.wording_of_isIdle h.idle]
        rfl }
  exact
    { core := by
        rw [hreceived]
        exact haccounts
      passages := by
        rw [hreceived, h.linkCounters]
        rfl
      accepted := by
        rw [htoDevice, h.linkCounters]
        rfl }

/-- Counters and a ledger that balance; `received` are the words the host has received. -/
structure Balanced (n : Counters) (l : Ledger) (received : List Word) : Prop where
  routed : n.packetsDeframed = n.packetsRouted + n.packetsUnrouted
  granted : n.packetsArbitrated = n.packetsFramed
  /-- A packet is framed for every TLP sent and every Etherbone request that is answered. -/
  framed : n.packetsFramed = n.tlpPacketsSent + l.replies.countP (!·.isEmpty)
  /-- A TLP is malformed or it is handled. -/
  tlps : n.tlpPacketsReceived = n.tlpMalformed + (Tlp.Endpoint.handled l.tlps).length
  interrupts : n.msiSent = l.vectors.length
  wordsIn : n.linkWordsIn = l.accepted.length
  /-- What is framed are whole packets. -/
  whole : ∀ p ∈ packets l.framed, Packet.Whole p
  count : n.packetsFramed = (packets l.framed).length
  /-- Every packet leaves with the three words of its header. -/
  wordsOut : n.linkWordsOut = ((packets l.framed).map fun p => 3 + p.length).sum
  received : n.linkWordsOut = received.length

section

variable {b : Bridge} {l : Ledger}

/-- **The counters of an idle bridge say what its ledger says.** -/
theorem Accounts.passages_eq (h : b.Accounts l) (hidle : b.isIdle = true) :
    b.counters.passages =
      { deframed := l.dispatched.countP (·.last)
        routed := l.dispatched.countP (·.last)
        granted := l.framed.countP (·.last)
        framed := l.framed.countP (·.last)
        tlpsSent := (sentBy b.core.tlpTag l.served).countP (·.last)
        tlpsReceived := l.tlps.length
        tlpsMalformed := Tlp.Endpoint.malformed l.tlps
        interrupts := l.vectors.length
        wordsIn := l.accepted.length
        wordsOut := (b.received l).length } := by
  obtain ⟨htoDevice, -, hcore⟩ := isIdle_parts hidle
  have haccepted := h.accepted
  rw [htoDevice, List.length_nil, Nat.add_zero] at haccepted
  rw [counters, Counters.passages_add, h.passages, h.core.passages_eq hcore, haccepted]
  apply Counters.Passages.ext <;> first | exact Nat.zero_add _ | rfl

/-- The host has received the frames of what was framed. -/
theorem Accounts.received_eq (h : b.Accounts l) (hidle : b.isIdle = true) :
    b.received l = Framer.framing.answers false (packets l.framed).flatten := by
  obtain ⟨-, -, hcore⟩ := isIdle_parts hidle
  have hwords := h.core.words []
  rwa [Trace.wording_of_isIdle hidle, Transducer.answers_nil, List.append_nil, List.append_nil,
    h.core.served_eq hcore, ← flatten_blocks PacketBeat.last l.framed] at hwords

/-- A bridge with nothing under way balances. -/
theorem Accounts.balanced (h : b.Accounts l) (hw : b.core.Wired) (hidle : b.isIdle = true) :
    Balanced b.counters l (b.received l) := by
  obtain ⟨-, -, hcore⟩ := isIdle_parts hidle
  have hpassages := h.passages_eq hidle
  have hwhole := h.core.whole_packets hw hcore
  have hframed : b.counters.packetsFramed = l.framed.countP (·.last) :=
    congrArg Counters.Passages.framed hpassages
  have hout : b.counters.linkWordsOut = (b.received l).length :=
    congrArg Counters.Passages.wordsOut hpassages
  exact
    { routed := by
        have hdeframed := congrArg Counters.Passages.deframed hpassages
        exact hdeframed.trans (congrArg Counters.Passages.routed hpassages).symm
      granted := by
        have hgranted := congrArg Counters.Passages.granted hpassages
        exact hgranted.trans hframed.symm
      framed := by
        have hsent := congrArg Counters.Passages.tlpsSent hpassages
        rw [hframed, h.core.countP_framed hw hcore]
        exact congrArg (· + l.replies.countP (!·.isEmpty)) hsent.symm
      tlps := by
        have hmalformed := congrArg Counters.Passages.tlpsMalformed hpassages
        have hreceived := congrArg Counters.Passages.tlpsReceived hpassages
        refine hreceived.trans ((Tlp.Endpoint.malformed_add_handled l.tlps).symm.trans ?_)
        exact congrArg (· + (Tlp.Endpoint.handled l.tlps).length) hmalformed.symm
      interrupts := congrArg Counters.Passages.interrupts hpassages
      wordsIn := congrArg Counters.Passages.wordsIn hpassages
      whole := hwhole
      count := hframed.trans (h.core.length_packets hw hcore).symm
      wordsOut := by rw [hout, h.received_eq hidle, Framer.length_framing hwhole]
      received := hout }

end

/-- **The counters balance.** For every checked configuration and whatever happens to the bridge, a
reset of the domain apart: whenever nothing is under way, what was counted at one point of the bridge
was counted at the next, and each counter is what the ledger says. The TLPs and the interrupts of the
ledger are those the endpoint has kept, unless it was told to forget some. -/
theorem counters_balance {config : Config} {b : Bridge} (h : ofConfig config = .ok b)
    {incidents : List Incident} (hincidents : .resetCore ∉ incidents) :
    let b' := b.undergo incidents
    let l := b.ledger incidents
    (b'.isIdle = true → Balanced b'.counters l (b'.received l)) ∧
      (.clearReceived ∉ incidents → .clearVectors ∉ incidents → b'.core.Remembers l) := by
  intro b' l
  have hfresh := fresh_ofConfig h
  have haccounts : b'.Accounts l := hfresh.accounts.undergo hfresh.wired hincidents
  refine ⟨haccounts.balanced (wired_undergo hfresh.wired incidents), ?_⟩
  obtain ⟨layout, -, rfl⟩ := exists_layout h
  exact endpoint_remembers hfresh.wired ⟨rfl, rfl⟩

/-- A memory read and an interrupt. -/
theorem counters_balance_read :
    let b := assemble {} defaultLayout
    let incidents := [.write readFrame, .writeBus 0xe0008000 1] ++ List.replicate 40 .tick
    let b' := b.undergo incidents
    let l := b.ledger incidents
    ofConfig {} = .ok b ∧ .resetCore ∉ incidents ∧ b'.isIdle = true ∧
      b'.counters.packetsFramed = 1 ∧ b'.counters.msiSent = 1 ∧
      Balanced b'.counters l (b'.received l) ∧ b'.core.Remembers l := by
  intro b incidents b' l
  have hb : ofConfig {} = .ok b := rfl
  have hincidents : .resetCore ∉ incidents := by simp [incidents]
  have hidle : b'.isIdle = true := by decide +kernel
  obtain ⟨hbalanced, hremembers⟩ := counters_balance hb hincidents
  refine ⟨hb, hincidents, hidle, by decide +kernel, by decide +kernel, hbalanced hidle, ?_⟩
  exact hremembers (by simp [incidents]) (by simp [incidents])

end Bridge

end LinkBridge
