import LinkBridge.Proofs.System.Fresh

/-!
# LinkBridge.Proofs.System.Outcome

How a trace ends. When nothing is under way any more, everything that the packets of the words
consumed lead to has happened, whatever the order of the ticks was (`Fresh.ends`). All that is left
to the schedule is where silence has cut the words, and how the answers for the host are merged.
-/

namespace LinkBridge

open Etherbone (Effect serving)
open Tlp.Endpoint (record)

namespace Trace

/-- The packets of the words consumed, cut behind every abandoned frame. -/
def packets (t : Trace) : List Packet :=
  t.reader.segments.flatMap (Frame.packetsWithin t.reader.now.maxPayload)

/-- What a trace that began with the bridge `b` has led to. -/
structure Ends (b : Bridge) (t : Trace) : Prop where
  accepted : t.accepted = t.reader.consumed
  words : ∃ merged,
    Interleaves (Packet.etherboneReplies b.core.etherboneTag b.core.bus t.packets)
      (Packet.completionReplies b.core.tlpTag b.core.serializer.depth b.core.endpoint t.packets)
      merged ∧
    t.hostWords = merged.flatMap Frame.ofPacket
  endpoint : t.bridge.core.endpoint.bare =
    ((Tlp.Endpoint.records (Packet.payloadsFor b.core.tlpTag t.packets)).foldl Tlp.Endpoint.handle
      b.core.endpoint).bare
  overflows : t.bridge.counters.tlpOverflows =
    Packet.completionsTooLong b.core.tlpTag b.core.serializer.depth b.core.endpoint t.packets
  vectors : t.bridge.core.endpoint.vectors =
    (Effect.vectors (serving.answers b.core.bus
      (Packet.payloadsFor b.core.etherboneTag t.packets))).foldl record b.core.endpoint.vectors
  bus : t.bridge.core.bus =
    serving.after b.core.bus (Packet.payloadsFor b.core.etherboneTag t.packets)
  losses : t.bridge.counters.losses =
    { t.reader.losses with
      unrouted := t.packets.countP fun p => p.dst ≠ b.core.etherboneTag ∧ p.dst ≠ b.core.tlpTag }

/-- The packets of a trace have a payload. -/
theorem payload_of_mem_packets {t : Trace} {p : Packet} (h : p ∈ t.packets) :
    p.payload ≠ [] ∧ p.payload.length < 2 ^ 32 := by
  obtain ⟨ws, -, hp⟩ := List.mem_flatMap.mp h
  exact Frame.payload_of_mem_packets (List.mem_filter.mp hp).1

section

variable {b : Bridge} {t : Trace} {sent : List (UInt8 × PacketBeat)}

/-- Once nothing is under way the deframer has passed on all packets. -/
theorem Tracks.passed_eq (h : t.Tracks b.core sent) (hidle : t.bridge.core.isIdle = true) :
    t.reader.passed = t.packets.flatMap Packet.beats := by
  obtain ⟨⟨-, -, hdeframer, -⟩, -, -, -⟩ := Core.idle_parts hidle
  have hphase : t.reader.now.phase = .hunt := by
    rw [h.reader]
    exact (Deframer.isIdle_iff _).mp hdeframer
  have howed : t.reader.now.phase.owed = [] := by
    rw [hphase]
    rfl
  have hpassed := h.faithful.passed
  rw [howed, List.append_nil] at hpassed
  rw [hpassed, Deframer.History.due, packets, List.flatMap_assoc]

/-- What an idle domain sends is on the link. -/
theorem wording_of_isIdle (hidle : b.isIdle = true) (beats : List PacketBeat) :
    b.core.wording beats = Framer.framing.answers false beats := by
  obtain ⟨-, houtbound, hcore⟩ := Bridge.isIdle_parts hidle
  obtain ⟨⟨-, -, -, hframer⟩, ⟨-, -, hleaving⟩, -, -⟩ := Core.idle_parts hcore
  rw [Core.wording, houtbound, hleaving, Framer.future_of_isIdle hframer]
  rfl

/-- **Once nothing is under way, the host has the answers to all packets.** -/
theorem Tracks.words_eq (h : t.Tracks b.core sent) (hfresh : b.Fresh)
    (hidle : t.bridge.isIdle = true) :
    ∃ merged,
      Interleaves (Packet.etherboneReplies b.core.etherboneTag b.core.bus t.packets)
        (Packet.completionReplies b.core.tlpTag b.core.serializer.depth b.core.endpoint t.packets)
        merged ∧
      t.hostWords = merged.flatMap Frame.ofPacket := by
  obtain ⟨-, -, hcore⟩ := Bridge.isIdle_parts hidle
  obtain ⟨-, -, hcore₀⟩ := Bridge.isIdle_parts hfresh.idle
  have hbegin := hfresh.wired.foretells hcore₀ _ fun p hp => payload_of_mem_packets (t := t) hp
  have hend := h.wired.foretells hcore [] nofun
  have hpassed := h.passed_eq hcore
  have hcompletions := h.advances.completions []
  have hreplies := h.advances.replies []
  have hwording := h.advances.wording []
  rw [List.append_nil, hpassed, hbegin.completions] at hcompletions
  rw [List.append_nil, hpassed, hbegin.replies] at hreplies
  rw [show t.bridge.core.completionsDue [] = [] from hend.completions, List.append_nil]
    at hcompletions
  rw [show t.bridge.core.repliesDue [] = [] from hend.replies, List.append_nil] at hreplies
  rw [wording_of_isIdle hfresh.idle, wording_of_isIdle hidle, List.append_nil,
    Transducer.answers_nil, List.append_nil] at hwording
  obtain ⟨owner, hserved, howned⟩ := h.advances.served (.nil none) (.inl rfl)
  obtain ⟨-, ⟨hcrossbar, -, -⟩, -, -⟩ := Core.idle_parts hcore
  have hgrant : t.bridge.core.crossbar.grant = none := (Crossbar.none_of_isIdle hcrossbar).1
  have howner : owner = none := by
    rcases howned with hnone | hgranted
    · exact hnone
    · exact hgranted.trans hgrant
  subst howner
  rw [List.nil_append] at hserved
  obtain ⟨merged, hmerged, hbeats⟩ := Crossbar.exists_interleaves hfresh.wired.distinct hserved
    h.advances.members hreplies.symm hcompletions.symm
  refine ⟨merged, hmerged, ?_⟩
  rw [← hwording, hbeats, (Framer.framing_beats merged).2]

end

end Trace

namespace Bridge

/-- **Whatever the order of the ticks, a trace ends with everything done that its packets lead
to.** -/
theorem Fresh.ends {b : Bridge} (h : b.Fresh) (actions : List Action)
    (hidle : ((Trace.start b).play actions).bridge.isIdle = true) :
    ((Trace.start b).play actions).Ends b := by
  obtain ⟨sent, htracks⟩ := h.tracks.play actions
  generalize (Trace.start b).play actions = t at hidle htracks
  obtain ⟨htoDevice, -, hcore⟩ := isIdle_parts hidle
  obtain ⟨-, -, hcore₀⟩ := isIdle_parts h.idle
  have hbegin := h.wired.foretells hcore₀ _ fun p hp => Trace.payload_of_mem_packets (t := t) hp
  have hend := htracks.wired.foretells hcore [] nofun
  have hpassed := htracks.passed_eq hcore
  have hadvances := htracks.advances
  obtain ⟨⟨hinbound, -, -, -⟩, -, -, -⟩ := Core.idle_parts hcore
  have hendpoint := hadvances.endpoint []
  have hbus := hadvances.bus []
  have hvectors := hadvances.vectors []
  have hrefused := hadvances.refused []
  rw [List.append_nil, hpassed, hbegin.endpoint] at hendpoint
  rw [List.append_nil, hpassed, hbegin.bus] at hbus
  rw [List.append_nil, hpassed, hbegin.vectors] at hvectors
  rw [List.append_nil, hpassed, hbegin.refused] at hrefused
  have hoverflowed := hadvances.overflowed []
  rw [List.append_nil, hpassed, hbegin.overflowed] at hoverflowed
  have hunrouted : t.bridge.core.counters.packetsUnrouted =
      t.packets.countP fun p => p.dst ≠ b.core.etherboneTag ∧ p.dst ≠ b.core.tlpTag := by
    have hzero : b.core.counters.packetsUnrouted = 0 := by
      rw [h.coreCounters]
    have hsame : t.bridge.core.counters.packetsUnrouted =
        t.packets.countP fun p => !b.core.crossbar.tags.contains p.dst := by
      have htotal := hrefused.trans hend.refused
      rw [hzero, Nat.zero_add] at htotal
      exact htotal.symm
    rw [hsame]
    refine List.countP_congr fun p _ => ?_
    simp [h.wired.tags]
  exact
    { accepted := by
        rw [htracks.accepted, hinbound, htoDevice, List.append_nil, List.append_nil]
      words := htracks.words_eq h hidle
      endpoint := (hendpoint.trans hend.endpoint).symm
      overflows := by
        have hzero : b.core.counters.tlpOverflows = 0 := by rw [h.coreCounters]
        have hcore := Int.ofNat.inj (hoverflowed.trans hend.overflowed)
        rw [hzero, Nat.zero_add] at hcore
        rw [counters, Counters.add_comm, Counters.tlpOverflows_add_of_lossless htracks.lossless]
        exact hcore.symm
      vectors := (hvectors.trans hend.vectors).symm
      bus := (congrArg Prod.fst (hbus.trans hend.bus)).symm
      losses := by
        have hlink : t.bridge.counters.losses = t.bridge.core.counters.losses := by
          rw [counters, Counters.add_comm, Counters.losses_add_of_eq htracks.lossless.losses]
        rw [hlink, ← hunrouted, ← htracks.losses]
        rfl }

end Bridge

/-! ## outcomes -/

/-- What a run leads to, as far as it is visible outside. -/
structure Outcome where
  /-- The packets the host has received, by their destination. -/
  frames : UInt8 → List Packet
  /-- The TLPs the endpoint has received. -/
  records : List Tlp.Record
  /-- The interrupts the endpoint has received. -/
  vectors : List UInt8
  /-- The Wishbone devices with their memories. -/
  bus : Wishbone.Bus
  losses : Counters.Losses

namespace Trace

/-- The outcome of a trace. -/
def outcome (t : Trace) : Outcome where
  frames tag := (Frame.packets t.hostWords).filter fun p => p.dst == tag
  records := t.bridge.core.endpoint.received
  vectors := t.bridge.core.endpoint.vectors
  bus := t.bridge.core.bus
  losses := t.bridge.counters.losses

section

variable {b : Bridge} {t t' : Trace}

/-- Every packet for the host belongs to one of the users and has words that can be counted. -/
theorem replies_spec (t : Trace) :
    (∀ p ∈ Packet.etherboneReplies b.core.etherboneTag b.core.bus t.packets,
      p.dst = b.core.etherboneTag ∧ p.payload.length < 2 ^ 32) ∧
    ∀ p ∈ Packet.completionReplies b.core.tlpTag b.core.serializer.depth b.core.endpoint t.packets,
      p.dst = b.core.tlpTag ∧ p.payload.length < 2 ^ 32 := by
  constructor
  · intro p hp
    obtain ⟨reply, hreply, rfl⟩ := List.mem_map.mp hp
    have hrequests := Core.payloadsFor_ne_nil (fun p hp => payload_of_mem_packets (t := t) hp)
      b.core.etherboneTag
    exact ⟨rfl, (Etherbone.encode_of_mem_replies (fun ws hws => (hrequests ws hws).2) hreply).2⟩
  · intro p hp
    obtain ⟨r, hr, rfl⟩ := List.mem_map.mp hp
    have hlong := Tlp.Endpoint.length_toDwords_of_mem_completions (List.mem_filter.mp hr).1
    exact ⟨rfl, by show r.toDwords.length < 2 ^ 32; omega⟩

/-- **By destination the host receives its packets in order**, however they are merged. -/
theorem Ends.frames_eq (h : t.Ends b) (hdistinct : b.core.etherboneTag ≠ b.core.tlpTag)
    (tag : UInt8) :
    t.outcome.frames tag =
      ((Packet.etherboneReplies b.core.etherboneTag b.core.bus t.packets ++
        Packet.completionReplies b.core.tlpTag b.core.serializer.depth b.core.endpoint
          t.packets).filter fun p => p.dst == tag).map Frame.normalize := by
  obtain ⟨merged, hmerged, hwords⟩ := h.words
  obtain ⟨hetherbone, htlp⟩ := replies_spec (b := b) t
  have hshort : ∀ p ∈ merged, p.payload.length < 2 ^ 32 := by
    intro p hp
    rcases hmerged.mem_or_mem hp with hp | hp
    · exact (hetherbone p hp).2
    · exact (htlp p hp).2
  -- the packets of one user have a destination of their own
  have hsingle : (Packet.etherboneReplies b.core.etherboneTag b.core.bus t.packets).filter
        (fun p => p.dst == tag) = [] ∨
      (Packet.completionReplies b.core.tlpTag b.core.serializer.depth b.core.endpoint
        t.packets).filter (fun p => p.dst == tag) = [] := by
    by_cases htag : tag = b.core.tlpTag
    · refine .inl (List.filter_eq_nil_iff.mpr fun p hp => ?_)
      simp [(hetherbone p hp).1, htag, hdistinct]
    · refine .inr (List.filter_eq_nil_iff.mpr fun p hp => ?_)
      simp [(htlp p hp).1, Ne.symm htag]
  calc t.outcome.frames tag
    _ = ((merged.map Frame.normalize).filter fun p => p.dst == tag) := by
      rw [outcome, hwords, Frame.packets_flatMap_ofPacket hshort]
    _ = (merged.filter fun p => p.dst == tag).map Frame.normalize := List.filter_map
    _ = _ := by rw [(hmerged.filter _).eq_append hsingle, ← List.filter_append]

/-- **Where silence has cut the words decides the outcome.** -/
theorem Ends.outcome_eq (h : t.Ends b) (h' : t'.Ends b)
    (hdistinct : b.core.etherboneTag ≠ b.core.tlpTag) (hpackets : t.packets = t'.packets)
    (hlosses : t.reader.losses = t'.reader.losses) : t.outcome = t'.outcome := by
  have hframes : t.outcome.frames = t'.outcome.frames := by
    funext tag
    rw [h.frames_eq hdistinct, h'.frames_eq hdistinct, hpackets]
  have hendpoint : t.bridge.core.endpoint.bare = t'.bridge.core.endpoint.bare := by
    rw [h.endpoint, h'.endpoint, hpackets]
  have hvectors : t.bridge.core.endpoint.vectors = t'.bridge.core.endpoint.vectors := by
    rw [h.vectors, h'.vectors, hpackets]
  have hbus : t.bridge.core.bus = t'.bridge.core.bus := by
    rw [h.bus, h'.bus, hpackets]
  have hlost : t.bridge.counters.losses = t'.bridge.counters.losses := by
    rw [h.losses, h'.losses, hpackets, hlosses]
  have hrecords : t.bridge.core.endpoint.received = t'.bridge.core.endpoint.received := by
    show t.bridge.core.endpoint.bare.received = t'.bridge.core.endpoint.bare.received
    rw [hendpoint]
  simp only [outcome, Outcome.mk.injEq]
  exact ⟨hframes, hrecords, hvectors, hbus, hlost⟩

/-- The frames abandoned are the cuts. -/
theorem Ends.frameTimeouts_eq (h : t.Ends b) :
    t.bridge.counters.frameTimeouts = t.reader.cut.length := by
  have hlosses := congrArg Counters.Losses.timeouts h.losses
  exact hlosses

/-- An outcome tells what was lost in front of the crossbar. -/
theorem Ends.losses_eq (h : t.Ends b) (h' : t'.Ends b) (hsame : t.outcome = t'.outcome) :
    t.reader.losses = t'.reader.losses := by
  have hlosses : t.bridge.counters.losses = t'.bridge.counters.losses :=
    congrArg Outcome.losses hsame
  rw [h.losses, h'.losses] at hlosses
  exact congrArg Counters.Losses.framing hlosses

end

end Trace

end LinkBridge
