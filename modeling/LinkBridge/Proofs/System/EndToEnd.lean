import LinkBridge.Proofs.System.Outcome

/-!
# LinkBridge.Proofs.System.EndToEnd

From the host and back. Whatever the two clocks and host software do, once nothing is under way and
no frame was abandoned the host has received, merged in some order, the answers to all packets it
has sent (`host_receives_replies`): the Etherbone replies and the completions, each in order. A
completion that the serializer cannot store is the one thing missing (`not_deliversAll`).
-/

namespace LinkBridge

namespace Bridge

/-! ## what the host receives -/

/-- **The host receives the answers to all packets.** For every checked configuration and every
order of ticks, writes and drains: when nothing is under way and no frame was abandoned, the words
the host has received are the frames of the Etherbone replies and of the completions that fit into
the TLP buffer, merged packet by packet. -/
theorem host_receives_replies {config : Config} {b : Bridge} (h : ofConfig config = .ok b)
    (actions : List Action) :
    let t := (Trace.start b).play actions
    t.bridge.isIdle = true → t.bridge.counters.frameTimeouts = 0 →
    let ps := Frame.packetsWithin config.core.maxPayloadWords t.accepted
    let ports := config.core.ports
    ∃ merged,
      Interleaves (Packet.etherboneReplies ports.etherbone b.core.bus ps)
        (Packet.completionReplies ports.tlp config.tlp.fifoDepth b.core.endpoint ps) merged ∧
      t.hostWords = merged.flatMap Frame.ofPacket := by
  intro t hidle htimeouts ps ports
  have hfresh := fresh_ofConfig h
  obtain ⟨hetherbone, htlp, -, hlimit, hdepth⟩ := settings_ofConfig h
  obtain ⟨sent, htracks⟩ := hfresh.tracks.play actions
  have hends : t.Ends b := hfresh.ends actions hidle
  have hcut : t.reader.cut = [] :=
    List.length_eq_zero_iff.mp (hends.frameTimeouts_eq.symm.trans htimeouts)
  have hpackets : t.packets = ps := by
    have hnow : t.reader.now.maxPayload = config.core.maxPayloadWords :=
      htracks.settings.2.trans hlimit
    show t.packets = Frame.packetsWithin config.core.maxPayloadWords t.accepted
    rw [Trace.packets, hends.accepted, Deframer.History.consumed, Deframer.History.segments, hcut,
      hnow]
    simp
  obtain ⟨merged, hmerged, hwords⟩ := hends.words
  rw [hpackets, hetherbone, htlp, hdepth] at hmerged
  exact ⟨merged, hmerged, hwords⟩

/-! ## completions that are lost -/

/-- Whether the host of a bridge always receives the completions for all memory reads. -/
def DeliversAll (config : Config) : Prop :=
  ∀ b, ofConfig config = .ok b → ∀ actions,
    let t := (Trace.start b).play actions
    t.bridge.isIdle = true → t.bridge.counters.frameTimeouts = 0 →
    let ps := Frame.packetsWithin config.core.maxPayloadWords t.accepted
    let ports := config.core.ports
    let completions := Packet.completions ports.tlp { b.core.endpoint with autoComplete := true } ps
    ∃ merged,
      Interleaves (Packet.etherboneReplies ports.etherbone b.core.bus ps)
        (completions.map fun r => { dst := ports.tlp, payload := r.toDwords }) merged ∧
      t.hostWords = merged.flatMap Frame.ofPacket

/-- The host writes words, and then the clocks tick in turn. -/
def inTurn (words : List Word) (ticks : Nat) : List Action :=
  .write words :: (List.replicate ticks [Action.linkTick, Action.coreTick]).flatten

/-- A memory read is answered. -/
theorem host_receives_replies_read :
    let b := assemble {} defaultLayout
    let t := (Trace.start b).play (inTurn readFrame 40)
    let ps := Frame.packetsWithin 1024 t.accepted
    ofConfig {} = .ok b ∧ t.bridge.isIdle = true ∧ t.bridge.counters.frameTimeouts = 0 ∧
      ∃ merged,
        Interleaves (Packet.etherboneReplies 0 b.core.bus ps)
          (Packet.completionReplies 1 512 b.core.endpoint ps) merged ∧
        t.hostWords = merged.flatMap Frame.ofPacket := by
  intro b t ps
  have hb : ofConfig {} = .ok b := rfl
  have hidle : t.bridge.isIdle = true := by decide +kernel
  have htimeouts : t.bridge.counters.frameTimeouts = 0 := by decide +kernel
  exact ⟨hb, hidle, htimeouts, host_receives_replies hb (inTurn readFrame 40) hidle htimeouts⟩

/-- A bridge whose host receives nothing for a memory read does not deliver all completions. -/
theorem not_deliversAll_of_silent {config : Config} {b : Bridge} (hb : ofConfig config = .ok b)
    (actions : List Action)
    (hidle : ((Trace.start b).play actions).bridge.isIdle = true)
    (htimeouts : ((Trace.start b).play actions).bridge.counters.frameTimeouts = 0)
    (hsilent : ((Trace.start b).play actions).hostWords.isEmpty = true)
    (hread : (Packet.completions config.core.ports.tlp
      { b.core.endpoint with autoComplete := true }
      (Frame.packetsWithin config.core.maxPayloadWords
        ((Trace.start b).play actions).accepted)).isEmpty = false) :
    ¬ DeliversAll config := by
  intro hall
  obtain ⟨merged, hmerged, hwords⟩ := hall b hb actions hidle htimeouts
  rw [List.isEmpty_iff.mp hsilent] at hwords
  have hnothing : merged = [] := by
    cases merged with
    | nil => rfl
    | cons p ps => contradiction
  have hlength := hmerged.length_eq
  rw [hnothing, List.length_nil, List.length_map] at hlength
  rw [List.isEmpty_eq_false_iff, List.ne_nil_iff_length_pos] at hread
  omega

/-- **A completion that does not fit into the TLP buffer is lost, and without automatic completion
there is none.** -/
theorem not_deliversAll :
    ¬ DeliversAll { tlp := { fifoDepth := 1 } } ∧
      ¬ DeliversAll { tlp := { autoComplete := false } } := by
  constructor
  · exact not_deliversAll_of_silent (b := assemble { tlp := { fifoDepth := 1 } } defaultLayout) rfl
      (inTurn readFrame 40) (by decide +kernel) (by decide +kernel) (by decide +kernel)
      (by decide +kernel)
  · exact not_deliversAll_of_silent (b := assemble { tlp := { autoComplete := false } } defaultLayout)
      rfl (inTurn readFrame 40) (by decide +kernel) (by decide +kernel) (by decide +kernel)
      (by decide +kernel)

end Bridge

end LinkBridge
