import LinkBridge.Proofs.Losses
import LinkBridge.Proofs.Stream.Contents
import LinkBridge.Proofs.Stream.Transducer
import LinkBridge.Tlp.Deserializer

/-!
# LinkBridge.Proofs.Tlp.Deserializer

The deserializer against the packing of whole TLPs: the beats it makes of a packet are the payload
packed two dwords to a beat (`pairing_packet`), whenever words come and room is there
(`tick_conserves`).
-/

namespace LinkBridge.Tlp

namespace Beat

/-- Whether a run of beats is one TLP: the last beat is marked, and no other. -/
def Whole (tlp : List Beat) : Prop :=
  ∃ init final, tlp = init ++ [final] ∧ init.countP (·.last) = 0 ∧ final.last = true

theorem countP_last_cons_eq_zero {b : Beat} {rest : List Beat}
    (h : (b :: rest).countP (·.last) = 0) : b.last = false ∧ rest.countP (·.last) = 0 := by
  cases hlast : b.last with
  | false => exact ⟨rfl, by rwa [List.countP_cons_of_neg (by simp [hlast])] at h⟩
  | true =>
      rw [List.countP_cons_of_pos hlast] at h
      omega

/-- The beats of dwords are one TLP. -/
theorem whole_ofDwords {ws : List Word} (hne : ws ≠ []) : Whole (ofDwords ws) := by
  fun_induction ofDwords ws with
  | case1 => exact absurd rfl hne
  | case2 a => exact ⟨[], lone a, rfl, rfl, rfl⟩
  | case3 a b rest ih =>
      cases rest with
      | nil => exact ⟨[], pair a b true, rfl, rfl, rfl⟩
      | cons c rest =>
          obtain ⟨init, final, hsplit, hinit, hfinal⟩ := ih (List.cons_ne_nil c rest)
          refine ⟨pair a b false :: init, final, by rw [hsplit]; rfl, ?_, hfinal⟩
          rw [List.countP_cons_of_neg (by simp [pair])]
          exact hinit

/-- A beat holds two dwords. -/
theorem length_ofDwords (ws : List Word) :
    (ofDwords ws).length = (ws.length + 1) / 2 := by
  fun_induction ofDwords ws with
  | case1 => rfl
  | case2 a => simp
  | case3 a b rest ih =>
      simp only [List.length_cons, ih]
      omega

theorem dwords_ne_nil (b : Beat) : b.dwords ≠ [] := by
  unfold dwords
  split <;> exact List.cons_ne_nil _ _

/-- A TLP has dwords. -/
theorem Whole.dwords_ne_nil {tlp : List Beat} (h : Whole tlp) : tlp.flatMap dwords ≠ [] := by
  obtain ⟨init, final, rfl, -, -⟩ := h
  simp [final.dwords_ne_nil]

end Beat

namespace Deserializer

/-- Pairs words into beats; the state is the dword that waits for its partner. -/
def pairing : Transducer (Option Word) PacketBeat Beat where
  step
    | some low, word => (none, [.pair low word.data word.last])
    | none, word => if word.last then (none, [.lone word.data]) else (some word.data, [])

/-- The beats a deserializer will still send for the words it has not taken. -/
def future (d : Deserializer) (words : List PacketBeat) : List Beat :=
  pairing.answers d.low words

/-- **No tick changes what the deserializer makes of the words to come.** -/
theorem tick_conserves (d : Deserializer) (input : Option PacketBeat) (ready : Bool) :
    (d.tick input ready).Conserves future d input ready := by
  obtain ⟨low⟩ := d
  cases input with
  | none => exact ⟨nofun, fun _ => rfl⟩
  | some word =>
      cases low with
      | some low =>
          cases ready with
          | false => exact ⟨nofun, fun _ => rfl⟩
          | true => exact ⟨fun _ => rfl, fun _ => rfl⟩
      | none =>
          cases hlast : word.last with
          | false =>
              have hbeat : beat? {} word = none := by simp [beat?, hlast]
              simp only [tick, hbeat]
              refine ⟨fun hsent => absurd hsent Bool.false_ne_true, fun xs => ?_⟩
              simp [future, Transfer.left, Transducer.answers, pairing, hlast]
          | true =>
              have hbeat : beat? {} word = some (.lone word.data) := by simp [beat?, hlast]
              simp only [tick, hbeat]
              cases ready with
              | false => exact ⟨fun hsent => absurd hsent Bool.false_ne_true, fun _ => rfl⟩
              | true =>
                  refine ⟨fun _ => rfl, fun xs => ?_⟩
                  simp [future, Transfer.left, Transducer.answers, pairing, hlast]

/-- The words of a packet are packed two to a beat. -/
theorem pairing_beatsOf (dst : UInt8) (length : Word) (ws : List Word) :
    pairing.after none (Packet.beatsOf dst length ws) = none ∧
      pairing.answers none (Packet.beatsOf dst length ws) = Beat.ofDwords ws := by
  fun_induction Beat.ofDwords ws with
  | case1 => exact ⟨rfl, rfl⟩
  | case2 a => exact ⟨rfl, rfl⟩
  | case3 a b rest ih =>
      obtain ⟨hafter, hanswers⟩ := ih
      constructor
      · exact hafter
      · rw [← hanswers]
        rfl

/-- **Packets become beats one after the other.** -/
theorem pairing_packets (ps : List Packet) :
    pairing.answers none (ps.flatMap Packet.beats) = ps.flatMap fun p => Beat.ofDwords p.words :=
  pairing.answers_blocks fun _ _ => pairing_beatsOf ..

/-- Packing dwords loses nothing. -/
theorem lossless_tick (d : Deserializer) (input : Option PacketBeat) (ready : Bool) :
    (d.tick input ready).counted.Lossless := by
  unfold tick
  repeat' split
  all_goals rfl

end Deserializer

end LinkBridge.Tlp
