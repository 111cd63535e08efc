import LinkBridge.Framing.Framer
import LinkBridge.Proofs.Framing.Reading
import LinkBridge.Proofs.Losses
import LinkBridge.Proofs.Stream.Contents
import Mathlib.Algebra.Ring.Nat

/-!
# LinkBridge.Proofs.Framing.Framer

The framer against the frames of whole packets. Beat by beat, framing puts a header in front of the
first beat of a packet and passes the data of every beat on; over the beats of whole packets that
makes their frames (`framing_beats`). The framer may have sent a part of a header whose beat it has
not taken yet, but the words it will still send are settled by its phase and the beats to come, and
no tick changes them (`tick_conserves`).
-/

namespace LinkBridge

namespace Framer

/-! ## framing beat by beat -/

/-- Puts a header in front of every packet; the state says whether a packet is in progress. -/
def framing : Transducer Bool PacketBeat Word where
  step inside beat :=
    (!beat.last, (if inside then [] else Frame.header beat.dst beat.length) ++ [beat.data])

/-- Within a packet the data of its beats is passed on. -/
theorem framing_beatsOf (dst : UInt8) (length : Word) (ws : List Word) (hne : ws ≠ []) :
    framing.after true (Packet.beatsOf dst length ws) = false ∧
      framing.answers true (Packet.beatsOf dst length ws) = ws := by
  induction ws with
  | nil => exact absurd rfl hne
  | cons w rest ih =>
      cases rest with
      | nil => exact ⟨rfl, rfl⟩
      | cons x rest =>
          obtain ⟨hafter, hanswers⟩ := ih (List.cons_ne_nil x rest)
          have hstep : framing.step true { dst, length, data := w } = (true, [w]) := rfl
          constructor
          · exact hafter
          · rw [Packet.beatsOf, Transducer.answers]
            simp only [List.isEmpty_cons, hstep, hanswers, List.singleton_append]

/-- A header is put in front of them. -/
theorem framing_head (dst : UInt8) (length : Word) {ws : List Word} (hne : ws ≠ []) :
    framing.after false (Packet.beatsOf dst length ws) = false ∧
      framing.answers false (Packet.beatsOf dst length ws) = Frame.header dst length ++ ws := by
  obtain ⟨hafter, hanswers⟩ := framing_beatsOf dst length ws hne
  cases ws with
  | nil => exact absurd rfl hne
  | cons w rest => exact ⟨hafter, congrArg (Frame.header dst length ++ ·) hanswers⟩

/-- **The beats of a packet make its frame.** -/
theorem framing_packet (p : Packet) :
    framing.after false p.beats = false ∧ framing.answers false p.beats = Frame.ofPacket p :=
  framing_head p.dst p.length p.words_ne_nil

/-- The beats of whole packets make their frames, one after the other. -/
theorem framing_beats (ps : List Packet) :
    framing.after false (ps.flatMap Packet.beats) = false ∧
      framing.answers false (ps.flatMap Packet.beats) = ps.flatMap Frame.ofPacket := by
  have hafter : ∀ p ∈ ps, framing.after false p.beats = false := fun p _ => (framing_packet p).1
  refine ⟨framing.after_flatMap false _ ps hafter, ?_⟩
  rw [framing.answers_flatMap false _ ps hafter]
  simp only [(framing_packet _).2]

/-- Framing adds a header to every packet. -/
theorem length_framing {ps : List (List PacketBeat)} (h : ∀ p ∈ ps, Packet.Whole p) :
    (framing.answers false ps.flatten).length = (ps.map fun p => 3 + p.length).sum := by
  induction ps with
  | nil => rfl
  | cons p ps ih =>
      obtain ⟨⟨dst, ws, hne, rfl⟩, hps⟩ := List.forall_mem_cons.mp h
      obtain ⟨hafter, hanswers⟩ := framing_head dst (UInt32.ofNat ws.length) hne
      have hlength : (Packet.beatsFor dst ws).length = ws.length := by
        rw [← List.length_map, Packet.beatsFor, Packet.map_data_beatsOf]
      rw [List.flatten_cons, Transducer.answers_append, List.length_append, List.map_cons,
        List.sum_cons, hlength]
      rw [Packet.beatsFor, hafter, hanswers, ih hps, List.length_append, Frame.length_header]

/-! ## the framer -/

/-- Whether the header of the next beat was begun or a beat of its packet taken. -/
def Phase.inside : Phase → Bool
  | .idle => false
  | .header .. | .payload => true

/-- The words of a header still to be sent. -/
def Phase.owed : Phase → List Word
  | .header word rest => word :: rest
  | .idle | .payload => []

/-- The words a framer will still send for the beats it has not taken. -/
def future (f : Framer) (beats : List PacketBeat) : List Word :=
  f.phase.owed ++ framing.answers f.phase.inside beats

theorem isIdle_iff (f : Framer) : f.isIdle = true ↔ f.phase = .idle := by
  unfold isIdle
  cases f.phase <;> simp

/-- Without a packet in progress the future is the framing of the beats to come. -/
theorem future_of_isIdle {f : Framer} (h : f.isIdle = true) (beats : List PacketBeat) :
    f.future beats = framing.answers false beats := by
  rw [future, (isIdle_iff f).mp h]
  rfl

/-- **No tick changes what the framer makes of the beats to come.** -/
theorem tick_conserves (f : Framer) (input : Option PacketBeat) (ready : Bool) :
    (f.tick input ready).Conserves future f input ready := by
  obtain ⟨phase⟩ := f
  cases phase with
  | idle =>
      cases input with
      | none => exact ⟨nofun, fun _ => rfl⟩
      | some beat => exact ⟨nofun, fun _ => rfl⟩
  | header word rest =>
      cases ready with
      | false => exact ⟨nofun, fun _ => rfl⟩
      | true => cases rest <;> exact ⟨fun _ => rfl, fun _ => rfl⟩
  | payload =>
      cases input with
      | none => exact ⟨nofun, fun _ => rfl⟩
      | some beat =>
          cases ready with
          | false => exact ⟨nofun, fun _ => rfl⟩
          | true =>
              unfold tick
              cases hlast : beat.last <;>
                refine ⟨fun _ => rfl, fun xs => ?_⟩ <;>
                simp [future, Phase.owed, Phase.inside, Transfer.left, Transducer.answers, framing,
                  hlast]

/-- Nor does it lose track of the packets to come. -/
theorem tick_after (f : Framer) (input : Option PacketBeat) (ready : Bool) (xs : List PacketBeat)
    (h : framing.after f.phase.inside (input.toList ++ xs) = false) :
    framing.after (f.tick input ready).next.phase.inside
      ((f.tick input ready).left input ++ xs) = false := by
  obtain ⟨phase⟩ := f
  cases phase with
  | idle => cases input <;> exact h
  | header word rest => cases ready <;> cases rest <;> exact h
  | payload =>
      cases input with
      | none => exact h
      | some beat =>
          cases ready with
          | false => exact h
          | true =>
              unfold tick
              cases hlast : beat.last <;>
                simpa [Phase.inside, Transfer.left, Transducer.after, framing, hlast] using h

/-- Framing loses nothing. -/
theorem lossless_tick (f : Framer) (input : Option PacketBeat) (ready : Bool) :
    (f.tick input ready).counted.Lossless := by
  unfold tick
  repeat' split
  all_goals rfl

end Framer

end LinkBridge
