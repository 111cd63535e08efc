import LinkBridge.Framing.Frame
import LinkBridge.Proofs.Stream.Blocks
import LinkBridge.Proofs.Stream.Transducer
import Mathlib.Algebra.Group.Nat.Defs

/-!
# LinkBridge.Proofs.Framing.Reading

Reading frames word by word. `Frame.packets` looks at a word stream as a whole; a component sees
one word at a time. `Frame.reader` is the same reading done in single steps: it knows its position
in the stream and reports what each word tells it.

Main statements: the packets the reader reports are `Frame.packets` (`filterMap_packet?_findings`);
more words never take a packet back (`packets_prefix_append`); and a stream of frames reads back as
the packets framed, an empty payload as one zero word (`packets_flatMap_ofPacket`).
-/

namespace LinkBridge

/-! ## lengths on the wire -/

/-- The length field of a packet counts the words that travel, as long as they can be counted in
32 bits. -/
theorem Packet.toNat_length {p : Packet} (h : p.payload.length < 2 ^ 32) :
    p.length.toNat = p.words.length := by
  have hmod : (UInt32.ofNat p.payload.length).toNat = p.payload.length :=
    UInt32.toNat_ofNat_of_lt' h
  have hle : UInt32.ofNat p.payload.length ≤ 1 ↔ p.payload.length ≤ 1 := by
    rw [UInt32.le_iff_toNat_le, hmod]
    rfl
  show (if UInt32.ofNat p.payload.length ≤ 1 then 1 else UInt32.ofNat p.payload.length).toNat = _
  have hwords : p.words.length = max p.payload.length 1 := by
    unfold Packet.words
    cases p.payload <;> simp
  rw [hwords]
  split
  · next hone => have := hle.mp hone; have : (1 : UInt32).toNat = 1 := rfl; omega
  · next hone => rw [hle] at hone; omega

/-- The beats that carry words to a destination. -/
def Packet.beatsFor (dst : UInt8) (ws : List Word) : List PacketBeat :=
  beatsOf dst (UInt32.ofNat ws.length) ws

theorem Packet.words_of_ne_nil {p : Packet} (h : p.payload ≠ []) : p.words = p.payload := by
  simp [words, h]

/-- As long as the words can be counted they are the beats of a packet. -/
theorem Packet.beatsFor_eq {dst : UInt8} {ws : List Word} (hne : ws ≠ [])
    (h : ws.length < 2 ^ 32) : beatsFor dst ws = beats { dst, payload := ws } := by
  have hwords : words { dst, payload := ws } = ws := by simp [words, hne]
  have hlen : length { dst, payload := ws } = UInt32.ofNat ws.length := by
    apply UInt32.toNat_inj.mp
    rw [toNat_length h, hwords, UInt32.toNat_ofNat_of_lt' h]
  rw [beats, hwords, hlen, beatsFor]

/-- A packet with words has one last beat. -/
theorem Packet.countP_last_beatsOf (dst : UInt8) (length : Word) {ws : List Word} (hne : ws ≠ []) :
    (beatsOf dst length ws).countP (·.last) = 1 := by
  induction ws with
  | nil => contradiction
  | cons w rest ih =>
      rw [beatsOf, List.countP_cons]
      cases rest with
      | nil => rfl
      | cons v rest => simpa using ih (List.cons_ne_nil v rest)

/-- The last word of a packet is marked, and no other. -/
theorem Packet.beatsOf_concat (dst : UInt8) (length : Word) (ws : List Word) (w : Word) :
    beatsOf dst length (ws ++ [w]) =
      ws.map (fun v => { dst, length, data := v }) ++ [{ dst, length, data := w, last := true }] := by
  induction ws with
  | nil => rfl
  | cons v rest ih =>
      rw [List.cons_append, beatsOf, ih, List.map_cons, List.cons_append]
      simp

/-- Beats that carry words are one block. -/
theorem Packet.blocks_beatsOf_append (dst : UInt8) (length : Word) {ws : List Word} (hne : ws ≠ [])
    (beats : List PacketBeat) : blocks PacketBeat.last (beatsOf dst length ws ++ beats) =
      beatsOf dst length ws :: blocks PacketBeat.last beats := by
  induction ws with
  | nil => exact absurd rfl hne
  | cons w rest ih =>
      rw [beatsOf, List.cons_append]
      cases rest with
      | nil => exact blocks_cons_end rfl beats
      | cons v rest =>
          rw [blocks_cons rfl, ih (List.cons_ne_nil v rest)]
          rfl

/-- Whether a run of beats is one packet. -/
def Packet.Whole (beats : List PacketBeat) : Prop :=
  ∃ dst ws, ws ≠ [] ∧ beats = beatsFor dst ws

theorem Packet.Whole.countP_last {beats : List PacketBeat} (h : Whole beats) :
    beats.countP (·.last) = 1 := by
  obtain ⟨dst, ws, hne, rfl⟩ := h
  exact countP_last_beatsOf dst _ hne

namespace Frame

theorem toNat_payloadLength (w : Word) : (payloadLength w).toNat = max w.toNat 1 := by
  show (if w ≤ 1 then 1 else w).toNat = max w.toNat 1
  have hle : w ≤ 1 ↔ w.toNat ≤ 1 := UInt32.le_iff_toNat_le
  split
  · next h => have := hle.mp h; have : (1 : UInt32).toNat = 1 := rfl; omega
  · next h => rw [hle] at h; omega

/-- A length field that is not zero stands for itself. -/
theorem payloadLength_eq_self {w : Word} (h : 1 ≤ w.toNat) : payloadLength w = w := by
  apply UInt32.toNat_inj.mp
  rw [toNat_payloadLength]
  omega

@[simp] theorem destination_toUInt32 (dst : UInt8) : destination dst.toUInt32 = dst := by
  simp [destination]

/-- The packets of a word stream have a payload, and one that can be counted. -/
theorem payload_of_mem_packets {ws : List Word} {p : Packet} (h : p ∈ packets ws) :
    p.payload ≠ [] ∧ p.payload.length < 2 ^ 32 := by
  fun_induction packets ws with
  | case1 => contradiction
  | case2 dst length body n payload hlength ih =>
      rcases List.mem_cons.mp h with rfl | h
      · have hpos : 1 ≤ n := by
          show 1 ≤ (payloadLength length).toNat
          rw [toNat_payloadLength]
          omega
        have hlt : n < 2 ^ 32 := (payloadLength length).toNat_lt
        refine ⟨fun hnil => ?_, by show payload.length < _; omega⟩
        have hzero : payload.length = 0 := congrArg List.length hnil
        omega
      · exact ih h
  | case3 => contradiction
  | case4 => contradiction
  | case5 w rest hne ih => exact ih h

/-! ## the reader -/

/-- Where a reader stands in a word stream. -/
inductive Position where
  /-- Outside of every frame. -/
  | outside
  /-- Behind a preamble. -/
  | started
  /-- Behind the destination word. -/
  | addressed (dst : Word)
  /-- Within a payload of `length` words, of which `payload` was read. -/
  | inside (dst : UInt8) (length : Word) (payload : List Word)

/-- What a word tells the reader. -/
inductive Finding where
  /-- The word belongs to no frame. -/
  | skipped
  /-- A payload of `length` words follows. -/
  | announced (length : Word)
  /-- A packet is complete. -/
  | packet (p : Packet)
  deriving DecidableEq

/-- The packet a finding completes. -/
def Finding.packet? : Finding → Option Packet
  | .packet p => some p
  | _ => none

/-- Reads a word stream one word at a time. -/
def reader : Transducer Position Word Finding where
  step
    | .outside, w => if w = preamble then (.started, []) else (.outside, [.skipped])
    | .started, w => (.addressed w, [])
    | .addressed dst, w =>
      (.inside (destination dst) (payloadLength w) [], [.announced (payloadLength w)])
    | .inside dst length payload, w =>
      if payload.length + 1 = length.toNat then
        (.outside, [.packet { dst, payload := payload ++ [w] }])
      else (.inside dst length (payload ++ [w]), [])

/-- Where the reader stands behind a word stream. -/
def position (ws : List Word) : Position :=
  reader.after .outside ws

/-- Everything a word stream tells the reader. -/
def findings (ws : List Word) : List Finding :=
  reader.answers .outside ws

/-! ## payloads -/

section

variable (dst : UInt8) (length : Word)

/-- Within a payload the reader only collects. -/
theorem read_inside_of_lt (payload ws : List Word)
    (h : payload.length + ws.length < length.toNat) :
    reader.after (.inside dst length payload) ws = .inside dst length (payload ++ ws) ∧
      reader.answers (.inside dst length payload) ws = [] := by
  induction ws generalizing payload with
  | nil => simp
  | cons w ws ih =>
      rw [List.length_cons] at h
      have hne : ¬ payload.length + 1 = length.toNat := by omega
      have hstep : reader.step (.inside dst length payload) w =
          (.inside dst length (payload ++ [w]), []) := by
        simp only [reader, if_neg hne]
      have := ih (payload ++ [w]) (by rw [List.length_append, List.length_singleton]; omega)
      simpa only [Transducer.after, Transducer.answers, hstep, List.append_assoc,
        List.singleton_append, List.nil_append] using this

/-- The last word of a payload completes the packet. -/
theorem read_inside_of_eq (payload ws : List Word) (hne : ws ≠ [])
    (h : payload.length + ws.length = length.toNat) :
    reader.after (.inside dst length payload) ws = .outside ∧
      reader.answers (.inside dst length payload) ws =
        [.packet { dst, payload := payload ++ ws }] := by
  obtain ⟨init, w, rfl⟩ : ∃ init w, ws = init ++ [w] :=
    ⟨ws.dropLast, ws.getLast hne, (List.dropLast_concat_getLast hne).symm⟩
  rw [List.length_append, List.length_singleton] at h
  obtain ⟨hafter, hanswers⟩ := read_inside_of_lt dst length payload init (by omega)
  have heq : (payload ++ init).length + 1 = length.toNat := by
    rw [List.length_append]; omega
  rw [Transducer.after_concat, Transducer.answers_concat, hafter, hanswers]
  simp only [reader, if_pos heq, List.nil_append, List.append_assoc, and_self]

end

/-! ## whole streams -/

theorem findings_cons_of_ne {w : Word} (h : w ≠ preamble) (ws : List Word) :
    findings (w :: ws) = .skipped :: findings ws := by
  simp only [findings, Transducer.answers, reader, if_neg h, List.singleton_append]

/-- Behind a frame header the reader is inside the payload. -/
theorem findings_header (dst length : Word) (ws : List Word) :
    findings (preamble :: dst :: length :: ws) =
      .announced (payloadLength length) ::
        reader.answers (.inside (destination dst) (payloadLength length) []) ws := by
  simp only [findings, Transducer.answers, reader, if_pos, List.nil_append, List.singleton_append]

/-- A complete frame is found as one packet. -/
theorem findings_frame (dst length : Word) (payload ws : List Word)
    (h : payload.length = (payloadLength length).toNat) :
    findings (preamble :: dst :: length :: (payload ++ ws)) =
      .announced (payloadLength length) :: .packet { dst := destination dst, payload } ::
        findings ws := by
  have hne : payload ≠ [] := by
    rintro rfl
    rw [toNat_payloadLength, List.length_nil] at h
    omega
  obtain ⟨hafter, hanswers⟩ :=
    read_inside_of_eq (destination dst) (payloadLength length) [] payload hne (by simpa using h)
  rw [findings_header, Transducer.answers_append, hafter, hanswers]
  rfl

/-- A frame cut short is found as no packet. -/
theorem findings_truncated (dst length : Word) (ws : List Word)
    (h : ws.length < (payloadLength length).toNat) :
    findings (preamble :: dst :: length :: ws) = [.announced (payloadLength length)] := by
  obtain ⟨-, hanswers⟩ :=
    read_inside_of_lt (destination dst) (payloadLength length) [] ws (by simpa using h)
  rw [findings_header, hanswers]

/-- **The reader finds the packets of the stream.** -/
theorem filterMap_packet?_findings (ws : List Word) :
    (findings ws).filterMap Finding.packet? = packets ws := by
  fun_induction packets ws with
  | case1 => rfl
  | case2 dst length body n payload hlen ih =>
      have hbody : body = payload ++ body.drop n := (List.take_append_drop n body).symm
      conv => lhs; rw [hbody, findings_frame dst length payload _ hlen]
      simp only [List.filterMap_cons, Finding.packet?, ih]
  | case3 dst length body n payload hlen =>
      rw [findings_truncated dst length body (by simp [payload, n] at hlen; omega)]
      rfl
  | case4 rest hshort =>
      rcases rest with _ | ⟨dst, _ | ⟨length, body⟩⟩
      · rfl
      · rfl
      · exact absurd rfl (hshort dst length body)
  | case5 w rest hne ih =>
      rw [findings_cons_of_ne hne, List.filterMap_cons]
      exact ih

/-- More words never take a packet back. -/
theorem packets_prefix_append (ws more : List Word) : packets ws <+: packets (ws ++ more) := by
  rw [← filterMap_packet?_findings ws, ← filterMap_packet?_findings (ws ++ more)]
  unfold findings
  rw [Transducer.answers_append, List.filterMap_append]
  exact List.prefix_append ..

/-! ## streams of frames -/

/-- What remains of a packet on the wire: an empty payload has become one zero word. -/
def normalize (p : Packet) : Packet :=
  { dst := p.dst, payload := p.words }

theorem ofPacket_eq (p : Packet) :
    ofPacket p = preamble :: p.dst.toUInt32 :: p.length :: p.words := rfl

/-- The frame of a packet announces as many words as it holds. -/
theorem length_words_eq {p : Packet} (h : p.payload.length < 2 ^ 32) :
    p.words.length = (payloadLength p.length).toNat := by
  have hpos : 1 ≤ p.words.length := List.length_pos_iff.mpr p.words_ne_nil
  have hlen := Packet.toNat_length h
  rw [payloadLength_eq_self (by omega), hlen]

/-- A frame at the front of a stream reads back as its packet. -/
theorem findings_ofPacket_append {p : Packet} (h : p.payload.length < 2 ^ 32) (ws : List Word) :
    findings (ofPacket p ++ ws) =
      .announced p.length :: .packet (normalize p) :: findings ws := by
  have hpos : 1 ≤ p.length.toNat := by
    rw [Packet.toNat_length h]
    exact List.length_pos_iff.mpr p.words_ne_nil
  rw [ofPacket_eq]
  simp only [List.cons_append]
  rw [findings_frame _ _ _ _ (length_words_eq h), destination_toUInt32,
    payloadLength_eq_self hpos]
  rfl

/-- Behind the frame of a packet a reader is outside of every frame. -/
theorem position_ofPacket {p : Packet} (h : p.payload.length < 2 ^ 32) :
    position (ofPacket p) = .outside := by
  obtain ⟨hafter, -⟩ := read_inside_of_eq (destination p.dst.toUInt32) (payloadLength p.length) []
    p.words p.words_ne_nil (by rw [List.length_nil, Nat.zero_add, length_words_eq h])
  simpa only [position, ofPacket_eq, Transducer.after, reader, if_pos] using hafter

/-- **A stream of frames reads back as the packets framed.** -/
theorem packets_flatMap_ofPacket {ps : List Packet} (h : ∀ p ∈ ps, p.payload.length < 2 ^ 32) :
    packets (ps.flatMap ofPacket) = ps.map normalize := by
  induction ps with
  | nil => simp [packets]
  | cons p ps ih =>
      rw [← filterMap_packet?_findings] at ih ⊢
      rw [List.flatMap_cons, findings_ofPacket_append (h p List.mem_cons_self)]
      simp only [List.filterMap_cons, Finding.packet?, List.map_cons]
      rw [ih fun q hq => h q (List.mem_cons_of_mem p hq)]

end Frame

end LinkBridge
