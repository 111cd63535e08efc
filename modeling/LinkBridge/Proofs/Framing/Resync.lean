import LinkBridge.Proofs.Framing.Reading
import LinkBridge.Proofs.Word

/-!
# LinkBridge.Proofs.Framing.Resync

Frames among words that belong to none of them. Reading skips such words up to the next preamble,
and within a frame it counts words and looks at none of them, so it finds every frame of a stream
whatever its payload holds. A frame that the stream cuts short adds nothing (`packets_of_short`), as
long as the stream is cut between two words: bytes are filled up to whole words before they are
read, so a frame that lacks only some bytes of its last word is read with zero bytes in their place.
-/

namespace LinkBridge.Frame

/-! ## streams -/

/-- Frames in a stream: each packet with the words in front of its frame, and the words behind the
last frame. -/
def stream (runs : List (List Word × Packet)) (last : List Word) : List Word :=
  runs.flatMap (fun run => run.1 ++ ofPacket run.2) ++ last

/-- Words without a preamble are skipped. -/
theorem packets_append_of_notMem {ws : List Word} (h : preamble ∉ ws) (rest : List Word) :
    packets (ws ++ rest) = packets rest := by
  induction ws with
  | nil => rfl
  | cons w ws ih =>
      obtain ⟨hne, hmem⟩ := not_or.mp (mt List.mem_cons.mpr h)
      rw [List.cons_append, packets_cons_of_ne (Ne.symm hne), ih hmem]

/-- A frame at the front of a stream is one packet. -/
theorem packets_ofPacket_append {p : Packet} (h : p.payload.length < 2 ^ 32) (rest : List Word) :
    packets (ofPacket p ++ rest) = normalize p :: packets rest := by
  rw [ofPacket_eq]
  simp only [List.cons_append]
  rw [packets_frame _ _ _ _ (length_words_eq h), destination_toUInt32]
  rfl

theorem packets_stream_append {runs : List (List Word × Packet)} {last : List Word}
    (hlength : ∀ run ∈ runs, run.2.payload.length < 2 ^ 32)
    (hskipped : ∀ run ∈ runs, preamble ∉ run.1) (hlast : preamble ∉ last) (rest : List Word) :
    packets (stream runs last ++ rest) = runs.map (fun run => normalize run.2) ++ packets rest := by
  unfold stream
  induction runs with
  | nil => exact packets_append_of_notMem hlast rest
  | cons run runs ih =>
      have hrun : run ∈ run :: runs := List.mem_cons_self
      simp only [List.flatMap_cons, List.append_assoc, List.map_cons, List.cons_append]
      rw [packets_append_of_notMem (hskipped run hrun), packets_ofPacket_append (hlength run hrun)]
      rw [← ih (fun r hr => hlength r (List.mem_cons_of_mem run hr))
        fun r hr => hskipped r (List.mem_cons_of_mem run hr)]
      simp only [List.append_assoc]

/-! ## frames cut short -/

theorem payloadLength_pos (w : Word) : 0 < (payloadLength w).toNat := by
  rw [toNat_payloadLength]
  omega

/-- Behind a preamble, too few words for the length they announce end the reading. -/
theorem packets_preamble_of_short {rest : List Word}
    (h : ∀ dst length body, rest = dst :: length :: body →
      body.length < (payloadLength length).toNat) :
    packets (preamble :: rest) = [] := by
  rw [packets.eq_def]
  simp only [if_true]
  split
  · next dst length body =>
    have hshort := h dst length body rfl
    rw [if_neg (by rw [List.length_take]; omega)]
  · rfl

/-- Fewer words than a frame has make no packet if they begin like the frame, the last one apart. -/
theorem packets_of_short {p : Packet} (h : p.payload.length < 2 ^ 32) {ws : List Word}
    (hbegins : ws.dropLast <+: ofPacket p) (hshort : ws.length < (ofPacket p).length) :
    packets ws = [] := by
  rw [ofPacket_eq] at hbegins hshort
  cases ws with
  | nil => simp [packets]
  | cons a ws =>
      cases ws with
      | nil =>
          by_cases ha : a = preamble
          · rw [ha]
            apply packets_preamble_of_short
            intro dst length body hnil
            cases hnil
          · rw [packets_cons_of_ne ha]
            simp [packets]
      | cons b rest =>
          obtain ⟨rfl, hbehind⟩ := List.cons_prefix_cons.mp hbegins
          apply packets_preamble_of_short
          intro dst length body hrest
          injection hrest with hdst hrest
          subst hdst hrest
          cases body with
          | nil => exact payloadLength_pos length
          | cons w body =>
              obtain ⟨-, hlength⟩ := List.cons_prefix_cons.mp hbehind
              obtain ⟨rfl, -⟩ := List.cons_prefix_cons.mp hlength
              rw [← length_words_eq h]
              simpa using hshort

/-- A frame cut short between two words makes no packet. -/
theorem packets_of_cut {p : Packet} (h : p.payload.length < 2 ^ 32) {cut : List Word}
    (hbegins : cut <+: ofPacket p) (hne : cut ≠ ofPacket p) : packets cut = [] :=
  packets_of_short h ((List.dropLast_prefix cut).trans hbegins)
    (Nat.lt_of_le_of_ne hbegins.length_le fun hlength => hne (hbegins.eq_of_length hlength))

/-! ## frames cut short within a word -/

open Word (pack unpack)

/-- A frame cut short by a whole word or more makes no packet, wherever the bytes end. -/
theorem packets_unpack_of_cut {p : Packet} (h : p.payload.length < 2 ^ 32) {cut : List UInt8}
    (hbegins : cut <+: pack (ofPacket p)) (hlacks : cut.length + 4 ≤ (pack (ofPacket p)).length) :
    packets (unpack cut) = [] := by
  rw [Word.length_pack] at hlacks
  apply packets_of_short h
  · rw [Word.unpack_of_prefix_pack hbegins]
    have hpart : (unpack (cut.drop (4 * (cut.length / 4)))).length ≤ 1 := by
      rw [Word.length_unpack, List.length_drop]
      omega
    refine .trans ?_ (List.take_prefix (cut.length / 4) _)
    match unpack (cut.drop (4 * (cut.length / 4))), hpart with
    | [], _ => simpa using List.dropLast_prefix _
    | [w], _ => simp
  · rw [Word.length_unpack]
    omega

/-- The packet that is read when the frame of `p` is cut short within its last word: zero bytes take
the place of those that are missing. -/
def filledUp (p : Packet) (cut : List UInt8) : Packet where
  dst := p.dst
  payload := p.words.dropLast ++ unpack (cut.drop (4 * (p.words.length + 2)))

theorem packets_unpack_of_cut_word {p : Packet} (h : p.payload.length < 2 ^ 32) {cut : List UInt8}
    (hbegins : cut <+: pack (ofPacket p)) (hshort : cut.length < (pack (ofPacket p)).length)
    (hlacks : (pack (ofPacket p)).length < cut.length + 4) :
    packets (unpack cut) = [filledUp p cut] := by
  have hpos : 0 < p.words.length := List.length_pos_iff.mpr p.words_ne_nil
  rw [Word.length_pack, length_ofPacket] at hshort hlacks
  have hwhole : cut.length / 4 = p.words.length + 2 := by omega
  have hlast : (unpack (cut.drop (4 * (p.words.length + 2)))).length = 1 := by
    rw [Word.length_unpack, List.length_drop]
    omega
  have hlength : (filledUp p cut).payload.length = p.words.length := by
    simp only [filledUp, List.length_append, List.length_dropLast, hlast]
    omega
  have hne : (filledUp p cut).payload ≠ [] := List.length_pos_iff.mp (by omega)
  have hwords : (filledUp p cut).words = (filledUp p cut).payload := Packet.words_of_ne_nil hne
  have hbound : (filledUp p cut).payload.length < 2 ^ 32 := by
    rw [hlength, ← Packet.toNat_length h]
    exact p.length.toNat_lt
  -- the words are the frame of another packet that is as long
  have hframe : unpack cut = ofPacket (filledUp p cut) := by
    have hfield : (filledUp p cut).length = p.length := by
      apply UInt32.toNat_inj.mp
      rw [Packet.toNat_length hbound, hwords, hlength, Packet.toNat_length h]
    have hwords' : p.words.length + 2 = p.words.length - 1 + 3 := by omega
    have htake : (ofPacket p).take (p.words.length + 2) =
        header p.dst p.length ++ p.words.dropLast := by
      rw [ofPacket_eq, List.dropLast_eq_take, hwords']
      rfl
    rw [Word.unpack_of_prefix_pack hbegins, hwhole, htake, ofPacket, hfield, hwords,
      List.append_assoc]
    rfl
  rw [hframe, ← List.append_nil (ofPacket _), packets_ofPacket_append hbound, normalize, hwords]
  simp [packets]

/-- **Every frame of a stream is read, and nothing else.** Whatever words without a preamble stand
around the frames, and whatever words their payloads and lengths are, the packets framed come back
in order, an empty payload as one zero word; a further frame that is cut short between two words
adds nothing. Words come back from their bytes, and bytes from their words with zero bytes behind
them, so the same is true of the bytes of a stream, except for a further frame that is cut short
within its last word: it adds one packet, with zero bytes for the missing ones. -/
theorem packets_resynchronized {runs : List (List Word × Packet)} {last : List Word}
    (hlength : ∀ run ∈ runs, run.2.payload.length < 2 ^ 32)
    (hskipped : ∀ run ∈ runs, preamble ∉ run.1) (hlast : preamble ∉ last) :
    let ws := stream runs last
    let ps := runs.map fun run => normalize run.2
    packets ws = ps ∧
      (∀ p : Packet, p.payload.length < 2 ^ 32 → ∀ cut, cut <+: ofPacket p → cut ≠ ofPacket p →
        packets (ws ++ cut) = ps) ∧
      (∀ words, unpack (pack words) = words) ∧
      (∀ bytes, pack (unpack bytes) =
        bytes ++ List.replicate ((4 - bytes.length % 4) % 4) 0) ∧
      packets (unpack (pack ws)) = ps ∧
      ∀ p : Packet, p.payload.length < 2 ^ 32 →
        ∀ cut, cut <+: pack (ofPacket p) → cut ≠ pack (ofPacket p) →
          packets (unpack (pack ws ++ cut)) =
            if cut.length + 4 ≤ (pack (ofPacket p)).length then ps else ps ++ [filledUp p cut] := by
  intro ws ps
  have happend (rest : List Word) : packets (ws ++ rest) = ps ++ packets rest :=
    packets_stream_append hlength hskipped hlast rest
  have hpackets : packets ws = ps := by simpa [packets] using happend []
  refine ⟨hpackets, fun p hp cut hbegins hne => ?_, Word.unpack_pack, Word.pack_unpack, ?_,
    fun p hp cut hbegins hne => ?_⟩
  · rw [happend, packets_of_cut hp hbegins hne, List.append_nil]
  · rw [Word.unpack_pack, hpackets]
  · have hshort : cut.length < (pack (ofPacket p)).length :=
      Nat.lt_of_le_of_ne hbegins.length_le fun heq => hne (hbegins.eq_of_length heq)
    rw [Word.unpack_pack_append, happend]
    split
    · next hlacks => rw [packets_unpack_of_cut hp hbegins hlacks, List.append_nil]
    · next hlacks => rw [packets_unpack_of_cut_word hp hbegins hshort (Nat.not_le.mp hlacks)]

/-- Frames between words that belong to none, the first with the header of a frame for its payload; a
third frame lacks a word, or only a byte. -/
theorem packets_resynchronized_nested :
    let runs := [([1, 2], { dst := 0, payload := [preamble, 0, 1] }),
      ([], { dst := 1, payload := [] })]
    let ws := stream runs [3]
    let p : Packet := { dst := 2, payload := [0x12345678] }
    packets ws = [{ dst := 0, payload := [preamble, 0, 1] }, { dst := 1, payload := [0] }] ∧
      packets (ws ++ (ofPacket p).dropLast) = packets ws ∧
      packets (unpack (pack ws ++ (pack (ofPacket p)).dropLast)) =
        packets ws ++ [{ dst := 2, payload := [0x12345600] }] := by
  intro runs ws p
  obtain ⟨hpackets, hcut, -, -, -, hbytes⟩ := @packets_resynchronized runs [3]
    (by decide) (by decide) (by decide)
  have hadded :=
    hbytes p (by decide) (pack (ofPacket p)).dropLast (List.dropLast_prefix _) (by decide)
  rw [if_neg (by decide), ← hpackets] at hadded
  refine ⟨hpackets, ?_, hadded⟩
  rw [hcut p (by decide) (ofPacket p).dropLast (List.dropLast_prefix _) (by decide), ← hpackets]

/-- Bytes that end within the last word of a further frame do add a packet. -/
theorem packets_unpack_dropLast :
    let ws := stream [([], { dst := 0, payload := [7] })] []
    let p : Packet := { dst := 1, payload := [0x12345678] }
    let cut := (pack (ofPacket p)).dropLast
    cut <+: pack (ofPacket p) ∧ cut ≠ pack (ofPacket p) ∧
      packets (unpack (pack ws)) = [{ dst := 0, payload := [7] }] ∧
      packets (unpack (pack ws ++ cut)) =
        [{ dst := 0, payload := [7] }, { dst := 1, payload := [0x12345600] }] := by
  intro ws p cut
  have hbegins : cut <+: pack (ofPacket p) := List.dropLast_prefix _
  have happend (rest : List Word) :
      packets (ws ++ rest) = { dst := 0, payload := [7] } :: packets rest :=
    packets_stream_append (by decide) (by decide) (by decide) rest
  refine ⟨hbegins, by decide, ?_, ?_⟩
  · rw [Word.unpack_pack, ← List.append_nil ws, happend, packets]
  · rw [Word.unpack_pack_append, happend,
      packets_unpack_of_cut_word (by decide) hbegins (by decide) (by decide)]
    rfl

end LinkBridge.Frame
