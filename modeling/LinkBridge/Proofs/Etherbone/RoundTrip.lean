import LinkBridge.Etherbone.Packet
import LinkBridge.Proofs.Checks
import LinkBridge.Proofs.Word

/-!
# LinkBridge.Proofs.Etherbone.RoundTrip

The codec of Etherbone packets in both directions. What is read back from the words of a packet is
what its format has room for (`Packet.kept`): the low four flags, and of each section as many words
as its counter says, or nothing at all for a counter of zero. So a packet survives exactly when it
`Fits`. In the other direction every section that is read is written again as it was, and so is
every packet, apart from the version and the padding, which are not looked at when it is read.

Main statement: `packet_codec`.
-/

namespace LinkBridge.Etherbone

/-! ## sections -/

namespace Section

/-- Whether the counter of a section counts its words, and nothing else is to be written. -/
structure Fits (s : Section) : Prop where
  length : s.words.length ≤ 255
  base : s.words = [] → s.base = 0

/-- What the format has room for. -/
def kept (s : Section) : Section :=
  if s.count = 0 then {} else { base := s.base, words := s.words.take s.count }

theorem count_lt (s : Section) : s.count < 256 :=
  Nat.mod_lt _ (by decide)

theorem count_le (s : Section) : s.count ≤ s.words.length :=
  Nat.mod_le _ _

theorem length_encode (s : Section) : s.encode.length = span s.count := by
  unfold encode span
  split
  · rfl
  · rw [List.length_cons, List.length_take, Nat.min_eq_left s.count_le]

theorem length_encode_le (s : Section) : s.encode.length ≤ s.words.length + 1 := by
  have hcount := s.count_le
  rw [length_encode, span]
  split <;> omega

/-- A section is read back, whatever follows it. -/
theorem decode_encode (s : Section) (rest : List Word) :
    decode s.count (s.encode ++ rest) = .ok s.kept := by
  have hcount := s.count_le
  unfold decode encode kept
  split
  · rfl
  · have hlong : ¬ (s.base :: s.words.take s.count ++ rest).length < s.count + 1 := by
      simp only [List.length_append, List.length_cons, List.length_take]
      omega
    have htake : (s.words.take s.count).length = s.count := by
      rw [List.length_take, Nat.min_eq_left hcount]
    rw [if_neg hlong]
    simp only [List.cons_append, List.headD_cons, List.drop_succ_cons, List.drop_zero]
    rw [List.take_left' htake]

theorem drop_encode (s : Section) (rest : List Word) :
    (s.encode ++ rest).drop (span s.count) = rest :=
  List.drop_left' s.length_encode

/-- A section survives exactly when it fits. -/
theorem kept_eq_iff (s : Section) : s.kept = s ↔ s.Fits := by
  obtain ⟨base, words⟩ := s
  unfold kept
  split
  · next hcount =>
    have hcount : words.length % 256 = 0 := hcount
    constructor
    · intro h
      obtain ⟨rfl, rfl⟩ := Section.mk.inj h
      exact ⟨Nat.zero_le _, fun _ => rfl⟩
    · rintro ⟨hlength, hbase⟩
      obtain rfl : words = [] := List.length_eq_zero_iff.mp (by simp only at hlength; omega)
      obtain rfl : base = 0 := hbase rfl
      rfl
  · next hcount =>
    have hcount : words.length % 256 ≠ 0 := hcount
    have hne : words ≠ [] := by
      rintro rfl
      exact hcount rfl
    constructor
    · intro h
      have htake : words.take (words.length % 256) = words := congrArg Section.words h
      have hlength := congrArg List.length htake
      rw [List.length_take] at hlength
      exact ⟨by simp only; omega, fun hnil => absurd hnil hne⟩
    · rintro ⟨hlength, -⟩
      have hsame : words.length % 256 = words.length :=
        Nat.mod_eq_of_lt (by simp only at hlength; omega)
      simp only [count, hsame, List.take_length]

/-- **A section that is read is written again as it was.** -/
theorem encode_of_decode {n : Nat} {words : List Word} {s : Section} (hn : n < 256)
    (h : decode n words = .ok s) :
    s.count = n ∧ s.encode ++ words.drop (span n) = words := by
  unfold decode at h
  unfold span
  split at h
  · next hzero =>
    obtain rfl := Except.ok.inj h
    exact ⟨hzero.symm, by rw [if_pos hzero]; rfl⟩
  · next hzero =>
    split at h
    · contradiction
    · next hlong =>
      obtain rfl := Except.ok.inj h
      cases words with
      | nil => simp at hlong
      | cons base rest =>
          rw [List.length_cons] at hlong
          have hcount : count ⟨base, rest.take n⟩ = n := by
            rw [count, List.length_take, Nat.min_eq_left (by omega), Nat.mod_eq_of_lt hn]
          refine ⟨hcount, ?_⟩
          show encode ⟨base, rest.take n⟩ ++ _ = _
          rw [encode, hcount, if_neg hzero, if_neg hzero, List.take_take, Nat.min_self,
            List.drop_succ_cons, List.cons_append, List.take_append_drop]

end Section

/-! ## records -/

namespace Record

/-- Whether both sections of a record fit. -/
structure Fits (r : Record) : Prop where
  writes : r.writes.Fits
  reads : r.reads.Fits

/-- What the format has room for. -/
def kept (r : Record) : Record :=
  { r with writes := r.writes.kept, reads := r.reads.kept }

theorem kept_eq_iff (r : Record) : r.kept = r ↔ r.Fits := by
  constructor
  · intro h
    exact ⟨r.writes.kept_eq_iff.mp (congrArg Record.writes h),
      r.reads.kept_eq_iff.mp (congrArg Record.reads h)⟩
  · rintro ⟨hwrites, hreads⟩
    rw [kept, r.writes.kept_eq_iff.mpr hwrites, r.reads.kept_eq_iff.mpr hreads]

/-- The first word of a record. -/
def head (r : Record) : Word :=
  UInt32.ofNat (r.flags.toNat <<< 24 + r.byteEnable.toNat <<< 16 + r.writes.count <<< 8
    + r.reads.count)

/-- The fields of the first word are read back. -/
theorem field_head (r : Record) :
    Word.field r.head 8 8 = r.writes.count ∧ Word.field r.head 0 8 = r.reads.count ∧
      UInt8.ofNat (Word.field r.head 24 8) = r.flags ∧
      UInt8.ofNat (Word.field r.head 16 8) = r.byteEnable := by
  have hflags := r.flags.toNat_lt
  have henable := r.byteEnable.toNat_lt
  have hwrites := r.writes.count_lt
  have hreads := r.reads.count_lt
  simp only [head, Word.field_eq, ← UInt8.toNat_inj, UInt8.toNat_ofNat', UInt32.toNat_ofNat',
    Nat.shiftLeft_eq]
  omega

/-- The words of records, one record at a time. -/
theorem flatMap_encode_cons (r : Record) (rs : List Record) :
    (r :: rs).flatMap encode =
      r.head :: (r.writes.encode ++ (r.reads.encode ++ rs.flatMap encode)) := by
  rw [List.flatMap_cons, ← List.append_assoc]
  rfl

/-- **Records are read back one after the other**, as far as the format has room for them. -/
theorem decodeAll_encode (rs : List Record) :
    decodeAll (rs.flatMap encode) = .ok (rs.map kept) := by
  induction rs with
  | nil => simp [decodeAll]
  | cons r rs ih =>
      obtain ⟨hwrites, hreads, hflags, henable⟩ := r.field_head
      rw [flatMap_encode_cons, decodeAll, hwrites, hreads, r.writes.decode_encode,
        r.writes.drop_encode]
      simp only [bind, Except.bind]
      rw [r.reads.decode_encode, r.reads.drop_encode]
      simp only [ih, hflags, henable]
      rfl

/-- The first word made of the fields that were read. -/
theorem ofNat_fields (w : Word) :
    UInt32.ofNat ((UInt8.ofNat (Word.field w 24 8)).toNat <<< 24
      + (UInt8.ofNat (Word.field w 16 8)).toNat <<< 16 + Word.field w 8 8 <<< 8
      + Word.field w 0 8) = w := by
  have hw := w.toNat_lt
  apply UInt32.toNat_inj.mp
  simp only [Word.field_eq, UInt8.toNat_ofNat', UInt32.toNat_ofNat', Nat.shiftLeft_eq]
  omega

/-- What is read of a record, and what is left to read behind it. -/
theorem exists_of_decodeAll_cons {w : Word} {rest : List Word} {rs : List Record}
    (h : decodeAll (w :: rest) = .ok rs) :
    ∃ r others, rs = r :: others ∧
      Section.decode (Word.field w 8 8) rest = .ok r.writes ∧
      Section.decode (Word.field w 0 8) (rest.drop (Section.span (Word.field w 8 8))) =
        .ok r.reads ∧
      decodeAll ((rest.drop (Section.span (Word.field w 8 8))).drop
        (Section.span (Word.field w 0 8))) = .ok others ∧
      r.flags = UInt8.ofNat (Word.field w 24 8) ∧
      r.byteEnable = UInt8.ofNat (Word.field w 16 8) := by
  rw [decodeAll] at h
  obtain ⟨writes, hwrites, h⟩ := bind_eq_ok_iff.mp h
  obtain ⟨reads, hreads, h⟩ := bind_eq_ok_iff.mp h
  obtain ⟨others, hothers, h⟩ := bind_eq_ok_iff.mp h
  exact ⟨_, others, (Except.ok.inj h).symm, hwrites, hreads, hothers, rfl, rfl⟩

/-- **Records that are read are written again as they were.** -/
theorem encode_of_decodeAll (words : List Word) :
    ∀ rs, decodeAll words = .ok rs → rs.flatMap encode = words := by
  induction words using decodeAll.induct with
  | case1 =>
      intro rs h
      rw [decodeAll] at h
      obtain rfl := Except.ok.inj h
      rfl
  | case2 w rest writeCount readCount ih =>
      intro rs h
      obtain ⟨r, others, rfl, hwrites, hreads, hothers, hflags, henable⟩ :=
        exists_of_decodeAll_cons h
      obtain ⟨hwriteCount, hwritten⟩ := Section.encode_of_decode (Word.field_lt w 8 8) hwrites
      obtain ⟨hreadCount, hread⟩ := Section.encode_of_decode (Word.field_lt w 0 8) hreads
      rw [flatMap_encode_cons, head, hflags, henable, hwriteCount, hreadCount, ofNat_fields,
        ih others hothers, hread, hwritten]

end Record

/-! ## packets -/

namespace Packet

/-- Whether a packet has no more flags than four, and its records fit. -/
structure Fits (p : Packet) : Prop where
  flags : p.flags < 16
  records : ∀ r ∈ p.records, r.Fits

/-- What the format has room for. -/
def kept (p : Packet) : Packet :=
  { flags := p.flags % 16, records := p.records.map Record.kept }

/-- A packet survives exactly when it fits. -/
theorem kept_eq_iff (p : Packet) : p.kept = p ↔ p.Fits := by
  have hflags : p.flags % 16 = p.flags ↔ p.flags < 16 := by
    rw [← UInt8.toNat_inj, UInt8.toNat_mod, UInt8.lt_iff_toNat_lt]
    exact Nat.mod_eq_iff_lt (by decide)
  have hrecords : p.records.map Record.kept = p.records ↔ ∀ r ∈ p.records, r.Fits := by
    simp only [← Record.kept_eq_iff]
    exact ⟨fun h r hr => List.map_inj_left.mp (h.trans (List.map_id _).symm) r hr,
      fun h => (List.map_congr_left h).trans (List.map_id _)⟩
  constructor
  · intro h
    exact ⟨hflags.mp (congrArg Packet.flags h), hrecords.mp (congrArg Packet.records h)⟩
  · rintro ⟨hlow, hfit⟩
    rw [kept, hflags.mpr hlow, hrecords.mpr hfit]

/-- The fields of the first word are read back. -/
theorem field_head (flags : UInt8) :
    let head := UInt32.ofNat (magic <<< 16 + version <<< 12 + (flags.toNat % 16) <<< 8 + sizes)
    Word.field head 16 16 = magic ∧ Word.field head 0 8 = sizes ∧
      UInt8.ofNat (Word.field head 8 4) = flags % 16 := by
  have hlow : (flags % 16).toNat = flags.toNat % 16 := UInt8.toNat_mod flags 16
  simp only [magic, version, sizes, Word.field_eq, ← UInt8.toNat_inj, hlow, UInt8.toNat_ofNat',
    UInt32.toNat_ofNat', Nat.shiftLeft_eq]
  omega

/-- **A packet is read back as far as the format has room for it.** -/
theorem decode_encode (p : Packet) : decode p.encode = .ok p.kept := by
  obtain ⟨hmagic, hsizes, hflags⟩ := field_head p.flags
  simp only [encode, decode, hmagic, hsizes, hflags, Record.decodeAll_encode]
  rfl

/-- The first word of a packet that is read, apart from the version. -/
theorem ofNat_fields {head : Word} (hmagic : Word.field head 16 16 = magic)
    (hsizes : Word.field head 0 8 = sizes) :
    UInt32.ofNat (magic <<< 16 + version <<< 12
      + ((UInt8.ofNat (Word.field head 8 4)).toNat % 16) <<< 8 + sizes) =
      (head &&& 0xFFFF0FFF ||| 0x1000) := by
  have hhead := head.toNat_lt
  have hkeep : head.toNat &&& (0xFFFF0FFF : UInt32).toNat ||| (0x1000 : UInt32).toNat = _ :=
    Word.and_keep_or head.toNat 16 16 12 (by decide)
  simp only [magic, sizes, Word.field_eq] at hmagic hsizes
  apply UInt32.toNat_inj.mp
  simp only [magic, version, sizes, Word.field_eq, UInt32.toNat_or, UInt32.toNat_and, hkeep,
    UInt8.toNat_ofNat', UInt32.toNat_ofNat', Nat.shiftLeft_eq]
  omega

/-- What is read of a packet. -/
theorem exists_of_decode {words : List Word} {p : Packet} (h : decode words = .ok p) :
    ∃ head padding rest, words = head :: padding :: rest ∧
      Word.field head 16 16 = magic ∧ Word.field head 0 8 = sizes ∧
      Record.decodeAll rest = .ok p.records ∧ p.flags = UInt8.ofNat (Word.field head 8 4) := by
  match words with
  | [] => contradiction
  | [_] => contradiction
  | head :: padding :: rest =>
      rw [decode] at h
      split at h
      · contradiction
      · next hmagic =>
        split at h
        · contradiction
        · next hsizes =>
          obtain ⟨records, hrecords, h⟩ := bind_eq_ok_iff.mp h
          obtain rfl := Except.ok.inj h
          exact ⟨head, padding, rest, rfl, Decidable.not_not.mp hmagic,
            Decidable.not_not.mp hsizes, hrecords, rfl⟩

/-- **A packet that is read is written again as it was**, with the version of this library and
without padding. -/
theorem encode_of_decode {words : List Word} {p : Packet} (h : decode words = .ok p) :
    ∃ head padding rest, words = head :: padding :: rest ∧
      p.encode = (head &&& 0xFFFF0FFF ||| 0x1000) :: 0 :: rest := by
  obtain ⟨head, padding, rest, rfl, hmagic, hsizes, hrecords, hflags⟩ := exists_of_decode h
  refine ⟨head, padding, rest, rfl, ?_⟩
  rw [encode, Record.encode_of_decodeAll rest p.records hrecords, hflags,
    ofNat_fields hmagic hsizes]

/-- **The codec of Etherbone packets, both ways.** A packet survives exactly when it has no more
than four flags, each of its sections has at most 255 words, and the empty ones have no base
address. A packet that is read is written as it was, with version 1 and without padding. -/
theorem packet_codec :
    (∀ p : Packet, decode p.encode = .ok p ↔
      p.flags < 16 ∧ ∀ r ∈ p.records,
        (r.writes.words.length ≤ 255 ∧ (r.writes.words = [] → r.writes.base = 0)) ∧
          r.reads.words.length ≤ 255 ∧ (r.reads.words = [] → r.reads.base = 0)) ∧
      ∀ words p, decode words = .ok p →
        ∃ head padding rest, words = head :: padding :: rest ∧
          p.encode = (head &&& 0xFFFF0FFF ||| 0x1000) :: 0 :: rest := by
  refine ⟨fun p => ?_, fun words p => encode_of_decode⟩
  rw [decode_encode, Except.ok.injEq, kept_eq_iff]
  constructor
  · rintro ⟨hflags, hrecords⟩
    refine ⟨hflags, fun r hr => ?_⟩
    obtain ⟨hwrites, hreads⟩ := hrecords r hr
    exact ⟨⟨hwrites.length, hwrites.base⟩, hreads.length, hreads.base⟩
  · rintro ⟨hflags, hrecords⟩
    refine ⟨hflags, fun r hr => ?_⟩
    obtain ⟨⟨hwrites, hbase⟩, hreads, hreturn⟩ := hrecords r hr
    exact ⟨⟨hwrites, hbase⟩, ⟨hreads, hreturn⟩⟩

/-- A section of 256 words has a counter of zero, so nothing of it is written. -/
example : (Section.mk 0x1000 (List.replicate 256 7)).encode = [] := by decide +kernel

end Packet

end LinkBridge.Etherbone
