import LinkBridge.Proofs.Tlp.Codec
import Mathlib.Data.Nat.Bitwise

/-!
# LinkBridge.Proofs.Tlp.RoundTrip

The codec of TLPs in both directions. A TLP survives its dwords, and its beats, exactly when it has
the data dwords its header announces and every field has its width on the wire. In the other
direction, a run of dwords is read exactly when it is `WellFormed`, and writing what was read gives
the run back with only the bits cleared that belong to no field (`cleared`).

Main statement: `record_codec`.
-/

namespace LinkBridge

namespace Tlp

namespace Header

/-! ## what is read -/

/-- The formats and types of the kinds of TLP. -/
def formats : List (Nat × Nat) :=
  [(0b00, 0b00000), (0b10, 0b00000), (0b00, 0b01010), (0b10, 0b01010)]

/-- The format and the type in the first dword of a TLP. -/
def formatOf (dw0 : Word) : Nat × Nat :=
  (Word.field dw0 29 2, Word.field dw0 24 5)

/-- The data dwords that the first dword of a TLP announces. -/
def announced (dw0 : Word) : Nat :=
  if (formatOf dw0).1 = 0b00 then 0
  else if Word.field dw0 0 10 = 0 then 1024
  else Word.field dw0 0 10

/-- The dwords of a TLP with the bits cleared that belong to no field: bits 31 and 23–10 of the
first, and of the third bits 1–0 in a request and bit 7 in a completion. -/
def cleared : List Word → List Word
  | dw0 :: dw1 :: dw2 :: data =>
    (dw0 &&& 0x7F0003FF) :: dw1
      :: (dw2 &&& if (formatOf dw0).2 = 0b00000 then 0xFFFFFFFC else 0xFFFFFF7F) :: data
  | short => short

theorem format_mem_formats (h : Header) : h.format ∈ formats := by
  cases h <;> simp [format, formats]

/-- The length field that was read counts the dwords it counts on the wire. -/
theorem dwordCount_read (dw0 : Word) :
    dwordCount (UInt16.ofNat (Word.field dw0 0 10))
      = if Word.field dw0 0 10 = 0 then 1024 else Word.field dw0 0 10 := by
  have hlt : Word.field dw0 0 10 < 1024 := Word.field_lt dw0 0 10
  rw [dwordCount, UInt16.toNat_ofNat', Nat.mod_eq_of_lt (by omega : _ < 2 ^ 16),
    Nat.mod_eq_of_lt hlt]

/-- The first dword written for the kind and the length that were read. -/
theorem encode_kind {dw0 : Word} {fmt type : Nat} (hformat : formatOf dw0 = (fmt, type)) :
    UInt32.ofNat (fmt <<< 29 + type <<< 24
        + (UInt16.ofNat (Word.field dw0 0 10)).toNat % 1024) = dw0 &&& 0x7F0003FF := by
  obtain ⟨rfl, rfl⟩ := Prod.mk.inj hformat
  have hkeep : dw0.toNat &&& (0x7F0003FF : UInt32).toNat = _ :=
    Word.and_keep dw0.toNat 24 7 10 (by decide)
  apply UInt32.toNat_inj.mp
  simp only [UInt32.toNat_and, hkeep, Word.field_eq, UInt32.toNat_ofNat', UInt16.toNat_ofNat']
  omega

/-- The dwords written for a request that was read. -/
theorem encodeRequest_decodeRequest (dw0 dw1 dw2 : Word) :
    encodeRequest (decodeRequest dw0 dw1 dw2) = [dw1, dw2 &&& 0xFFFFFFFC] := by
  have hdw1 := dw1.toNat_lt
  have hdw2 := dw2.toNat_lt
  have hkeep : dw2.toNat &&& (0xFFFFFFFC : UInt32).toNat = _ :=
    Word.and_keep dw2.toNat 2 30 0 (by decide)
  simp only [encodeRequest, decodeRequest, List.cons.injEq, and_true, ← UInt32.toNat_inj,
    UInt32.toNat_and, hkeep, Word.field_eq, UInt32.toNat_ofNat', UInt16.toNat_ofNat',
    UInt8.toNat_ofNat']
  omega

/-- The dwords written for a completion that was read. -/
theorem encodeCompletion_decodeCompletion (dw0 dw1 dw2 : Word) :
    encodeCompletion (decodeCompletion dw0 dw1 dw2) = [dw1, dw2 &&& 0xFFFFFF7F] := by
  have hdw1 := dw1.toNat_lt
  have hdw2 := dw2.toNat_lt
  have hkeep : dw2.toNat &&& (0xFFFFFF7F : UInt32).toNat = _ :=
    Word.and_keep dw2.toNat 8 24 7 (by decide)
  have hbcm (n : Nat) : (n % 2 ^ 1 != 0).toNat = n % 2 := by
    rcases Nat.mod_two_eq_zero_or_one n with h | h <;> simp [h]
  simp only [encodeCompletion, decodeCompletion, List.cons.injEq, and_true, ← UInt32.toNat_inj,
    UInt32.toNat_and, hkeep, Word.field_eq, hbcm, UInt32.toNat_ofNat', UInt16.toNat_ofNat',
    UInt8.toNat_ofNat']
  omega

/-- A header that is read has the kind its first dword names. -/
theorem cases_of_decode {dw0 dw1 dw2 : Word} {data : List Word} {h : Header}
    (hdecode : decode (dw0 :: dw1 :: dw2 :: data) = .ok h) :
    (formatOf dw0 = (0b00, 0b00000) ∧ h = memRead (decodeRequest dw0 dw1 dw2)) ∨
      (formatOf dw0 = (0b10, 0b00000) ∧ h = memWrite (decodeRequest dw0 dw1 dw2)) ∨
      (formatOf dw0 = (0b00, 0b01010) ∧ h = completion (decodeCompletion dw0 dw1 dw2)) ∨
      (formatOf dw0 = (0b10, 0b01010) ∧ h = completionWithData (decodeCompletion dw0 dw1 dw2)) := by
  simp only [decode] at hdecode
  simp only [formatOf, Prod.mk.injEq]
  split at hdecode <;> simp_all

/-- **A header that is read is written again with only the bits cleared that belong to no field**;
it has the kind and announces the data dwords that the first dword says. -/
theorem encode_of_decode {dw0 dw1 dw2 : Word} {data : List Word} {h : Header}
    (hdecode : decode (dw0 :: dw1 :: dw2 :: data) = .ok h) :
    formatOf dw0 = h.format ∧ h.dataDwords = announced dw0 ∧
      h.encode ++ data = cleared (dw0 :: dw1 :: dw2 :: data) := by
  rcases cases_of_decode hdecode with
    ⟨hformat, rfl⟩ | ⟨hformat, rfl⟩ | ⟨hformat, rfl⟩ | ⟨hformat, rfl⟩
  all_goals
    refine ⟨hformat, ?_, ?_⟩
    · simp [dataDwords, length, decodeRequest, decodeCompletion, announced, hformat,
        dwordCount_read]
    · simp only [encode, format, length, cleared, hformat, encodeRequest_decodeRequest,
        encodeCompletion_decodeCompletion, List.cons_append, List.nil_append]
      exact congrArg (· :: _) (encode_kind hformat)

/-- Three dwords of a known kind are read as a header. -/
theorem exists_decode_of_format {dw0 : Word} (hformat : formatOf dw0 ∈ formats) (dw1 dw2 : Word)
    (data : List Word) : ∃ h, decode (dw0 :: dw1 :: dw2 :: data) = .ok h := by
  simp only [formats, List.mem_cons, List.not_mem_nil, or_false, formatOf, Prod.mk.injEq] at hformat
  rcases hformat with ⟨hfmt, htype⟩ | ⟨hfmt, htype⟩ | ⟨hfmt, htype⟩ | ⟨hfmt, htype⟩ <;>
    simp [decode, hfmt, htype]

end Header

namespace Record

/-! ## both directions -/

/-- Whether a run of dwords is a TLP: a header of a known kind, and behind it as many data dwords
as the header announces. -/
def WellFormed (ws : List Word) : Prop :=
  ∃ dw0 dw1 dw2 data, ws = dw0 :: dw1 :: dw2 :: data ∧
    Header.formatOf dw0 ∈ Header.formats ∧ data.length = Header.announced dw0

/-- A TLP reads back exactly when it has the data its header announces and its fields fit. -/
theorem ofDwords_toDwords_iff (r : Record) :
    ofDwords r.toDwords = .ok r ↔ r.data.length = r.header.dataDwords ∧ r.header.Fits := by
  constructor
  · intro h
    obtain ⟨hfits, hlength⟩ := fits_of_ofDwords h
    rw [toDwords, List.length_append, Header.length_encode] at hlength
    exact ⟨Nat.add_left_cancel hlength, hfits⟩
  · rintro ⟨hdata, hfits⟩
    exact ofDwords_toDwords hfits hdata

/-- A run of dwords is read exactly when it is well-formed. -/
theorem exists_ofDwords_iff (ws : List Word) : (∃ r, ofDwords ws = .ok r) ↔ WellFormed ws := by
  constructor
  · rintro ⟨r, h⟩
    obtain ⟨dw0, dw1, dw2, rfl, hdecode, hdata⟩ := decode_of_ofDwords h
    obtain ⟨hformat, hannounced, -⟩ := Header.encode_of_decode hdecode
    exact ⟨dw0, dw1, dw2, r.data, rfl, hformat ▸ r.header.format_mem_formats, hannounced ▸ hdata⟩
  · rintro ⟨dw0, dw1, dw2, data, rfl, hformat, hdata⟩
    obtain ⟨header, hdecode⟩ := Header.exists_decode_of_format hformat dw1 dw2 data
    obtain ⟨-, hannounced, -⟩ := Header.encode_of_decode hdecode
    have hlength : (dw0 :: dw1 :: dw2 :: data).length = Header.size + header.dataDwords := by
      simp only [List.length_cons, Header.size, hannounced, hdata]
      omega
    refine ⟨{ header, data }, ?_⟩
    simp only [ofDwords, hdecode, bind, Except.bind, if_pos hlength]
    rfl

/-- Writing what was read clears the bits that belong to no field, and changes nothing else. -/
theorem toDwords_of_ofDwords {ws : List Word} {r : Record} (h : ofDwords ws = .ok r) :
    r.toDwords = Header.cleared ws := by
  obtain ⟨dw0, dw1, dw2, rfl, hdecode, -⟩ := decode_of_ofDwords h
  exact (Header.encode_of_decode hdecode).2.2

/-- **The codec of TLPs, both ways.** A TLP survives its dwords, and its beats, exactly when it has
the data dwords its header announces and every field has its width on the wire. A run of dwords is
read exactly when it is well-formed, and the TLP that is read survives and is written as the run
with the bits cleared that belong to no field. -/
theorem record_codec :
    (∀ r : Record,
      (ofDwords r.toDwords = .ok r ↔ r.data.length = r.header.dataDwords ∧ r.header.Fits) ∧
        (ofBeats r.toBeats = .ok r ↔ r.data.length = r.header.dataDwords ∧ r.header.Fits)) ∧
      ∀ ws : List Word,
        ((∃ r, ofDwords ws = .ok r) ↔ WellFormed ws) ∧
          ∀ r, ofDwords ws = .ok r →
            (r.data.length = r.header.dataDwords ∧ r.header.Fits) ∧
              r.toDwords = Header.cleared ws := by
  refine ⟨fun r => ⟨ofDwords_toDwords_iff r, ?_⟩, fun ws => ⟨exists_ofDwords_iff ws, ?_⟩⟩
  · rw [ofBeats_toBeats]
    exact ofDwords_toDwords_iff r
  · intro r h
    obtain ⟨-, -, -, -, -, hdata⟩ := decode_of_ofDwords h
    exact ⟨⟨hdata, (fits_of_ofDwords h).1⟩, toDwords_of_ofDwords h⟩

end Record

end Tlp

end LinkBridge
