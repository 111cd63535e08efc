import LinkBridge.Proofs.Word
import LinkBridge.Tlp.Record

/-!
# LinkBridge.Proofs.Tlp.Codec

TLPs on the wire. A header whose fields have the width they have on the wire (`Header.Fits`) reads
back unchanged, whatever follows it, and every header that is read is of this kind. So a TLP with as
many data dwords as its header announces reads back too (`Record.ofDwords_toDwords`).
-/

namespace LinkBridge

namespace Tlp

/-! ## fields -/

/-- Whether every field of a request has its width on the wire. -/
structure Request.Fits (r : Request) : Prop where
  length : r.length.toNat < 1024
  firstEnable : r.firstEnable.toNat < 16
  lastEnable : r.lastEnable.toNat < 16
  address : r.address.toNat % 4 = 0

/-- Whether every field of a completion has its width on the wire. -/
structure Completion.Fits (c : Completion) : Prop where
  length : c.length.toNat < 1024
  status : c.status.toNat < 8
  byteCount : c.byteCount.toNat < 4096
  lowerAddress : c.lowerAddress.toNat < 128

namespace Header

/-- Whether every field of a header has its width on the wire. -/
def Fits : Header → Prop
  | memRead r | memWrite r => r.Fits
  | completion c | completionWithData c => c.Fits

/-- The dwords of a request read back as the request. -/
theorem decodeRequest_encodeRequest {r : Request} (h : r.Fits) {dw0 : Word}
    (hlength : Word.field dw0 0 10 = r.length.toNat) :
    ∃ dw1 dw2, encodeRequest r = [dw1, dw2] ∧ decodeRequest dw0 dw1 dw2 = r := by
  obtain ⟨-, hfirst, hlast, haddress⟩ := h
  have hlength' := r.length.toNat_lt
  have hrequester := r.requester.toNat_lt
  have htag := r.tag.toNat_lt
  have hlt := r.address.toNat_lt
  refine ⟨_, _, rfl, ?_⟩
  obtain ⟨length, requester, tag, firstEnable, lastEnable, address⟩ := r
  simp only [decodeRequest, hlength, Request.mk.injEq, ← UInt16.toNat_inj, ← UInt8.toNat_inj,
    ← UInt32.toNat_inj, Word.field_eq, UInt16.toNat_ofNat', UInt8.toNat_ofNat',
    UInt32.toNat_ofNat'] at *
  omega

/-- The dwords of a completion read back as the completion. -/
theorem decodeCompletion_encodeCompletion {c : Completion} (h : c.Fits) {dw0 : Word}
    (hlength : Word.field dw0 0 10 = c.length.toNat) :
    ∃ dw1 dw2, encodeCompletion c = [dw1, dw2] ∧ decodeCompletion dw0 dw1 dw2 = c := by
  obtain ⟨-, hstatus, hbyteCount, hlower⟩ := h
  have hlength' := c.length.toNat_lt
  have hcompleter := c.completer.toNat_lt
  have hrequester := c.requester.toNat_lt
  have htag := c.tag.toNat_lt
  refine ⟨_, _, rfl, ?_⟩
  obtain ⟨length, completer, status, bcm, byteCount, requester, tag, lowerAddress⟩ := c
  simp only [decodeCompletion, hlength, Completion.mk.injEq, ← UInt16.toNat_inj, ← UInt8.toNat_inj,
    Word.field_eq, UInt16.toNat_ofNat', UInt8.toNat_ofNat', UInt32.toNat_ofNat'] at *
  cases bcm <;>
    simp only [Bool.toNat_false, Bool.toNat_true, Nat.pow_one, Nat.mod_two_bne_zero,
      beq_eq_false_iff_ne, beq_iff_eq] <;>
    omega

/-- The first dword of a header. -/
theorem exists_kind (fmt type : Nat) (hfmt : fmt < 4) (htype : type < 32) {length : UInt16}
    (hlength : length.toNat < 1024) :
    ∃ dw0, UInt32.ofNat (fmt <<< 29 + type <<< 24 + length.toNat % 1024) = dw0 ∧
      Word.field dw0 29 2 = fmt ∧ Word.field dw0 24 5 = type ∧
      Word.field dw0 0 10 = length.toNat := by
  refine ⟨_, rfl, ?_⟩
  simp only [Word.field_eq, UInt32.toNat_ofNat']
  omega

/-- **A header reads back unchanged**, whatever follows it. -/
theorem decode_encode {h : Header} (hfits : h.Fits) (rest : List Word) :
    decode (h.encode ++ rest) = .ok h := by
  cases h with
  | memRead r =>
      obtain ⟨dw0, hkind, hfmt, htype, hdw0⟩ :=
        exists_kind 0b00 0b00000 (by decide) (by decide) hfits.length
      obtain ⟨dw1, dw2, hencode, hdecode⟩ := decodeRequest_encodeRequest hfits hdw0
      simp only [encode, format, length, hkind, hencode, List.cons_append, decode, hfmt, htype,
        hdecode]
  | memWrite r =>
      obtain ⟨dw0, hkind, hfmt, htype, hdw0⟩ :=
        exists_kind 0b10 0b00000 (by decide) (by decide) hfits.length
      obtain ⟨dw1, dw2, hencode, hdecode⟩ := decodeRequest_encodeRequest hfits hdw0
      simp only [encode, format, length, hkind, hencode, List.cons_append, decode, hfmt, htype,
        hdecode]
  | completion c =>
      obtain ⟨dw0, hkind, hfmt, htype, hdw0⟩ :=
        exists_kind 0b00 0b01010 (by decide) (by decide) hfits.length
      obtain ⟨dw1, dw2, hencode, hdecode⟩ := decodeCompletion_encodeCompletion hfits hdw0
      simp only [encode, format, length, hkind, hencode, List.cons_append, decode, hfmt, htype,
        hdecode]
  | completionWithData c =>
      obtain ⟨dw0, hkind, hfmt, htype, hdw0⟩ :=
        exists_kind 0b10 0b01010 (by decide) (by decide) hfits.length
      obtain ⟨dw1, dw2, hencode, hdecode⟩ := decodeCompletion_encodeCompletion hfits hdw0
      simp only [encode, format, length, hkind, hencode, List.cons_append, decode, hfmt, htype,
        hdecode]

theorem fits_decodeRequest (dw0 dw1 dw2 : Word) : (decodeRequest dw0 dw1 dw2).Fits := by
  constructor <;>
    simp only [decodeRequest, Word.field_eq, UInt16.toNat_ofNat', UInt8.toNat_ofNat',
      UInt32.toNat_ofNat'] <;>
    omega

theorem fits_decodeCompletion (dw0 dw1 dw2 : Word) : (decodeCompletion dw0 dw1 dw2).Fits := by
  constructor <;>
    simp only [decodeCompletion, Word.field_eq, UInt16.toNat_ofNat', UInt8.toNat_ofNat'] <;>
    omega

/-- The fields of a header that was read have the width they have on the wire. -/
theorem fits_of_decode {ws : List Word} {h : Header} (hdecode : decode ws = .ok h) : h.Fits := by
  unfold decode at hdecode
  split at hdecode
  · split at hdecode
    · rw [← Except.ok.inj hdecode]
      exact fits_decodeRequest ..
    · rw [← Except.ok.inj hdecode]
      exact fits_decodeRequest ..
    · rw [← Except.ok.inj hdecode]
      exact fits_decodeCompletion ..
    · rw [← Except.ok.inj hdecode]
      exact fits_decodeCompletion ..
    · contradiction
  · contradiction

/-- A length field stands for 1 to 1024 dwords. -/
theorem dwordCount_bounds (length : UInt16) : 0 < dwordCount length ∧ dwordCount length ≤ 1024 := by
  unfold dwordCount
  split <;> omega

theorem dataDwords_le (h : Header) : h.dataDwords ≤ 1024 := by
  cases h with
  | memRead | completion => exact Nat.zero_le _
  | memWrite | completionWithData => exact (dwordCount_bounds _).2

end Header

namespace Record

theorem toDwords_ne_nil (r : Record) : r.toDwords ≠ [] := by
  refine List.ne_nil_of_length_pos ?_
  rw [toDwords, List.length_append, Header.length_encode]
  exact Nat.add_pos_left (by decide) _

/-- **A TLP with the data dwords its header announces reads back unchanged.** -/
theorem ofDwords_toDwords {r : Record} (hfits : r.header.Fits)
    (hdata : r.data.length = r.header.dataDwords) : ofDwords r.toDwords = .ok r := by
  have hdecode : Header.decode r.toDwords = .ok r.header := Header.decode_encode hfits r.data
  have hlength : r.toDwords.length = Header.size + r.header.dataDwords := by
    rw [toDwords, List.length_append, Header.length_encode, hdata]
  have hdrop : r.toDwords.drop Header.size = r.data := by
    rw [toDwords, ← Header.length_encode r.header, List.drop_left]
  simp only [ofDwords, hdecode, bind, Except.bind, if_pos hlength, hdrop]
  rfl

/-- A run of dwords that is read is its header and the data the header announces. -/
theorem decode_of_ofDwords {ws : List Word} {r : Record} (h : ofDwords ws = .ok r) :
    ∃ dw0 dw1 dw2, ws = dw0 :: dw1 :: dw2 :: r.data ∧ Header.decode ws = .ok r.header ∧
      r.data.length = r.header.dataDwords := by
  unfold ofDwords at h
  cases hdecode : Header.decode ws with
  | error fault =>
      rw [hdecode] at h
      contradiction
  | ok header =>
      simp only [hdecode, bind, Except.bind] at h
      split at h
      · next hlength =>
        obtain rfl := Except.ok.inj h
        match ws, hlength with
        | dw0 :: dw1 :: dw2 :: data, hlength =>
          have hdata : data.length + Header.size = Header.size + header.dataDwords := hlength
          exact ⟨dw0, dw1, dw2, rfl, rfl, Nat.add_left_cancel ((Nat.add_comm ..).trans hdata)⟩
      · contradiction

/-- A TLP that was read fits, and has the data dwords its header announces. -/
theorem fits_of_ofDwords {ws : List Word} {r : Record} (h : ofDwords ws = .ok r) :
    r.header.Fits ∧ ws.length = Header.size + r.header.dataDwords := by
  obtain ⟨dw0, dw1, dw2, rfl, hdecode, hdata⟩ := decode_of_ofDwords h
  refine ⟨Header.fits_of_decode hdecode, ?_⟩
  rw [← hdata, Nat.add_comm]
  rfl

/-- A TLP that reads back has 3 to 1027 dwords. -/
theorem toDwords_bounds {r : Record} (h : ofDwords r.toDwords = .ok r) :
    r.toDwords ≠ [] ∧ r.toDwords.length ≤ 1027 := by
  obtain ⟨-, hlength⟩ := fits_of_ofDwords h
  have hdata := r.header.dataDwords_le
  have hsize : Header.size = 3 := rfl
  exact ⟨List.ne_nil_of_length_pos (by omega), by omega⟩

end Record

end Tlp

end LinkBridge
