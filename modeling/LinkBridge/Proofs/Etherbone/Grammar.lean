import LinkBridge.Proofs.Etherbone.RoundTrip

/-!
# LinkBridge.Proofs.Etherbone.Grammar

Which words are an Etherbone packet, said without reading them: `IsSection`, `AreRecords` and
`IsPacket` are the format as a grammar. The reader takes a run of words exactly when the grammar
derives it in some version (`decode_iff_isPacket`): what it refuses is cut off inside a record or
has a wrong field in front, and nothing else is refused. The version alone is not looked at, so the
packets of the one version there is are not the only ones that are read (`reads_version_two`).
-/

namespace LinkBridge.Etherbone

/-! ## the grammar -/

/-- Whether words are a section with the given count: none for a count of zero, and else an address
and as many words as counted. -/
inductive IsSection : Nat → List Word → Prop
  | absent : IsSection 0 []
  | present (base : Word) {words : List Word} (hne : words ≠ []) :
      IsSection words.length (base :: words)

/-- Whether words split completely into records: each of them a header that counts the words of its
two sections, the section of the writes and the section of the reads. -/
inductive AreRecords : List Word → Prop
  | none : AreRecords []
  | record (head : Word) {writes reads rest : List Word}
      (hwrites : IsSection (Word.field head 8 8) writes)
      (hreads : IsSection (Word.field head 0 8) reads) (hrest : AreRecords rest) :
      AreRecords (head :: (writes ++ (reads ++ rest)))

/-- Whether words are a packet of the given version: a word with magic, version and sizes, a word of
padding, and records. -/
def IsPacket (version : Nat) (words : List Word) : Prop :=
  ∃ head padding records, words = head :: padding :: records ∧
    Word.field head 16 16 = 0x4E6F ∧ Word.field head 12 4 = version ∧
    Word.field head 0 8 = 0x44 ∧ AreRecords records

/-! ## sections -/

theorem IsSection.length_eq {count : Nat} {words : List Word} (h : IsSection count words) :
    words.length = Section.span count := by
  cases h with
  | absent => rfl
  | present base hne => simp [Section.span, hne]

/-- A section is read, whatever follows it. -/
theorem IsSection.exists_decode {count : Nat} {words : List Word} (h : IsSection count words)
    (rest : List Word) : ∃ s, Section.decode count (words ++ rest) = .ok s := by
  cases h with
  | absent => exact ⟨{}, rfl⟩
  | @present base words hne =>
      have hlong : ¬ words.length + rest.length < words.length := by omega
      exact ⟨{ base, words }, by simp [Section.decode, hne, hlong]⟩

theorem IsSection.drop_append {count : Nat} {words : List Word} (h : IsSection count words)
    (rest : List Word) : (words ++ rest).drop (Section.span count) = rest :=
  List.drop_left' h.length_eq

/-- What is read as a section is one. -/
theorem isSection_of_decode {count : Nat} {words : List Word} {s : Section}
    (h : Section.decode count words = .ok s) :
    IsSection count (words.take (Section.span count)) := by
  by_cases hzero : count = 0
  · subst hzero
    exact .absent
  · by_cases hshort : words.length < count + 1
    · simp [Section.decode, hzero, hshort] at h
    · cases words with
      | nil => simp at hshort
      | cons base words =>
          have hlength : (words.take count).length = count := by
            simp only [List.length_cons] at hshort
            simp only [List.length_take]
            omega
          have hne : words.take count ≠ [] := by
            intro hnil
            rw [hnil] at hlength
            exact hzero hlength.symm
          have hsection := IsSection.present base hne
          rw [hlength] at hsection
          rwa [Section.span, if_neg hzero, List.take_succ_cons]

/-! ## records -/

/-- Records are read one after the other. -/
theorem AreRecords.exists_decodeAll {words : List Word} (h : AreRecords words) :
    ∃ rs, Record.decodeAll words = .ok rs := by
  induction h with
  | none => exact ⟨[], by rw [Record.decodeAll]⟩
  | @record head writes reads rest hwrites hreads _ ih =>
      obtain ⟨w, hw⟩ := hwrites.exists_decode (reads ++ rest)
      obtain ⟨r, hr⟩ := hreads.exists_decode rest
      obtain ⟨rs, hrs⟩ := ih
      rw [Record.decodeAll, hwrites.drop_append, hw]
      simp [hreads.drop_append, hr, hrs, bind, Except.bind, pure, Except.pure]

/-- What is read as records splits into records. -/
theorem areRecords_of_decodeAll (words : List Word) :
    ∀ rs, Record.decodeAll words = .ok rs → AreRecords words := by
  induction words using Record.decodeAll.induct with
  | case1 => exact fun _ _ => .none
  | case2 head rest writeCount readCount ih =>
      intro rs h
      obtain ⟨r, others, -, hwrites, hreads, hothers, -⟩ := Record.exists_of_decodeAll_cons h
      have hrecord := AreRecords.record head (isSection_of_decode hwrites)
        (isSection_of_decode hreads) (ih others hothers)
      rwa [List.take_append_drop, List.take_append_drop] at hrecord

/-! ## packets -/

namespace Packet

/-- **Words are read exactly when they are a packet of some version**, and refused otherwise. -/
theorem decode_iff_isPacket (words : List Word) :
    ((∃ p, decode words = .ok p) ↔ ∃ version, IsPacket version words) ∧
      ((∃ fault, decode words = .error fault) ↔ ¬ ∃ version, IsPacket version words) := by
  have haccepts : (∃ p, decode words = .ok p) ↔ ∃ version, IsPacket version words := by
    constructor
    · rintro ⟨p, h⟩
      obtain ⟨head, padding, records, rfl, hmagic, hsizes, hrecords, -⟩ := exists_of_decode h
      exact ⟨Word.field head 12 4, head, padding, records, rfl, hmagic, rfl, hsizes,
        areRecords_of_decodeAll records _ hrecords⟩
    · rintro ⟨version, head, padding, records, rfl, hmagic, -, hsizes, hrecords⟩
      obtain ⟨rs, hrs⟩ := hrecords.exists_decodeAll
      have hmagic : Word.field head 16 16 = magic := hmagic
      have hsizes : Word.field head 0 8 = sizes := hsizes
      exact ⟨_, by simp [decode, hmagic, hsizes, hrs, bind, Except.bind]; rfl⟩
  refine ⟨haccepts, ?_⟩
  rw [← haccepts]
  cases decode words with
  | ok p => simp
  | error fault => simp

/-- A packet of version 2, with one record that writes one word, is read like one of version 1. -/
theorem reads_version_two :
    let words : List Word := [0x4E6F2044, 0, 0x000F0100, 0x1000, 7]
    decode words = .ok { records := [.write 0x1000 [7]] } ∧ IsPacket 2 words ∧
      ¬ IsPacket 1 words := by
  intro words
  have hrecords : AreRecords [0x000F0100, 0x1000, 7] :=
    .record 0x000F0100 (.present 0x1000 (List.cons_ne_nil 7 [])) .absent .none
  have hread : Record.decodeAll [0x000F0100, 0x1000, 7] = .ok [.write 0x1000 [7]] :=
    Record.decodeAll_encode [.write 0x1000 [7]]
  refine ⟨by rw [decode, hread]; rfl, ?_, ?_⟩
  · exact ⟨_, _, _, rfl, rfl, rfl, rfl, hrecords⟩
  · rintro ⟨head, padding, records, hwords, -, hversion, -⟩
    obtain rfl : (0x4E6F2044 : Word) = head := List.head_eq_of_cons_eq hwords
    exact absurd hversion (by decide)

end Packet

end LinkBridge.Etherbone
