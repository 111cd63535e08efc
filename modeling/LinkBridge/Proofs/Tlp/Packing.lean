import LinkBridge.Proofs.Framing.Reading
import LinkBridge.Proofs.Tlp.Deserializer
import LinkBridge.Tlp.Serializer

/-!
# LinkBridge.Proofs.Tlp.Packing

The packing of whole TLPs: a TLP that fits into the buffer of a serializer becomes one packet, and a
longer one becomes nothing (`packing_wholes`). A packet says how many words it has, and a word holds
numbers below `2 ^ 32` only, so not all that can be packed can be sent. The lengths of `Sendable`
TLPs fit (`lengthsFit_packing`).
-/

namespace LinkBridge.Tlp.Serializer

/-! ## packing -/

/-- Packs every TLP of at most `depth` beats; the state holds the beats of the TLP in progress, or
nothing once it is too long. -/
def packing (tag : UInt8) (depth : Nat) : Transducer (Option (List Beat)) Beat PacketBeat where
  step
    | none, beat => (if beat.last then some [] else none, [])
    | some stored, beat =>
      if beat.last then (some [], Packet.beatsFor tag ((stored ++ [beat]).flatMap Beat.dwords))
      else (if depth ≤ stored.length + 1 then none else some (stored ++ [beat]), [])

/-- The dwords of the TLP at the front of a run of beats. -/
def headWords : List Beat → List Word
  | [] => []
  | b :: rest => b.dwords ++ if b.last then [] else headWords rest

/-- The beats behind the TLP at the front. -/
def behindHead : List Beat → List Beat
  | [] => []
  | b :: rest => if b.last then rest else behindHead rest

/-- Whether a run of beats holds a whole TLP. -/
def hasWhole (beats : List Beat) : Prop :=
  0 < beats.countP (·.last)

/-- A TLP has one last beat. -/
theorem countP_last_whole {tlp : List Beat} (h : Beat.Whole tlp) : tlp.countP (·.last) = 1 := by
  obtain ⟨init, final, rfl, hinit, hfinal⟩ := h
  rw [List.countP_append, hinit, List.countP_singleton, if_pos hfinal]

/-- A TLP is at the front of itself. -/
theorem headWords_whole {tlp : List Beat} (h : Beat.Whole tlp) :
    headWords tlp = tlp.flatMap Beat.dwords := by
  obtain ⟨init, final, rfl, hinit, hfinal⟩ := h
  induction init with
  | nil => simp [headWords, hfinal]
  | cons b init ih =>
      obtain ⟨hlast, hinit⟩ := Beat.countP_last_cons_eq_zero hinit
      rw [← Bool.not_eq_true] at hlast
      rw [List.cons_append, headWords, if_neg hlast, ih hinit, List.flatMap_cons]

/-- The length that is sent is the number of dwords, as far as a word can hold it. -/
theorem headLength_eq (beats : List Beat) :
    headLength beats = UInt32.ofNat (headWords beats).length := by
  induction beats with
  | nil => rfl
  | cons b rest ih =>
      rw [headLength, headWords, List.length_append, UInt32.ofNat_add]
      split
      · rfl
      · rw [ih]

theorem headWords_ne_nil {beats : List Beat} (h : hasWhole beats) : headWords beats ≠ [] := by
  cases beats with
  | nil => contradiction
  | cons b rest =>
      rw [headWords, Beat.dwords]
      split <;> simp

theorem hasWhole_of_not_last {b : Beat} {rest : List Beat} (h : hasWhole (b :: rest))
    (hlast : ¬ b.last = true) : hasWhole rest := by
  rwa [hasWhole, List.countP_cons_of_neg hlast] at h

/-- Beats behind a whole TLP do not change it. -/
theorem head_append {beats : List Beat} (h : hasWhole beats) (more : List Beat) :
    headWords (beats ++ more) = headWords beats ∧
      behindHead (beats ++ more) = behindHead beats ++ more := by
  induction beats with
  | nil => contradiction
  | cons b rest ih =>
      rw [List.cons_append, headWords, headWords, behindHead, behindHead]
      split
      · exact ⟨rfl, rfl⟩
      · next hlast =>
        obtain ⟨hwords, hbehind⟩ := ih (hasWhole_of_not_last h hlast)
        exact ⟨by rw [hwords], hbehind⟩

section

variable (tag : UInt8) (depth : Nat)

/-- A whole TLP that fits is packed. -/
theorem packing_head {beats : List Beat} (h : hasWhole beats) (stored xs : List Beat)
    (hfits : stored.length + beats.length ≤ depth) :
    (packing tag depth).answers (some stored) (beats ++ xs) =
      Packet.beatsFor tag (stored.flatMap Beat.dwords ++ headWords beats) ++
        (packing tag depth).answers (some []) (behindHead beats ++ xs) := by
  induction beats generalizing stored with
  | nil => contradiction
  | cons b rest ih =>
      rw [List.length_cons] at hfits
      rw [List.cons_append, Transducer.answers, headWords, behindHead]
      by_cases hlast : b.last = true
      · simp only [packing, hlast, if_true, List.flatMap_append, List.flatMap_cons,
          List.flatMap_nil, List.append_nil]
      · have hrest := hasWhole_of_not_last h hlast
        have hpos : 0 < rest.length := Nat.lt_of_lt_of_le hrest List.countP_le_length
        have hshort : ¬ depth ≤ stored.length + 1 := by omega
        have hstep : (packing tag depth).step (some stored) b = (some (stored ++ [b]), []) := by
          simp only [packing, if_neg hlast, if_neg hshort]
        rw [hstep, ih hrest (stored ++ [b]) (by simp; omega), if_neg hlast, if_neg hlast]
        simp only [List.flatMap_append, List.flatMap_cons, List.flatMap_nil, List.append_nil,
          List.nil_append, List.append_assoc]

/-- The rest of a TLP that is too long is skipped. -/
theorem packing_skipped {beats : List Beat} (h : beats.countP (·.last) = 0) :
    (packing tag depth).after none beats = none ∧ (packing tag depth).answers none beats = [] := by
  induction beats with
  | nil => exact ⟨rfl, rfl⟩
  | cons b rest ih =>
      obtain ⟨hlast, h⟩ := Beat.countP_last_cons_eq_zero h
      rw [← Bool.not_eq_true] at hlast
      have hstep : (packing tag depth).step none b = (none, []) := by
        simp only [packing, if_neg hlast]
      rw [Transducer.after, Transducer.answers, hstep]
      exact ih h

/-- Beats that reach the depth without an end are given up. -/
theorem packing_overflow {beats : List Beat} (h : beats.countP (·.last) = 0) (stored : List Beat)
    (hstored : stored.length < depth) (hlong : depth ≤ stored.length + beats.length) :
    (packing tag depth).after (some stored) beats = none ∧
      (packing tag depth).answers (some stored) beats = [] := by
  induction beats generalizing stored with
  | nil =>
      rw [List.length_nil] at hlong
      omega
  | cons b rest ih =>
      obtain ⟨hlast, h⟩ := Beat.countP_last_cons_eq_zero h
      rw [← Bool.not_eq_true] at hlast
      rw [List.length_cons] at hlong
      by_cases hfull : depth ≤ stored.length + 1
      · have hstep : (packing tag depth).step (some stored) b = (none, []) := by
          simp only [packing, if_neg hlast, if_pos hfull]
        rw [Transducer.after, Transducer.answers, hstep]
        exact packing_skipped tag depth h
      · have hstep : (packing tag depth).step (some stored) b = (some (stored ++ [b]), []) := by
          simp only [packing, if_neg hlast, if_neg hfull]
        rw [Transducer.after, Transducer.answers, hstep]
        exact ih h (stored ++ [b]) (by simp; omega) (by simp; omega)

end

/-- The beginning of a TLP is collected. -/
theorem packing_collect (tag : UInt8) {depth : Nat} {beats : List Beat}
    (h : beats.countP (·.last) = 0) (stored : List Beat)
    (hfits : stored.length + beats.length < depth) :
    (packing tag depth).after (some stored) beats = some (stored ++ beats) ∧
      (packing tag depth).answers (some stored) beats = [] := by
  induction beats generalizing stored with
  | nil => simp
  | cons b rest ih =>
      obtain ⟨hlast, h⟩ := Beat.countP_last_cons_eq_zero h
      rw [← Bool.not_eq_true] at hlast
      rw [List.length_cons] at hfits
      have hshort : ¬ depth ≤ stored.length + 1 := by omega
      have hstep : (packing tag depth).step (some stored) b = (some (stored ++ [b]), []) := by
        simp only [packing, if_neg hlast, if_neg hshort]
      have hrest := ih h (stored ++ [b]) (by simp; omega)
      rw [Transducer.after, Transducer.answers, hstep]
      rwa [List.append_assoc] at hrest

/-- A TLP is packed when it has at most `depth` beats. -/
theorem packing_whole (tag : UInt8) {depth : Nat} (hdepth : 0 < depth) {tlp : List Beat}
    (h : Beat.Whole tlp) :
    (packing tag depth).after (some []) tlp = some [] ∧
      (packing tag depth).answers (some []) tlp =
        if tlp.length ≤ depth then Packet.beatsFor tag (tlp.flatMap Beat.dwords) else [] := by
  obtain ⟨init, final, rfl, hinit, hfinal⟩ := h
  rw [Transducer.after_concat, Transducer.answers_concat, List.length_append,
    List.length_singleton]
  by_cases hfits : init.length + 1 ≤ depth
  · have hshort : ([] : List Beat).length + init.length < depth := by
      rw [List.length_nil]
      omega
    obtain ⟨hafter, hanswers⟩ := packing_collect tag hinit [] hshort
    have hstep : (packing tag depth).step (some init) final =
        (some [], Packet.beatsFor tag ((init ++ [final]).flatMap Beat.dwords)) := by
      simp only [packing, if_pos hfinal]
    rw [hafter, hanswers, List.nil_append, hstep, if_pos hfits]
    exact ⟨rfl, rfl⟩
  · obtain ⟨hafter, hanswers⟩ := packing_overflow tag depth hinit [] hdepth (by simp; omega)
    have hstep : (packing tag depth).step none final = (some [], []) := by
      simp only [packing, if_pos hfinal]
    rw [hafter, hanswers, hstep, if_neg hfits]
    exact ⟨rfl, rfl⟩

/-- **TLPs are packed one after the other**, those that fit. -/
theorem packing_wholes (tag : UInt8) {depth : Nat} (hdepth : 0 < depth) {tlps : List (List Beat)}
    (h : ∀ tlp ∈ tlps, Beat.Whole tlp) :
    (packing tag depth).answers (some []) tlps.flatten =
      (tlps.filter fun tlp => decide (tlp.length ≤ depth)).flatMap fun tlp =>
        Packet.beatsFor tag (tlp.flatMap Beat.dwords) := by
  induction tlps with
  | nil => rfl
  | cons tlp tlps ih =>
      obtain ⟨htlp, htlps⟩ := List.forall_mem_cons.mp h
      obtain ⟨hafter, hanswers⟩ := packing_whole tag hdepth htlp
      rw [List.flatten_cons, Transducer.answers_append, hafter, hanswers, ih htlps]
      by_cases hfits : tlp.length ≤ depth <;> simp [hfits]

/-- The TLPs made of dwords are packed one after the other. -/
theorem packing_tlps (tag : UInt8) {depth : Nat} (hdepth : 0 < depth) {tlps : List (List Word)}
    (hne : ∀ ws ∈ tlps, ws ≠ []) :
    (packing tag depth).answers (some []) (tlps.flatMap Beat.ofDwords) =
      (tlps.filter fun ws => decide ((Beat.ofDwords ws).length ≤ depth)).flatMap
        (Packet.beatsFor tag) := by
  have hwhole : ∀ tlp ∈ tlps.map Beat.ofDwords, Beat.Whole tlp :=
    List.forall_mem_map.mpr fun ws hws => Beat.whole_ofDwords (hne ws hws)
  rw [List.flatMap_def, packing_wholes tag hdepth hwhole, List.filter_map, List.flatMap_map]
  simp only [Beat.flatMap_dwords_ofDwords]
  rfl

/-- Beats without the end of a TLP are not sent. -/
theorem packing_unfinished (tag : UInt8) (depth : Nat) {beats : List Beat}
    (h : beats.countP Beat.last = 0) (stored : Option (List Beat)) :
    (packing tag depth).answers stored beats = [] := by
  induction beats generalizing stored with
  | nil => rfl
  | cons b rest ih =>
      obtain ⟨hlast, h⟩ := Beat.countP_last_cons_eq_zero h
      rw [← Bool.not_eq_true] at hlast
      rw [Transducer.answers, ih h]
      cases stored <;> simp [packing, hlast]

/-- Beats that fit become as many packets as TLPs end in them. -/
theorem countP_last_packing (tag : UInt8) {depth : Nat} {beats : List Beat} (stored : List Beat)
    (hfits : stored.length + beats.length ≤ depth) :
    ((packing tag depth).answers (some stored) beats).countP (·.last) =
      beats.countP (·.last) := by
  induction beats generalizing stored with
  | nil => rfl
  | cons b rest ih =>
      rw [List.length_cons] at hfits
      rw [Transducer.answers]
      by_cases hlast : b.last = true
      · have hne : (stored ++ [b]).flatMap Beat.dwords ≠ [] := by simp [b.dwords_ne_nil]
        have hpacket : (Packet.beatsFor tag ((stored ++ [b]).flatMap Beat.dwords)).countP
            (·.last) = 1 := Packet.countP_last_beatsOf tag _ hne
        have hrest := ih [] (by simp only [List.length_nil]; omega)
        simp only [packing, if_pos hlast, List.countP_append] at hrest ⊢
        rw [hpacket, List.countP_cons_of_pos hlast, hrest, Nat.add_comm]
      · rw [List.countP_cons_of_neg hlast]
        by_cases hfull : depth ≤ stored.length + 1
        · obtain rfl : rest = [] := List.length_eq_zero_iff.mp (by omega)
          simp [packing, hlast]
        · have hrest := ih (stored ++ [b]) (by simp; omega)
          simp only [packing, if_neg hlast, if_neg hfull, List.nil_append] at hrest ⊢
          exact hrest

/-- Behind a whole TLP there is one end less, and no more beats. -/
theorem behindHead_bounds {beats : List Beat} (h : hasWhole beats) :
    (behindHead beats).countP (·.last) + 1 = beats.countP (·.last) ∧
      (behindHead beats).length ≤ beats.length := by
  induction beats with
  | nil => contradiction
  | cons b rest ih =>
      rw [behindHead, List.length_cons]
      by_cases hlast : b.last = true
      · rw [if_pos hlast, List.countP_cons_of_pos hlast]
        exact ⟨rfl, Nat.le_succ _⟩
      · obtain ⟨hcount, hlength⟩ := ih (hasWhole_of_not_last h hlast)
        rw [if_neg hlast, List.countP_cons_of_neg hlast]
        exact ⟨hcount, Nat.le_succ_of_le hlength⟩

/-! ## lengths -/

/-- Whether a word can hold the length of every packet in a run of words. -/
def LengthsFit (words : List PacketBeat) : Prop :=
  ∀ packet ∈ blocks PacketBeat.last words, packet.length < UInt32.size

theorem LengthsFit.tail {word : PacketBeat} {words : List PacketBeat}
    (h : LengthsFit (word :: words)) : LengthsFit words := by
  cases hlast : word.last with
  | true =>
      rw [LengthsFit, blocks_cons_end hlast] at h
      exact (List.forall_mem_cons.mp h).2
  | false =>
      rw [LengthsFit, blocks_cons hlast] at h
      cases hblocks : blocks PacketBeat.last words with
      | nil =>
          rw [LengthsFit, hblocks]
          exact List.forall_mem_nil _
      | cons block rest =>
          rw [hblocks, joinFirst] at h
          obtain ⟨hfirst, hrest⟩ := List.forall_mem_cons.mp h
          rw [LengthsFit, hblocks]
          exact List.forall_mem_cons.mpr ⟨Nat.lt_of_succ_lt hfirst, hrest⟩

/-- The lengths of what is left fit as well. -/
theorem LengthsFit.of_append {front words : List PacketBeat} (h : LengthsFit (front ++ words)) :
    LengthsFit words := by
  induction front with
  | nil => exact h
  | cons word front ih => exact ih h.tail

/-- So does the length of the first packet. -/
theorem LengthsFit.head {tag : UInt8} {length : Word} {ws : List Word} {words : List PacketBeat}
    (h : LengthsFit (Packet.beatsOf tag length ws ++ words)) (hne : ws ≠ []) :
    ws.length < UInt32.size := by
  rw [LengthsFit, Packet.blocks_beatsOf_append tag length hne] at h
  have hfirst := (List.forall_mem_cons.mp h).1
  rwa [← List.length_map (·.data), Packet.map_data_beatsOf] at hfirst

theorem lengthsFit_flatMap_beatsFor (tag : UInt8) {payloads : List (List Word)}
    (h : ∀ ws ∈ payloads, ws ≠ [] ∧ ws.length < UInt32.size) :
    LengthsFit (payloads.flatMap (Packet.beatsFor tag)) := by
  induction payloads with
  | nil => exact List.forall_mem_nil _
  | cons ws payloads ih =>
      obtain ⟨⟨hne, hlength⟩, hpayloads⟩ := List.forall_mem_cons.mp h
      rw [LengthsFit, List.flatMap_cons, Packet.beatsFor, Packet.blocks_beatsOf_append tag _ hne]
      refine List.forall_mem_cons.mpr ⟨?_, ih hpayloads⟩
      rwa [← List.length_map (·.data), Packet.map_data_beatsOf]

/-- Whether a word can hold the number of dwords of a TLP, should the TLP fit into the buffer. -/
def Sendable (depth : Nat) (tlp : List Beat) : Prop :=
  Beat.Whole tlp ∧ (tlp.length ≤ depth → (tlp.flatMap Beat.dwords).length < UInt32.size)

theorem sendable_ofDwords {depth : Nat} {ws : List Word} (hne : ws ≠ [])
    (h : (Beat.ofDwords ws).length ≤ depth → ws.length < UInt32.size) :
    Sendable depth (Beat.ofDwords ws) := by
  refine ⟨Beat.whole_ofDwords hne, fun hfits => ?_⟩
  rw [Beat.flatMap_dwords_ofDwords]
  exact h hfits

/-- **The lengths of TLPs that can be sent fit.** -/
theorem lengthsFit_packing (tag : UInt8) {depth : Nat} (hdepth : 0 < depth)
    {tlps : List (List Beat)} (h : ∀ tlp ∈ tlps, Sendable depth tlp) :
    LengthsFit ((packing tag depth).answers (some []) tlps.flatten) := by
  rw [packing_wholes tag hdepth fun tlp htlp => (h tlp htlp).1,
    ← List.flatMap_map (List.flatMap Beat.dwords)]
  refine lengthsFit_flatMap_beatsFor tag fun ws hws => ?_
  obtain ⟨tlp, htlp, rfl⟩ := List.mem_map.mp hws
  obtain ⟨htlp, hfits⟩ := List.mem_filter.mp htlp
  obtain ⟨hwhole, hlength⟩ := h tlp htlp
  exact ⟨hwhole.dwords_ne_nil, hlength (of_decide_eq_true hfits)⟩

end LinkBridge.Tlp.Serializer
