import LinkBridge.Proofs.Tlp.Serializer

/-!
# LinkBridge.Proofs.Tlp.Unsendable

TLPs that fit into the buffer of a serializer and cannot be sent, because no word can hold the
number of their dwords. The length of the packet wraps around, so the packet ends before the TLP
does. The beats behind its end are the rest of no packet: they stay in the buffer, or the buffer
counts as filled and the next TLP is skipped in their place. Either way the serializer does not come
to rest (`Held.tick`), which makes the bound of `Sendable` exact.
-/

namespace LinkBridge.Tlp.Serializer

/-! ## TLPs that cannot be sent -/

/-- Whether a TLP fits into the buffer, but its number of dwords not into a word. -/
structure Unsendable (depth : Nat) (tlp : List Beat) : Prop where
  whole : Beat.Whole tlp
  fits : tlp.length ≤ depth
  long : UInt32.size ≤ (tlp.flatMap Beat.dwords).length

theorem unsendable_iff {depth : Nat} {tlp : List Beat} (h : Beat.Whole tlp) :
    Unsendable depth tlp ↔ ¬ Sendable depth tlp := by
  constructor
  · rintro ⟨-, hfits, hlong⟩ ⟨-, hlength⟩
    exact absurd (hlength hfits) (Nat.not_lt.mpr hlong)
  · intro hnot
    rw [Sendable, not_and, Classical.not_imp, Nat.not_lt] at hnot
    exact ⟨h, (hnot h).1, (hnot h).2⟩

/-- Behind the end of a TLP nothing of it is to come. -/
theorem eq_nil_of_hasWhole {tlp stored coming : List Beat} (h : Beat.Whole tlp)
    (hsplit : stored ++ coming = tlp) (hstored : hasWhole stored) : coming = [] := by
  obtain ⟨init, final, rfl, hinit, -⟩ := h
  obtain rfl | ⟨xs, x, rfl⟩ := coming.eq_nil_or_concat
  · rfl
  · rw [List.concat_eq_append, ← List.append_assoc] at hsplit
    obtain ⟨rfl, -⟩ := List.append_inj' hsplit rfl
    rw [List.countP_append] at hinit
    rw [hasWhole] at hstored
    omega

/-! ## where they are held -/

/-- Where a TLP is that cannot be sent; `coming` are the beats of it that are not taken. -/
inductive Place (tlp : List Beat) (s : Serializer) (coming : List Beat) : Prop where
  | storing (phase : s.phase = .idle) (running : s.skipping = false)
      (complete : s.complete = s.buffer.countP (·.last)) (beats : s.buffer ++ coming = tlp)
  /-- The packet will end before the TLP does. -/
  | sending (length sent : Word) (high : Bool) (phase : s.phase = .sending length sent high)
      (complete : s.complete = 1) (taken : coming = [])
      (short : length.toNat < sent.toNat + (unsent s.buffer high).length)
  /-- The packet has ended, and what is left is the rest of nothing. -/
  | left (phase : s.phase = .idle) (complete : s.complete = 0) (taken : coming = [])
      (rest : s.buffer ≠ [] ∨ s.skipping = true)

/-- A serializer that is given a TLP it cannot send, and nothing else. -/
structure Held (tlp : List Beat) (s : Serializer) (coming : List Beat) : Prop where
  sound : Sound s
  unsendable : Unsendable s.depth tlp
  place : Place tlp s coming

variable {s : Serializer} {tlp coming : List Beat}

theorem held_empty (tag : UInt8) {depth : Nat} (h : Unsendable depth tlp) :
    Held tlp (empty tag depth) tlp where
  sound := sound_empty tag depth
  unsendable := ⟨h.whole, Nat.le_trans h.fits (Nat.le_max_left ..), h.long⟩
  place := .storing rfl rfl rfl rfl

/-- A TLP that is held keeps the serializer busy. -/
theorem Held.isIdle_eq_false (h : Held tlp s []) : s.isIdle = false := by
  cases h.place with
  | storing phase running complete beats =>
      obtain ⟨init, final, rfl, -⟩ := h.unsendable.whole
      rw [List.append_nil] at beats
      simp [isIdle, beats]
  | sending length sent high phase => simp [isIdle, phase]
  | left phase complete taken rest =>
      obtain hbuffer | hskipping := rest
      · simp [isIdle, hbuffer]
      · simp [isIdle, hskipping]

section

variable {length sent : Word} {high : Bool} {b : Beat} {rest : List Beat} {later : List Word}

/-- While dwords of the TLP are to come, so are beats of it. -/
theorem Sending.unsent_next (hs : Sending s length sent high b rest later) (hne : later ≠ []) :
    (if high || !b.hasHigh then rest else s.buffer) ≠ [] ∧
      unsent (if high || !b.hasHigh then rest else s.buffer) (!(high || !b.hasHigh)) = later := by
  cases hdone : (high || !b.hasHigh) with
  | true =>
      have hlater := (hs.at_done hdone hne).2
      refine ⟨?_, hlater.symm⟩
      rintro rfl
      exact hne hlater
  | false =>
      refine ⟨?_, ?_⟩
      · show s.buffer ≠ []
        rw [hs.buffer]
        exact List.cons_ne_nil b rest
      · show unsent s.buffer true = later
        rw [hs.buffer, (hs.hasHigh hdone).2]

/-- A word of a packet that ends before its TLP. -/
theorem Sending.place_send (hs : Sending s length sent high b rest later) (hcomplete : s.complete = 1)
    (hshort : length.toNat < sent.toNat + (later.length + 1)) :
    Place tlp (s.send true).next [] ∧
      ((s.send true).next.phase = .idle → (s.send true).next.complete = 0) := by
  have hbelow := hs.below
  have hne : later ≠ [] := by
    rintro rfl
    rw [List.length_nil] at hshort
    omega
  obtain ⟨hbuffer, hunsent⟩ := hs.unsent_next hne
  by_cases hlast : sent + 1 = length
  · have hnone : s.complete - 1 = 0 := by rw [hcomplete]
    rw [send_last hs.phase hs.buffer hlast]
    exact ⟨.left rfl hnone rfl (.inl hbuffer), fun _ => hnone⟩
  · rw [send_more hs.phase hs.buffer hlast]
    refine ⟨.sending length (sent + 1) _ rfl hcomplete rfl ?_, fun hidle => Phase.noConfusion hidle⟩
    show length.toNat < (sent + 1).toNat + (unsent _ _).length
    rw [hunsent, hs.succ]
    omega

end

section

variable (hlong : Unsendable s.depth tlp)

include hlong

/-- The packet that is started on is shorter than the TLP. -/
theorem Place.start (h : Place tlp s coming) :
    Place tlp s.start coming ∧ (s.start.phase = .idle → s.start.complete = 0) := by
  cases hphase : s.phase with
  | sending length sent high =>
      have hsame : s.start = s := by rw [Serializer.start, hphase]
      rw [hsame]
      exact ⟨h, fun hidle => Phase.noConfusion (hidle.symm.trans hphase)⟩
  | idle =>
      by_cases hcomplete : s.complete = 0
      · have hsame : s.start = s := by simp only [Serializer.start, hphase, if_pos hcomplete]
        rw [hsame]
        exact ⟨h, fun _ => hcomplete⟩
      · have hstart : s.start =
            { s with phase := .sending (max (headLength s.buffer) 1) 0 false } := by
          simp only [Serializer.start, hphase, if_neg hcomplete]
        rw [hstart]
        refine ⟨?_, fun hidle => Phase.noConfusion hidle⟩
        cases h with
        | sending length sent high hsending => exact Phase.noConfusion (hphase.symm.trans hsending)
        | left _ hnone => exact absurd hnone hcomplete
        | storing _ _ hcount hbeats =>
            have hstored : hasWhole s.buffer := by
              rw [hasWhole, ← hcount]
              exact Nat.pos_of_ne_zero hcomplete
            obtain rfl := eq_nil_of_hasWhole hlong.whole hbeats hstored
            rw [List.append_nil] at hbeats
            refine .sending _ _ _ rfl ?_ rfl ?_
            · show s.complete = 1
              rw [hcount, hbeats, countP_last_whole hlong.whole]
            · have hlength := hlong.long
              have hsize : 1 < UInt32.size := by decide
              have hbelow := Nat.mod_lt (tlp.flatMap Beat.dwords).length
                (Nat.zero_lt_of_lt hsize)
              show (max (headLength s.buffer) 1).toNat < 0 + (headWords s.buffer).length
              rw [toNat_startLength, hbeats, headWords_whole hlong.whole]
              omega

/-- **A packet that ends before its TLP leaves beats behind.** -/
theorem Place.send (hsound : Sound s) (h : Place tlp s coming) (ready : Bool) :
    Place tlp (s.send ready).next coming ∧
      ((s.send ready).next.phase = .idle → (s.send ready).next.complete = 0) := by
  obtain ⟨hstart, hwaits⟩ := h.start hlong
  have hkeeps := start_keeps hsound
  cases ready with
  | false =>
      rw [send_false]
      exact ⟨hstart, hwaits⟩
  | true =>
      cases hphase : s.start.phase with
      | idle =>
          rw [send_of_idle hphase]
          exact ⟨hstart, hwaits⟩
      | sending length sent high =>
          obtain ⟨b, rest, later, hs⟩ := hkeeps.sound.exists_sending hphase
          cases hstart with
          | storing hidle => exact Phase.noConfusion (hphase.symm.trans hidle)
          | left hidle => exact Phase.noConfusion (hphase.symm.trans hidle)
          | sending length' sent' high' hsending hcomplete htaken hshort =>
              obtain ⟨rfl, rfl, rfl⟩ : length = length' ∧ sent = sent' ∧ high = high' := by
                simpa using hphase.symm.trans hsending
              rw [hs.unsent_eq, List.length_cons] at hshort
              rw [← send_start, htaken]
              exact hs.place_send hcomplete hshort

/-- Storing collects the TLP. What is left of it may be given up, but then the next TLP is skipped. -/
theorem Place.store {input : Option Beat} (h : Place tlp s (input.toList ++ coming))
    (hwaits : s.phase = .idle → s.complete = 0) :
    Place tlp (s.store input).next ((s.store input).left input ++ coming) := by
  cases h with
  | storing hphase hrunning hcount hbeats =>
      have hnone : s.buffer.countP (·.last) = 0 := hcount ▸ hwaits hphase
      have hne : input.toList ++ coming ≠ [] := by
        intro hnil
        rw [hnil, List.append_nil] at hbeats
        rw [hbeats, countP_last_whole hlong.whole] at hnone
        exact absurd hnone (by decide)
      have hroom : s.level < s.depth := by
        have hlength := congrArg List.length hbeats
        have hpos := List.length_pos_iff.mpr hne
        have hfits := hlong.fits
        rw [List.length_append] at hlength
        show s.buffer.length < s.depth
        omega
      have hoverflow : s.overflowing = false := by
        simp [overflowing, hroom]
      rw [store.eq_def, hrunning, hoverflow]
      cases input with
      | none => exact .storing hphase hrunning hcount hbeats
      | some beat =>
          simp only [if_pos hroom, if_neg Bool.false_ne_true]
          refine .storing hphase rfl ?_ ?_
          · show s.complete + beat.last.toNat = (s.buffer ++ [beat]).countP (·.last)
            rw [List.countP_append, hcount]
            cases hlast : beat.last <;> simp [hlast]
          · show s.buffer ++ [beat] ++ coming = tlp
            rw [← hbeats, List.append_assoc]
            rfl
  | sending length sent high hphase hcomplete htaken hshort =>
      obtain ⟨hinput, rfl⟩ := List.append_eq_nil_iff.mp htaken
      obtain rfl := Option.toList_eq_nil_iff.mp hinput
      have hleft : (s.store none).left (none : Option Beat) ++ [] = [] := by simp [Transfer.left]
      have hsame : (s.store none).next = s := by
        unfold store
        split
        · rfl
        · split
          · next hoverflow => simp [overflowing, hphase] at hoverflow
          · rfl
      rw [hsame]
      exact .sending length sent high hphase hcomplete hleft hshort
  | left hphase hcomplete htaken hrest =>
      obtain ⟨hinput, rfl⟩ := List.append_eq_nil_iff.mp htaken
      obtain rfl := Option.toList_eq_nil_iff.mp hinput
      unfold store
      split
      · exact .left hphase hcomplete rfl hrest
      · split
        · exact .left hphase hcomplete rfl (.inr rfl)
        · exact .left hphase hcomplete rfl hrest

end

/-- **A TLP that cannot be sent is held for ever**, unless more TLPs come. -/
theorem Held.tick {input : Option Beat} (h : Held tlp s (input.toList ++ coming)) (ready : Bool) :
    Held tlp (s.tick input ready).next ((s.tick input ready).left input ++ coming) := by
  obtain ⟨hsend, hwaits⟩ := h.place.send h.unsendable h.sound ready
  have hsent := (send_keeps h.sound ready).1
  have hkeeps := (tick_keeps h.sound input ready).1
  exact
    { sound := hkeeps.sound
      unsendable := hkeeps.depth.symm ▸ h.unsendable
      place := hsend.store (hsent.depth.symm ▸ h.unsendable) hwaits }

/-! ## the first word -/

/-- Between two packets a beat is stored. -/
theorem tick_stored (hphase : s.phase = .idle) (hrunning : s.skipping = false)
    (hcomplete : s.complete = 0) (hroom : s.level < s.depth) (b : Beat) (ready : Bool) :
    s.tick (some b) ready =
      { next := { s with buffer := s.buffer ++ [b], complete := b.last.toNat }
        taken := true, counted := { tlpBeatsIn := 1 } } := by
  have hstart : s.start = s := by simp only [Serializer.start, hphase, if_pos hcomplete]
  have hsend : s.send ready = { next := s } := by simp only [Serializer.send, hstart, hphase]
  have hoverflow : s.overflowing = false := by simp [overflowing, hroom]
  simp only [Serializer.tick, hsend, Serializer.store, hrunning, hoverflow, hcomplete, if_pos hroom,
    if_neg Bool.false_ne_true, Nat.zero_add]
  rfl

/-- A length that wraps around to nothing is sent as one word. -/
theorem sent_of_headLength_eq_zero {b : Beat} {rest : List Beat} (hphase : s.phase = .idle)
    (hcomplete : s.complete ≠ 0) (hbuffer : s.buffer = b :: rest)
    (hlength : headLength s.buffer = 0) (input : Option Beat) :
    (s.tick input true).sent = some { dst := s.tag, length := 1, data := b.low, last := true } := by
  have hstart : s.start = { s with phase := .sending 1 0 false } := by
    simp only [Serializer.start, hphase, if_neg hcomplete, hlength]
    rfl
  have hphase' : s.start.phase = .sending 1 0 false := by rw [hstart]
  have hbuffer' : s.start.buffer = b :: rest := by rw [hstart, hbuffer]
  show (s.send true).sent = _
  rw [← send_start, send_last hphase' hbuffer' rfl, hstart]
  rfl

end LinkBridge.Tlp.Serializer

namespace LinkBridge.Tlp.Beat

/-! ## TLPs with all lanes -/

/-- A TLP of `n` beats and a last one, with all of their lanes. -/
def filled (n : Nat) : List Beat :=
  List.replicate n (.pair 1 2 false) ++ [.pair 3 4 true]

theorem countP_last_replicate (n : Nat) :
    (List.replicate n (pair 1 2 false)).countP (·.last) = 0 := by
  rw [List.countP_eq_zero]
  intro b hb
  rw [List.eq_of_mem_replicate hb]
  exact Bool.false_ne_true

theorem whole_filled (n : Nat) : Whole (filled n) :=
  ⟨_, _, rfl, countP_last_replicate n, rfl⟩

theorem length_filled (n : Nat) : (filled n).length = n + 1 := by
  simp [filled]

theorem length_dwords_filled (n : Nat) :
    ((filled n).flatMap dwords).length = 2 * (n + 1) := by
  simp [filled, List.length_flatMap]
  omega

theorem unsendable_filled {n depth : Nat} (hfits : n + 1 ≤ depth)
    (hlong : UInt32.size ≤ 2 * (n + 1)) : Serializer.Unsendable depth (filled n) where
  whole := whole_filled n
  fits := (length_filled n).symm ▸ hfits
  long := (length_dwords_filled n).symm ▸ hlong

theorem flatMap_dwords_filled_succ (n : Nat) :
    (filled (n + 1)).flatMap dwords = 1 :: 2 :: (filled n).flatMap dwords := by
  rw [filled, List.replicate_succ, List.cons_append, List.flatMap_cons, dwords_pair]
  rfl

/-- The first of many words does not end a packet. -/
theorem not_prefix_filled {n : Nat} (hpos : 0 < n) (tag : UInt8) {word : PacketBeat}
    (hlast : word.last = true) :
    ¬ [word] <+: Packet.beatsFor tag ((filled n).flatMap dwords) := by
  obtain ⟨m, rfl⟩ := Nat.exists_eq_succ_of_ne_zero (Nat.ne_of_gt hpos)
  rw [flatMap_dwords_filled_succ, Packet.beatsFor, Packet.beatsOf, List.cons_prefix_cons]
  rintro ⟨rfl, -⟩
  exact absurd hlast Bool.false_ne_true

end LinkBridge.Tlp.Beat

namespace LinkBridge.Tlp.Serializer

/-- The last beat of such a TLP is stored behind the others. -/
theorem tick_filled (tag : UInt8) {depth n : Nat} (hfits : n + 1 ≤ depth) (ready : Bool) :
    ({ tag, depth, buffer := List.replicate n (.pair 1 2 false) } : Serializer).tick
        (some (.pair 3 4 true)) ready =
      { next := { tag, depth, buffer := Beat.filled n, complete := 1 }
        taken := true, counted := { tlpBeatsIn := 1 } } :=
  tick_stored rfl rfl rfl (by simpa [level] using Nat.lt_of_succ_le hfits) _ _

/-- If its length wraps around to nothing, its first word ends its packet. -/
theorem sent_filled (tag : UInt8) {depth n : Nat} (hpos : 0 < n)
    (hlength : UInt32.size ∣ 2 * (n + 1)) (input : Option Beat) :
    (({ tag, depth, buffer := Beat.filled n, complete := 1 } : Serializer).tick input true).sent =
      some { dst := tag, length := 1, data := 1, last := true } := by
  have hzero : headLength (Beat.filled n) = 0 := by
    apply UInt32.toNat_inj.mp
    rw [headLength_eq, headWords_whole (Beat.whole_filled n), Beat.length_dwords_filled,
      UInt32.toNat_ofNat']
    exact Nat.mod_eq_zero_of_dvd hlength
  obtain ⟨m, rfl⟩ := Nat.exists_eq_succ_of_ne_zero (Nat.ne_of_gt hpos)
  let s : Serializer := { tag, depth, buffer := Beat.filled (m + 1), complete := 1 }
  have hfirst : s.buffer = .pair 1 2 false :: Beat.filled m := rfl
  exact sent_of_headLength_eq_zero rfl Nat.one_ne_zero hfirst hzero input

end LinkBridge.Tlp.Serializer
