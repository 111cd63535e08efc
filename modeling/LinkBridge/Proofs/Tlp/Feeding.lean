import LinkBridge.Proofs.Allocation
import LinkBridge.Proofs.Passages
import LinkBridge.Proofs.Tlp.Conversion
import LinkBridge.Proofs.Tlp.Overflows
import LinkBridge.Proofs.Tlp.Unsendable

/-!
# LinkBridge.Proofs.Tlp.Feeding

A serializer that is fed with TLPs, beats and room coming when they like. Two facts carry the runs:

* what was sent, followed by what is to come, is the packing of what was taken, whatever is taken
  next (`Feed.Fed.words`);
* every TLP whose end was taken was sent, is stored whole or was given up (`Feed.Fed.ended`).

What was taken begins with the TLPs that have ended (`Beat.exists_ended`), so both tell, at every
moment, which of them were given up.

Main statement: `tlps_framed_in_order`.
-/

namespace LinkBridge.Tlp

/-! ## beats -/

namespace Beat

/-- The upper dword counts if one of the upper four byte enables is set. -/
theorem dwords_eq (b : Beat) :
    b.dwords = b.low :: if b.enable &&& 0xF0 = 0 then [] else [b.high] := by
  have hkeep : b.enable.toNat &&& (0xF0 : UInt8).toNat = _ :=
    Word.and_keep b.enable.toNat 4 4 0 (by decide)
  have henable := b.enable.toNat_lt
  have hmask : b.enable &&& 0xF0 = 0 ↔ b.hasHigh = false := by
    rw [← UInt8.toNat_inj, UInt8.toNat_and, hkeep, hasHigh, decide_eq_false_iff_not,
      UInt8.toNat_zero]
    omega
  cases hhigh : b.hasHigh <;> simp [dwords, hmask, hhigh]

/-- As many TLPs as ends. -/
theorem countP_last_flatten {tlps : List (List Beat)} (h : ∀ tlp ∈ tlps, Whole tlp) :
    tlps.flatten.countP (·.last) = tlps.length := by
  rw [← List.flatMap_id]
  exact countP_flatMap_eq fun tlp htlp => Serializer.countP_last_whole (h tlp htlp)

/-- The beginning of a stream of TLPs is made of the TLPs that have ended and the beginning of the
next one. -/
theorem exists_ended {tlps : List (List Beat)} (h : ∀ tlp ∈ tlps, Whole tlp)
    {taken rest : List Beat} (heq : taken ++ rest = tlps.flatten) :
    ∃ done later part, tlps = done ++ later ∧ taken = done.flatten ++ part ∧
      part ++ rest = later.flatten ∧ part.countP (·.last) = 0 :=
  LinkBridge.exists_ended h heq

end Beat

namespace Serializer

/-! ## packets to come -/

/-- **Without further beats, as many packets are to come as TLPs are stored whole.** -/
theorem Exact.countP_last_future {s : Serializer} (h : Exact s) :
    (s.future []).countP (·.last) = s.complete := by
  have hlevel := h.level
  rw [h.complete_eq]
  cases hphase : s.phase with
  | idle =>
      simp only [future, hphase, List.append_nil]
      cases hskipping : s.skipping with
      | true =>
          rw [(h.skipping hskipping).1]
          rfl
      | false => exact countP_last_packing s.tag [] (by simpa using hlevel)
  | sending length sent high =>
      obtain ⟨hcomplete, hbelow, hsent, -⟩ := h.sending length sent high hphase
      have hne : unsent s.buffer high ≠ [] := List.ne_nil_of_length_pos (by omega)
      obtain ⟨hcount, hlength⟩ := behindHead_bounds (h.hasWhole hcomplete)
      simp only [future, hphase, List.append_nil, List.countP_append]
      rw [Packet.countP_last_beatsOf s.tag _ hne,
        countP_last_packing s.tag [] (by simp only [List.length_nil]; omega), ← hcount,
        Nat.add_comm]

/-! ## beats taken -/

/-- A beat that is not taken is as good as none. -/
theorem store_of_not_taken {s : Serializer} {input : Option Beat}
    (h : (s.store input).taken = false) : s.store input = s.store none := by
  cases input with
  | none => rfl
  | some beat =>
      by_cases hskipping : s.skipping = true
      · simp [store, hskipping] at h
      · by_cases hoverflow : s.overflowing = true
        · simp [store, hskipping, hoverflow]
        · by_cases hroom : s.level < s.depth
          · simp [store, hskipping, hoverflow, hroom] at h
          · simp [store, hskipping, hoverflow, hroom]

/-- So a tick is given the beats it takes. -/
theorem tick_removed (s : Serializer) (input : Option Beat) (ready : Bool) :
    ∃ given : Option Beat, s.tick given ready = s.tick input ready ∧
      (s.tick given ready).left given = [] ∧
      (s.tick input ready).removed input = given.toList := by
  cases htaken : (s.tick input ready).taken with
  | true =>
      exact ⟨input, rfl, Transfer.left_of_taken htaken input, if_pos htaken⟩
  | false =>
      have hsame : s.tick none ready = s.tick input ready := by
        simp only [tick] at htaken ⊢
        rw [store_of_not_taken htaken]
      refine ⟨none, hsame, ?_, ?_⟩
      · simp [Transfer.left]
      · simp [Transfer.removed, htaken]

/-- The packets that are counted are those that end. -/
theorem tlpPacketsSent_tick (s : Serializer) (input : Option Beat) (ready : Bool) :
    (s.tick input ready).counted.tlpPacketsSent =
      (s.tick input ready).sent.toList.countP (·.last) :=
  congrArg Counters.Passages.tlpsSent (s.tick_passages input ready)

/-- **Every TLP whose end is taken** is sent, is stored or is given up. -/
theorem ended_tick {s : Serializer} (h : Sound s) (input : Option Beat) (ready : Bool) :
    let t := s.tick input ready
    (t.counted.tlpPacketsSent + t.counted.tlpOverflows + t.next.stored +
      (t.left input).countP (·.last) : Int) = s.stored + input.toList.countP (·.last) := by
  intro t
  obtain ⟨hnone, hsent⟩ := send_stored h ready
  have hstored := store_stored (s.send ready).next input []
  have hoverflows : t.counted.tlpOverflows =
      ((s.send ready).next.store input).counted.tlpOverflows := by
    show (s.send ready).counted.tlpOverflows + _ = _
    rw [hnone, Nat.zero_add]
  have hpackets : t.counted.tlpPacketsSent = (s.send ready).sent.toList.countP (·.last) :=
    s.tlpPacketsSent_tick input ready
  have hnext : t.next = ((s.send ready).next.store input).next := rfl
  have hleft : t.left input = ((s.send ready).next.store input).left input := rfl
  rw [List.append_nil, List.append_nil] at hstored
  rw [hoverflows, hpackets, hnext, hleft]
  omega

end Serializer

/-! ## feeding -/

/-- A serializer with what was taken and what was sent so far. -/
structure Feed where
  serializer : Serializer
  /-- The beats the serializer has not taken. -/
  rest : List Beat
  taken : List Beat := []
  sent : List PacketBeat := []
  counted : Counters := {}

namespace Feed

/-- What a serializer meets on a tick. -/
structure Moment where
  /-- Whether the next beat is there. -/
  available : Bool
  /-- Whether there is room for a word. -/
  room : Bool

/-- A serializer in front of TLPs. -/
def start (tag : UInt8) (depth : Nat) (tlps : List (List Beat)) : Feed where
  serializer := .empty tag depth
  rest := tlps.flatten

/-- The beat the serializer is shown. -/
def shown (f : Feed) (available : Bool) : Option Beat :=
  if available then f.rest.head? else none

/-- One tick. -/
def tick (f : Feed) (m : Moment) : Feed :=
  let t := f.serializer.tick (f.shown m.available) m.room
  let beats := t.removed (f.shown m.available)
  { serializer := t.next
    rest := f.rest.drop beats.length
    taken := f.taken ++ beats
    sent := f.sent ++ t.sent.toList
    counted := f.counted + t.counted }

/-- Ticks in order. -/
def run (f : Feed) (moments : List Moment) : Feed :=
  moments.foldl tick f

/-- A serializer that was fed with the beginning of TLPs. -/
structure Fed (f : Feed) (tag : UInt8) (depth : Nat) (tlps : List (List Beat)) : Prop where
  measured : f.serializer.Measured f.rest
  beats : f.taken ++ f.rest = tlps.flatten
  words (xs : List Beat) : f.sent ++ f.serializer.future xs =
    (Serializer.packing tag depth).answers (some []) (f.taken ++ xs)
  begun (xs : List Beat) : unfinished Beat.last f.serializer.begun xs =
    unfinished Beat.last false (f.taken ++ xs)
  packets : f.counted.tlpPacketsSent = f.sent.countP (·.last)
  ended : (f.counted.tlpPacketsSent + f.counted.tlpOverflows + f.serializer.stored : Int) =
    f.taken.countP (·.last)

theorem fed_start (tag : UInt8) {depth : Nat} (hdepth : 1 ≤ depth) {tlps : List (List Beat)}
    (h : ∀ tlp ∈ tlps, Serializer.Sendable depth tlp) :
    Fed (start tag depth tlps) tag depth tlps where
  measured := ((Serializer.sound_empty tag depth).measured rfl).append <| by
    show ∀ tlp ∈ tlps, Serializer.Sendable (max depth 1) tlp
    rwa [Nat.max_eq_left hdepth]
  beats := rfl
  words xs := by
    show (Serializer.packing tag (max depth 1)).answers (some []) xs = _
    rw [Nat.max_eq_left hdepth]
    rfl
  begun _ := rfl
  packets := rfl
  ended := rfl

section

variable {f : Feed} {tag : UInt8} {depth : Nat} {tlps : List (List Beat)}

/-- What is taken is the first of the rest. -/
theorem rest_eq (f : Feed) (m : Moment) :
    f.rest = (f.serializer.tick (f.shown m.available) m.room).removed (f.shown m.available) ++
      (f.tick m).rest := by
  have hshown : (f.shown m.available).toList <+: f.rest := by
    unfold shown
    split
    · cases f.rest <;> simp
    · exact List.nil_prefix
  have hremoved (t : Transfer Serializer PacketBeat) :
      t.removed (f.shown m.available) <+: f.rest := by
    unfold Transfer.removed
    split
    · exact hshown
    · exact List.nil_prefix
  obtain ⟨rest, hrest⟩ := hremoved (f.serializer.tick (f.shown m.available) m.room)
  show _ = _ ++ f.rest.drop _
  rw [← hrest, List.drop_left]

/-- A tick that gives the serializer the beat it takes, and no other. -/
theorem tick_eq (f : Feed) (m : Moment) :
    ∃ given rest, (f.serializer.tick given m.room).left given = [] ∧
      f.rest = given.toList ++ rest ∧
      f.tick m =
        { serializer := (f.serializer.tick given m.room).next
          rest
          taken := f.taken ++ given.toList
          sent := f.sent ++ (f.serializer.tick given m.room).sent.toList
          counted := f.counted + (f.serializer.tick given m.room).counted } := by
  obtain ⟨given, hsame, hleft, hremoved⟩ :=
    f.serializer.tick_removed (f.shown m.available) m.room
  refine ⟨given, (f.tick m).rest, hleft, ?_, ?_⟩
  · rw [← hremoved]
    exact f.rest_eq m
  · rw [hsame, ← hremoved]
    rfl

/-- **A tick keeps to the TLPs.** -/
theorem Fed.tick (h : Fed f tag depth tlps) (m : Moment) : Fed (f.tick m) tag depth tlps := by
  obtain ⟨given, rest, hleft, hrest, htick⟩ := f.tick_eq m
  obtain ⟨hmeasured, hconserves⟩ := Serializer.tick_conserves (hrest ▸ h.measured) m.room
  have hwords := hconserves.future
  have hbegun := (Serializer.tick_whole h.measured given m.room).1
  have hended := Serializer.ended_tick h.measured.toSound given m.room
  have hpackets := f.serializer.tlpPacketsSent_tick given m.room
  simp only [hleft, List.nil_append, List.countP_nil] at hmeasured hwords hbegun hended
  rw [htick]
  refine ⟨hmeasured, ?_, fun xs => ?_, fun xs => ?_, ?_, ?_⟩
  · show f.taken ++ given.toList ++ rest = tlps.flatten
    rw [List.append_assoc, ← hrest, h.beats]
  · show f.sent ++ _ ++ _ = _
    rw [List.append_assoc, hwords, h.words, List.append_assoc]
  · show unfinished Beat.last _ xs = unfinished Beat.last false (f.taken ++ given.toList ++ xs)
    rw [hbegun, h.begun, List.append_assoc]
  · show f.counted.tlpPacketsSent + _ = (f.sent ++ _).countP (·.last)
    rw [List.countP_append, h.packets, hpackets]
  · have hbefore := h.ended
    simp only [Counters.add_def, Counters.add, List.countP_append] at hended ⊢
    omega

/-- **A run keeps to the TLPs.** -/
theorem Fed.run (h : Fed f tag depth tlps) (moments : List Moment) :
    Fed (f.run moments) tag depth tlps := by
  induction moments generalizing f with
  | nil => exact h
  | cons m moments ih => exact ih (h.tick m)

/-- What is still to be sent of the TLPs. -/
theorem Fed.sent_prefix (h : Fed f tag depth tlps) :
    f.sent <+: (Serializer.packing tag depth).answers (some []) tlps.flatten := by
  rw [← h.beats, ← h.words]
  exact List.prefix_append ..

/-- **At every moment the TLPs that were given up are those that have ended and are too long**, and
the one that is being skipped. -/
theorem Fed.overflows_eq (h : Fed f tag depth tlps) (hdepth : 0 < depth) {done : List (List Beat)}
    {part : List Beat} (hdone : ∀ tlp ∈ done, Beat.Whole tlp)
    (htaken : f.taken = done.flatten ++ part) (hpart : part.countP (·.last) = 0) :
    f.counted.tlpOverflows =
      done.countP (fun tlp => decide (depth < tlp.length)) + f.serializer.skipping.toNat := by
  have hended := h.ended
  have hwords := congrArg (List.countP (·.last)) (h.words [])
  have hsplit := List.length_eq_countP_add_countP (fun tlp => decide (depth < tlp.length)) (l := done)
  have hanswers : (Serializer.packing tag depth).answers (some []) f.taken =
      (done.filter fun tlp => decide (tlp.length ≤ depth)).flatMap fun tlp =>
        Packet.beatsFor tag (tlp.flatMap Beat.dwords) := by
    rw [htaken, Transducer.answers_append, Serializer.packing_unfinished _ _ hpart, List.append_nil,
      Serializer.packing_wholes tag hdepth hdone]
  have hpackets : ((Serializer.packing tag depth).answers (some []) f.taken).countP (·.last) =
      (done.filter fun tlp => decide (tlp.length ≤ depth)).length := by
    rw [hanswers]
    exact countP_flatMap_eq fun tlp htlp => Packet.countP_last_beatsOf tag _
      (hdone tlp (List.mem_filter.mp htlp).1).dwords_ne_nil
  rw [List.append_nil, hpackets, List.countP_append, h.measured.countP_last_future, ← h.packets,
    ← List.countP_eq_length_filter] at hwords
  rw [htaken, List.countP_append, hpart, Beat.countP_last_flatten hdone] at hended
  simp only [Bool.not_eq_true, decide_eq_false_iff_not, Nat.not_lt] at hsplit
  rw [Serializer.stored] at hended
  omega

/-! ## work -/

/-- The work left: a beat not taken weighs more than one that is stored. -/
def work (f : Feed) : Nat :=
  35 * f.rest.length + f.serializer.load

/-- Whether all of the TLPs were taken and dealt with. -/
def isDone (f : Feed) : Bool :=
  f.rest.isEmpty && f.serializer.isIdle

/-- Behind whole TLPs the serializer has nothing more to do once it waits for beats. -/
theorem Fed.isDone_of_waits (h : Fed f tag depth tlps) (hwhole : ∀ tlp ∈ tlps, Beat.Whole tlp)
    (hrest : f.rest = []) (hphase : f.serializer.phase = .idle)
    (hcomplete : f.serializer.complete = 0) : f.isDone = true := by
  have hbeats := h.beats
  rw [hrest, List.append_nil] at hbeats
  have hbegun : f.serializer.begun = false := by
    refine (h.begun []).trans ?_
    rw [List.append_nil, hbeats, ← List.flatMap_id]
    refine unfinished_flatMap fun tlp htlp => ?_
    obtain ⟨init, final, rfl, -, hfinal⟩ := hwhole tlp htlp
    simp [hfinal]
  rw [Serializer.begun, Bool.or_eq_false_iff] at hbegun
  have hbuffer : f.serializer.buffer = [] := by
    by_contra hne
    rw [unfinished_of_countP hne (h.measured.complete_eq ▸ hcomplete)] at hbegun
    exact absurd hbegun.2 (Bool.noConfusion)
  simp [isDone, Serializer.isIdle, hrest, hphase, hbuffer, hbegun.1]

/-- A tick without stalls uses up work unless all is done. -/
theorem Fed.work_tick (h : Fed f tag depth tlps) (hwhole : ∀ tlp ∈ tlps, Beat.Whole tlp) :
    (f.tick ⟨true, true⟩).work < f.work ∨ f.isDone = true := by
  have hrest : f.rest.length =
      ((f.serializer.tick (f.shown true) true).removed (f.shown true)).length +
        (f.tick ⟨true, true⟩).rest.length := by
    rw [← List.length_append]
    exact congrArg List.length (f.rest_eq ⟨true, true⟩)
  obtain hlt | ⟨-, hwaits⟩ := Serializer.tick_load h.measured (f.shown true) true
  · refine .inl ?_
    simp only [work]
    have hnext : (f.tick ⟨true, true⟩).serializer =
      (f.serializer.tick (f.shown true) true).next := rfl
    rw [hnext]
    omega
  · obtain ⟨hphase, hcomplete, hnone⟩ := hwaits rfl
    exact .inr (h.isDone_of_waits hwhole (by simpa [shown] using hnone) hphase hcomplete)

/-- **Enough ticks without stalls deal with all of the TLPs.** -/
theorem Fed.exists_done (h : Fed f tag depth tlps) (hwhole : ∀ tlp ∈ tlps, Beat.Whole tlp) :
    ∃ n, (f.run (List.replicate n ⟨true, true⟩)).isDone = true := by
  induction hwork : f.work using Nat.strongRecOn generalizing f with
  | ind work ih =>
      obtain hlt | hdone := h.work_tick hwhole
      · obtain ⟨n, hn⟩ := ih _ (hwork ▸ hlt) (h.tick _) rfl
        exact ⟨n + 1, hn⟩
      · exact ⟨0, hdone⟩

/-! ## TLPs that cannot be sent -/

theorem held_tick {tlp : List Beat} (h : f.serializer.Held tlp f.rest) (m : Moment) :
    (f.tick m).serializer.Held tlp (f.tick m).rest := by
  obtain ⟨given, rest, hleft, hrest, htick⟩ := f.tick_eq m
  have hnext := Serializer.Held.tick (hrest ▸ h) m.room
  rw [hleft, List.nil_append] at hnext
  rw [htick]
  exact hnext

theorem held_run {tlp : List Beat} (h : f.serializer.Held tlp f.rest) (moments : List Moment) :
    (f.run moments).serializer.Held tlp (f.run moments).rest := by
  induction moments generalizing f with
  | nil => exact h
  | cons m moments ih => exact ih (held_tick h m)

/-- **A TLP that fits and cannot be sent is never dealt with.** -/
theorem isDone_run_of_unsendable (tag : UInt8) {tlp : List Beat}
    (h : Serializer.Unsendable depth tlp) (moments : List Moment) :
    ((start tag depth [tlp]).run moments).isDone = false := by
  have hstart : (start tag depth [tlp]).serializer.Held tlp (start tag depth [tlp]).rest := by
    simpa [start] using Serializer.held_empty tag h
  have hheld := held_run hstart moments
  rw [isDone]
  cases hrest : ((start tag depth [tlp]).run moments).rest with
  | cons b rest => rfl
  | nil =>
      rw [hrest] at hheld
      rw [hheld.isIdle_eq_false]
      rfl

/-- The beginning of a TLP is stored. -/
theorem run_stored {beats rest : List Beat} (hrest : f.rest = beats ++ rest)
    (hphase : f.serializer.phase = .idle) (hrunning : f.serializer.skipping = false)
    (hcomplete : f.serializer.complete = 0) (hnone : beats.countP (·.last) = 0)
    (hroom : f.serializer.level + beats.length ≤ f.serializer.depth) :
    ∃ taken counted, f.run (List.replicate beats.length ⟨true, true⟩) =
      { serializer := { f.serializer with buffer := f.serializer.buffer ++ beats }
        rest, taken, sent := f.sent, counted } := by
  induction beats generalizing f with
  | nil =>
      refine ⟨f.taken, f.counted, ?_⟩
      rw [List.append_nil, ← show f.rest = rest from hrest]
      rfl
  | cons b beats ih =>
      rw [List.length_cons] at hroom
      obtain ⟨hlast, hnone⟩ := Beat.countP_last_cons_eq_zero hnone
      have hstored := Serializer.tick_stored hphase hrunning hcomplete (by omega) b true
      have hshown : f.shown true = some b := by rw [shown, if_pos rfl, hrest]; rfl
      have htick : f.tick ⟨true, true⟩ =
          { serializer := { f.serializer with
              buffer := f.serializer.buffer ++ [b], complete := b.last.toNat }
            rest := beats ++ rest, taken := f.taken ++ [b], sent := f.sent ++ []
            counted := f.counted + { tlpBeatsIn := 1 } } := by
        simp only [tick, hshown, hstored, hrest]
        rfl
      obtain ⟨taken, counted, hrun⟩ := ih (f := f.tick ⟨true, true⟩) (by rw [htick])
        (by rw [htick]; exact hphase) (by rw [htick]; exact hrunning)
        (by rw [htick, hlast]; rfl) hnone
        (by
          rw [htick]
          simp only [Serializer.level, List.length_append, List.length_singleton] at hroom ⊢
          omega)
      refine ⟨taken, counted, ?_⟩
      rw [List.length_cons, List.replicate_succ, run, List.foldl_cons, ← run, hrun, htick]
      simp [hlast, ← hcomplete]

/-- A TLP whose length wraps around to nothing is begun with a word that ends its packet. -/
theorem sent_filled (tag : UInt8) {n : Nat} (hpos : 0 < n) (hfits : n + 1 ≤ depth)
    (hlength : UInt32.size ∣ 2 * (n + 1)) :
    ((start tag depth [Beat.filled n]).run
      (List.replicate n ⟨true, true⟩ ++ [⟨true, true⟩, ⟨true, true⟩])).sent =
      [{ dst := tag, length := 1, data := 1, last := true }] := by
  let s : Serializer := { tag, depth, buffer := List.replicate n (.pair 1 2 false) }
  have hrest : (start tag depth [Beat.filled n]).rest =
      List.replicate n (.pair 1 2 false) ++ [.pair 3 4 true] := by simp [start, Beat.filled]
  obtain ⟨taken, counted, hrun⟩ := run_stored hrest rfl rfl rfl (Beat.countP_last_replicate n)
    (by simp [start, Serializer.empty, Serializer.level]; omega)
  have hempty : (start tag depth [Beat.filled n]).serializer = { tag, depth } := by
    rw [start, Serializer.empty, Nat.max_eq_left (by omega)]
  have hsplit (f : Feed) (ms ms' : List Moment) : f.run (ms ++ ms') = (f.run ms).run ms' :=
    List.foldl_append
  rw [List.length_replicate, hempty, List.nil_append] at hrun
  rw [hsplit, hrun]
  show [] ++ (s.tick (some (.pair 3 4 true)) true).sent.toList ++
    ((s.tick (some (.pair 3 4 true)) true).next.tick none true).sent.toList = _
  rw [Serializer.tick_filled tag hfits, Serializer.sent_filled tag hpos hlength]
  rfl

end

end Feed

/-- **TLPs are framed in order, whenever beats and room come.** What a serializer has sent is a
beginning of the packets of the TLPs that fit into its buffer: of every beat the lower dword, and
the upper one if it is enabled. A TLP that does not fit is given up once; at every moment those of
the TLPs taken to their ends are counted, and the one that is being skipped. With all of the TLPs
taken and nothing under way everything was sent, and it comes to that if both ends are only let. -/
theorem tlps_framed_in_order (tag : UInt8) {depth : Nat} (hdepth : 1 ≤ depth)
    {tlps : List (List Beat)} (hsendable : ∀ tlp ∈ tlps, Serializer.Sendable depth tlp)
    (moments : List Feed.Moment) :
    let f := (Feed.start tag depth tlps).run moments
    let fitting := tlps.filter fun tlp => decide (tlp.length ≤ depth)
    let due := fitting.flatMap fun tlp => Packet.beatsFor tag (tlp.flatMap Beat.dwords)
    (∀ b : Beat, b.dwords = b.low :: if b.enable &&& 0xF0 = 0 then [] else [b.high]) ∧
      f.sent <+: due ∧
      f.counted.tlpPacketsSent = f.sent.countP (·.last) ∧
      (∃ done later part, tlps = done ++ later ∧ part ++ f.rest = later.flatten ∧
        part.countP (·.last) = 0 ∧
        f.counted.tlpOverflows = done.countP (fun tlp => decide (depth < tlp.length)) +
          f.serializer.skipping.toNat) ∧
      (f.isDone = true → f.sent = due ∧ f.counted.tlpPacketsSent = fitting.length ∧
        f.counted.tlpOverflows = tlps.countP fun tlp => decide (depth < tlp.length)) ∧
      ∃ n, (f.run (List.replicate n ⟨true, true⟩)).isDone = true := by
  intro f fitting due
  have hwhole (tlp) (htlp : tlp ∈ tlps) : Beat.Whole tlp := (hsendable tlp htlp).1
  have hf : f.Fed tag depth tlps := (Feed.fed_start tag hdepth hsendable).run moments
  have hdue : (Serializer.packing tag depth).answers (some []) tlps.flatten = due :=
    Serializer.packing_wholes tag hdepth hwhole
  refine ⟨Beat.dwords_eq, hdue ▸ hf.sent_prefix, hf.packets, ?_, fun hdone => ?_,
    hf.exists_done hwhole⟩
  · obtain ⟨done, later, part, rfl, htaken, hrest, hpart⟩ := Beat.exists_ended hwhole hf.beats
    exact ⟨done, later, part, rfl, hrest, hpart, hf.overflows_eq hdepth
      (fun tlp htlp => hwhole tlp (List.mem_append_left _ htlp)) htaken hpart⟩
  · simp only [Feed.isDone, Bool.and_eq_true, List.isEmpty_iff] at hdone
    obtain ⟨hrest, hidle⟩ := hdone
    have htaken := hf.beats
    rw [hrest, List.append_nil] at htaken
    have hsent : f.sent = due := by
      have hwords := hf.words []
      rwa [Serializer.future_of_isIdle hidle, Transducer.answers_nil, List.append_nil,
        List.append_nil, htaken, hdue] at hwords
    have hskipping : f.serializer.skipping = false := by
      simp only [Serializer.isIdle, Bool.and_eq_true, Bool.not_eq_true'] at hidle
      exact hidle.2
    refine ⟨hsent, ?_, ?_⟩
    · rw [hf.packets, hsent]
      exact countP_flatMap_eq fun tlp htlp => Packet.countP_last_beatsOf tag _
        (hwhole tlp (List.mem_filter.mp htlp).1).dwords_ne_nil
    · rw [hf.overflows_eq hdepth hwhole (by rw [htaken, List.append_nil]) List.countP_nil,
        hskipping]
      rfl

/-- A TLP of three beats between a TLP of two and a TLP of one, through a buffer of two beats that
finds room on every other tick. -/
theorem tlps_framed_in_order_overflow :
    let tlps : List (List Beat) := [[.pair 1 2 false, .lone 3],
      [.pair 4 5 false, .pair 6 7 false, .lone 8], [.lone 9]]
    (∀ tlp ∈ tlps, Serializer.Sendable 2 tlp) ∧
      let f := (Feed.start 5 2 tlps).run (List.replicate 10 [⟨true, false⟩, ⟨true, true⟩]).flatten
      f.isDone = true ∧ f.sent = Packet.beatsFor 5 [1, 2, 3] ++ Packet.beatsFor 5 [9] ∧
        f.counted.tlpPacketsSent = 2 ∧ f.counted.tlpOverflows = 1 := by
  intro tlps
  have hsendable : ∀ tlp ∈ tlps, Serializer.Sendable 2 tlp := by
    refine List.forall_mem_cons.mpr ⟨⟨⟨[_], _, rfl, rfl, rfl⟩, fun _ => by decide⟩, ?_⟩
    refine List.forall_mem_cons.mpr ⟨⟨⟨[_, _], _, rfl, rfl, rfl⟩, fun _ => by decide⟩, ?_⟩
    exact List.forall_mem_cons.mpr ⟨⟨⟨[], _, rfl, rfl, rfl⟩, fun _ => by decide⟩, nofun⟩
  have hdone : ((Feed.start 5 2 tlps).run
      (List.replicate 10 [⟨true, false⟩, ⟨true, true⟩]).flatten).isDone = true := by decide +kernel
  obtain ⟨-, -, -, -, hend, -⟩ := tlps_framed_in_order 5 (by decide : 1 ≤ 2) hsendable
    (List.replicate 10 [⟨true, false⟩, ⟨true, true⟩]).flatten
  obtain ⟨hsent, hpackets, hoverflows⟩ := hend hdone
  exact ⟨hsendable, hdone, hsent.trans (by decide), hpackets.trans (by decide),
    hoverflows.trans (by decide)⟩

/-- **Not every TLP that fits into the buffer is framed.** The number of dwords of this one, `2 ^ 32`,
does not fit into a word: its first word ends its packet, and it is never dealt with. Nor is there a
buffer of every depth. -/
theorem not_every_fitting_framed :
    let depth := 0x80000000
    let tlp := Beat.filled 0x7fffffff
    let moments := List.replicate 0x7fffffff ⟨true, true⟩ ++ [⟨true, true⟩, ⟨true, true⟩]
    Beat.Whole tlp ∧ tlp.length ≤ depth ∧
      ((Feed.start 5 depth [tlp]).run moments).sent =
        [{ dst := 5, length := 1, data := 1, last := true }] ∧
      ¬ ((Feed.start 5 depth [tlp]).run moments).sent <+:
        Packet.beatsFor 5 (tlp.flatMap Beat.dwords) ∧
      (∀ moments, ((Feed.start 5 depth [tlp]).run moments).isDone = false) ∧
      ∀ a : Allocator, ∃ s,
        Serializer.construct a 5 Storage.maxBytes = .error (.exhausted s) := by
  intro depth tlp moments
  have hlong : Serializer.Unsendable depth tlp := Beat.unsendable_filled (by decide) (by decide)
  have hsent : ((Feed.start 5 depth [tlp]).run moments).sent = _ :=
    Feed.sent_filled 5 (by decide) (by decide) (by decide)
  refine ⟨hlong.whole, hlong.fits, hsent, ?_, Feed.isDone_run_of_unsendable 5 hlong,
    fun a => Serializer.exists_construct_exhausted a 5 (by decide)⟩
  rw [hsent]
  exact Beat.not_prefix_filled (by decide) 5 rfl

end LinkBridge.Tlp
