import LinkBridge.Proofs.Allocation
import LinkBridge.Proofs.Progress.Tlp
import LinkBridge.Proofs.Tlp.Codec
import LinkBridge.Proofs.Tlp.Unsendable

/-!
# LinkBridge.Proofs.Tlp.Conversion

TLPs that are taken apart into words and put together again. A `Conversion` is a serializer, a
channel of words and a deserializer in a row; its moves are the ticks of the two and the end of a
tick of the channel, in any order, each tick with stalls on the far side. Three facts carry the
conversion:

* whatever moves, what was passed on, followed by what is to come of the words in the channel and
  the beats not taken, stays the same (`Conversion.Joined`);
* that is, TLP by TLP, the dwords packed two to a beat (`repacked`);
* as long as something is left to pass on, a round without stalls uses up some of the `work`.

Main statement: `width_conversion`.
-/

namespace LinkBridge.Tlp

/-! ## packed beats -/

namespace Beat

/-- Whether the beats of a TLP are packed: every beat but the last one has all its lanes, and the
last one has either all of them or the low half, with nothing in the high half. -/
def Dense (tlp : List Beat) : Prop :=
  ∃ init final, tlp = init ++ [final] ∧ (∀ b ∈ init, b.enable = 0xFF ∧ b.last = false) ∧
    final.last = true ∧ (final.enable = 0xFF ∨ final.enable = 0x0F ∧ final.high = 0)

/-- The dwords of a TLP, packed two to a beat. -/
def repacked (tlp : List Beat) : List Beat :=
  ofDwords (tlp.flatMap dwords)

theorem high_lone (a : Word) : (lone a).high = 0 := by
  have ha := a.toNat_lt
  apply UInt32.toNat_inj.mp
  simp only [high, lone, UInt32.toNat_ofNat', UInt32.toNat_toUInt64, UInt32.toNat_zero]
  omega

/-- A beat with all its lanes is made of its two dwords. -/
theorem pair_low_high {b : Beat} (h : b.enable = 0xFF) : pair b.low b.high b.last = b := by
  obtain ⟨data, enable, last⟩ := b
  obtain rfl : enable = 0xFF := h
  have hlt := data.toNat_lt
  rw [pair, mk.injEq]
  refine ⟨UInt64.toNat_inj.mp ?_, rfl, rfl⟩
  simp only [low, high, UInt64.toNat_ofNat', UInt64.toNat_toUInt32, UInt32.toNat_ofNat']
  omega

/-- A last beat with nothing in the high half is made of its low dword. -/
theorem lone_low {b : Beat} (henable : b.enable = 0x0F) (hhigh : b.high = 0)
    (hlast : b.last = true) : lone b.low = b := by
  obtain ⟨data, enable, last⟩ := b
  obtain rfl : enable = 0x0F := henable
  obtain rfl : last = true := hlast
  have hlt := data.toNat_lt
  have hzero := congrArg UInt32.toNat hhigh
  rw [lone, mk.injEq]
  refine ⟨UInt64.toNat_inj.mp ?_, rfl, rfl⟩
  simp only [low, high, UInt32.toNat_toUInt64, UInt64.toNat_toUInt32, UInt32.toNat_ofNat',
    UInt32.toNat_zero] at hzero ⊢
  omega

theorem dwords_of_full {b : Beat} (h : b.enable = 0xFF) : b.dwords = [b.low, b.high] := by
  rw [← pair_low_high h, dwords_pair, low_pair, high_pair]

/-- Packed dwords fill the lanes. -/
theorem dense_ofDwords {ws : List Word} (hne : ws ≠ []) : Dense (ofDwords ws) := by
  fun_induction ofDwords ws with
  | case1 => exact absurd rfl hne
  | case2 a => exact ⟨[], lone a, rfl, List.forall_mem_nil _, rfl, .inr ⟨rfl, high_lone a⟩⟩
  | case3 a b rest ih =>
      cases rest with
      | nil => exact ⟨[], pair a b true, rfl, List.forall_mem_nil _, rfl, .inl rfl⟩
      | cons c rest =>
          obtain ⟨init, final, hsplit, hinit, hfinal⟩ := ih (List.cons_ne_nil c rest)
          refine ⟨pair a b false :: init, final, by rw [hsplit]; rfl, ?_, hfinal⟩
          exact List.forall_mem_cons.mpr ⟨⟨rfl, rfl⟩, hinit⟩

/-- **Packing leaves packed beats as they are.** -/
theorem Dense.repacked_eq {tlp : List Beat} (h : Dense tlp) : repacked tlp = tlp := by
  obtain ⟨init, final, rfl, hinit, hlast, hfinal⟩ := h
  rw [repacked]
  induction init with
  | nil =>
      obtain henable | ⟨henable, hhigh⟩ := hfinal
      · rw [List.nil_append, List.flatMap_singleton, dwords_of_full henable]
        simp [ofDwords, ← hlast, pair_low_high henable]
      · rw [← lone_low henable hhigh hlast]
        simp [ofDwords]
  | cons b init ih =>
      obtain ⟨⟨henable, hnot⟩, hinit⟩ := List.forall_mem_cons.mp hinit
      have hne : ((init ++ [final]).flatMap dwords).isEmpty = false := by
        simp [final.dwords_ne_nil]
      rw [List.cons_append, List.flatMap_cons, dwords_of_full henable, List.cons_append,
        List.cons_append, List.nil_append, ofDwords, hne, ← hnot, pair_low_high henable, ih hinit]

/-- What becomes of a TLP that is taken apart and put together: the same dwords, packed. Packed
beats stay as they are, and a well-formed TLP is read from them. -/
structure Converted (tlp out : List Beat) : Prop where
  dwords : out.flatMap dwords = tlp.flatMap dwords
  dense : Dense out
  unchanged : Dense tlp → out = tlp
  record (r : Record) : tlp = r.toBeats → r.data.length = r.header.dataDwords → r.header.Fits →
    Record.ofBeats out = .ok r

theorem converted_repacked {tlp : List Beat} (h : Whole tlp) : Converted tlp (repacked tlp) where
  dwords := flatMap_dwords_ofDwords _
  dense := dense_ofDwords h.dwords_ne_nil
  unchanged hdense := hdense.repacked_eq
  record := by
    rintro r rfl hdata hfits
    rw [Record.ofBeats, repacked, flatMap_dwords_ofDwords]
    exact (Record.ofBeats_toBeats r).trans (Record.ofDwords_toDwords hfits hdata)

theorem dense_filled (n : Nat) : Dense (filled n) := by
  refine ⟨_, _, rfl, fun b hb => ?_, rfl, .inl rfl⟩
  rw [List.eq_of_mem_replicate hb]
  exact ⟨rfl, rfl⟩

/-- The first of many beats has all of its lanes. -/
theorem not_prefix_repacked_filled {n : Nat} (hpos : 0 < n) :
    ¬ [lone 1] <+: repacked (filled n) := by
  obtain ⟨m, rfl⟩ := Nat.exists_eq_succ_of_ne_zero (Nat.ne_of_gt hpos)
  rw [repacked, flatMap_dwords_filled_succ, ofDwords, List.cons_prefix_cons]
  rintro ⟨hbeat, -⟩
  have henable : (0x0F : UInt8) = 0xFF := congrArg enable hbeat
  exact absurd henable (by decide)

/-- Packed beats are one TLP. -/
theorem Dense.blocks_eq {tlp : List Beat} (h : Dense tlp) :
    blocks Beat.last tlp = [tlp] ∧ finished Beat.last tlp = true := by
  obtain ⟨init, final, rfl, hinit, hlast, -⟩ := h
  refine ⟨blocks_eq_singleton (by simp) ?_, by simpa using hlast⟩
  intro b hb
  rw [List.dropLast_concat] at hb
  exact (hinit b hb).2

/-- **A stream of packed TLPs is cut where the TLPs end.** -/
theorem blocks_flatten {tlps : List (List Beat)} (h : ∀ tlp ∈ tlps, Dense tlp) :
    blocks Beat.last tlps.flatten = tlps := by
  induction tlps with
  | nil => rfl
  | cons tlp tlps ih =>
      obtain ⟨htlp, htlps⟩ := List.forall_mem_cons.mp h
      rw [List.flatten_cons, blocks_append htlp.blocks_eq.2, htlp.blocks_eq.1, ih htlps]
      rfl

end Beat

/-! ## the words in between -/

namespace Serializer

/-- Between two packets nothing is to come of an unfinished TLP. -/
theorem Exact.future_nil {s : Serializer} (h : Exact s) (hphase : s.phase = .idle)
    (hcomplete : s.complete = 0) : s.future [] = [] := by
  have hnone : (s.buffer ++ []).countP Beat.last = 0 := by
    rw [List.append_nil, ← h.complete_eq, hcomplete]
  rw [future, hphase]
  exact packing_unfinished s.tag s.depth hnone _

end Serializer

/-! ## conversions -/

/-- A serializer, a channel of words and a deserializer in a row. -/
structure Conversion where
  serializer : Serializer
  /-- The beats the serializer has not taken. -/
  rest : List Beat
  words : Channel PacketBeat
  deserializer : Deserializer := {}
  /-- The beats the deserializer has passed on. -/
  passed : List Beat := []

namespace Conversion

/-- A tick of one of the two, or the end of a tick of the channel: whether a beat is available to
the serializer, and whether there is room behind the deserializer. -/
inductive Move where
  | serializer (available : Bool)
  | deserializer (room : Bool)
  | commit

/-- A conversion in front of TLPs. -/
def start (tag : UInt8) (depth capacity : Nat) (tlps : List (List Beat)) : Conversion where
  serializer := .empty tag depth
  rest := tlps.flatten
  words := .empty capacity

/-- The beat the serializer is shown. -/
def shown (c : Conversion) (available : Bool) : Option Beat :=
  if available then c.rest.head? else none

/-- One move. -/
def move (c : Conversion) : Move → Conversion
  | .serializer available =>
    let t := c.serializer.tick (c.shown available) c.words.ready
    { c with
      serializer := t.next
      rest := t.left (c.shown available) ++ c.rest.drop (c.shown available).toList.length
      words := t.fill c.words }
  | .deserializer room =>
    let t := c.deserializer.tick c.words.peek room
    { c with
      deserializer := t.next
      words := t.drain c.words
      passed := c.passed ++ t.sent.toList }
  | .commit => { c with words := c.words.commit }

/-- Moves in order. -/
def run (c : Conversion) (moves : List Move) : Conversion :=
  moves.foldl move c

/-- The moves of `n` rounds without stalls. -/
def rounds (n : Nat) : List Move :=
  (List.replicate n [.commit, .serializer true, .deserializer true]).flatten

/-- Whether nothing is left to do. -/
def isDrained (c : Conversion) : Bool :=
  c.rest.isEmpty && c.serializer.isIdle && c.words.isEmpty && c.deserializer.isIdle

/-- What is still to come. -/
def toCome (c : Conversion) : List Beat :=
  c.deserializer.future (c.words.contents ++ c.serializer.future c.rest)

/-- The parts of a conversion fit together, on the way to the beats `due`. -/
structure Joined (c : Conversion) (due : List Beat) : Prop where
  measured : c.serializer.Measured c.rest
  capacity : 0 < c.words.capacity
  beats : c.passed ++ c.toCome = due

theorem joined_start (tag : UInt8) (depth capacity : Nat) {tlps : List (List Beat)}
    (h : ∀ tlp ∈ tlps, Beat.Whole tlp ∧ tlp.length ≤ depth ∧
      (tlp.flatMap Beat.dwords).length < UInt32.size) :
    Joined (start tag depth capacity tlps) (tlps.map Beat.repacked).flatten where
  measured := ((Serializer.sound_empty tag depth).measured rfl).append
    fun tlp htlp => ⟨(h tlp htlp).1, fun _ => (h tlp htlp).2.2⟩
  capacity := by
    show 0 < max capacity 1
    omega
  beats := by
    show Deserializer.pairing.answers none
      ((Serializer.packing tag (max depth 1)).answers (some []) tlps.flatten) = _
    have hfits : (tlps.filter fun tlp => decide (tlp.length ≤ max depth 1)) = tlps :=
      List.filter_eq_self.mpr fun tlp htlp =>
        decide_eq_true (Nat.le_trans (h tlp htlp).2.1 (Nat.le_max_left ..))
    rw [Serializer.packing_wholes tag (by omega) fun tlp htlp => (h tlp htlp).1, hfits]
    exact (Transducer.answers_blocks _ fun _ _ => Deserializer.pairing_beatsOf ..).trans
      List.flatMap_def

section

variable {c : Conversion} {due : List Beat}

theorem rest_eq (c : Conversion) (available : Bool) :
    c.rest = (c.shown available).toList ++ c.rest.drop (c.shown available).toList.length := by
  unfold shown
  cases available with
  | false => rfl
  | true => cases c.rest <;> rfl

/-- A tick of the serializer changes nothing about what is to come. -/
theorem Joined.move_serializer (hj : Joined c due) (available : Bool) :
    Joined (c.move (.serializer available)) due := by
  obtain ⟨hmeasured, hconserves⟩ :=
    Serializer.tick_conserves (c.rest_eq available ▸ hj.measured) c.words.ready
  have hwords := Transfer.contents_fill _ c.words trivial hconserves.ready
  refine ⟨hmeasured, ?_, ?_⟩
  · show 0 < (Transfer.fill _ c.words).capacity
    rw [Channel.capacity_fill]
    exact hj.capacity
  · have htoCome : (c.move (.serializer available)).toCome = c.toCome := by
      refine congrArg c.deserializer.future ?_
      refine (congrArg (· ++ _) hwords).trans ?_
      refine (List.append_assoc ..).trans (congrArg (c.words.contents ++ ·) ?_)
      exact (hconserves.future _).trans (congrArg c.serializer.future (c.rest_eq available).symm)
    rw [htoCome]
    exact hj.beats

/-- A tick of the deserializer passes on the next of what is to come. -/
theorem Joined.move_deserializer (hj : Joined c due) (room : Bool) :
    Joined (c.move (.deserializer room)) due := by
  have hconserves := c.deserializer.tick_conserves c.words.peek room
  have hwords := Transfer.contents_drain (c.deserializer.tick c.words.peek room) c.words
  refine ⟨hj.measured, ?_, ?_⟩
  · show 0 < (Transfer.drain _ c.words).capacity
    rw [Channel.capacity_drain]
    exact hj.capacity
  · have htoCome : (c.deserializer.tick c.words.peek room).sent.toList ++
        (c.move (.deserializer room)).toCome = c.toCome := by
      rw [toCome, toCome, c.words.contents_take, List.append_assoc, ← hconserves.future,
        ← List.append_assoc (Transfer.left _ _)]
      exact congrArg (fun ws => _ ++ Deserializer.future _ (ws ++ _)) hwords
    rw [← hj.beats, ← htoCome, ← List.append_assoc]
    rfl

/-- The end of a tick of the channel changes nothing about what is to come. -/
theorem Joined.move_commit (hj : Joined c due) : Joined (c.move .commit) due := by
  refine ⟨hj.measured, hj.capacity, ?_⟩
  rw [← hj.beats, toCome, toCome, ← c.words.contents_commit]
  rfl

/-- **Every run keeps the parts together.** -/
theorem Joined.run (hj : Joined c due) (moves : List Move) : Joined (c.run moves) due := by
  induction moves generalizing c with
  | nil => exact hj
  | cons m moves ih =>
      cases m with
      | serializer available => exact ih (hj.move_serializer available)
      | deserializer room => exact ih (hj.move_deserializer room)
      | commit => exact ih hj.move_commit

/-- Where the channel is empty and no packet is left to send, everything was passed on. -/
theorem Joined.passed_eq (hj : Joined c due) (hrest : c.rest = [])
    (hphase : c.serializer.phase = .idle) (hcomplete : c.serializer.complete = 0)
    (hwords : c.words.contents = []) : c.passed = due := by
  rw [← hj.beats, toCome, hrest, hj.measured.future_nil hphase hcomplete, hwords]
  exact (List.append_nil _).symm

theorem Joined.passed_of_isDrained (hj : Joined c due) (h : c.isDrained = true) :
    c.passed = due := by
  simp only [isDrained, Serializer.isIdle, Bool.and_eq_true, List.isEmpty_iff,
    decide_eq_true_eq] at h
  obtain ⟨⟨⟨hrest, ⟨hphase, hbuffer⟩, -⟩, hwords⟩, -⟩ := h
  refine hj.passed_eq hrest hphase ?_ (Channel.contents_of_isEmpty hwords)
  rw [hj.measured.complete_eq, hbuffer]
  rfl

/-! ## work -/

/-- The work left: a beat not taken weighs more than the words it becomes. -/
def work (c : Conversion) : Nat :=
  35 * c.rest.length + c.serializer.load + 15 * c.words.contents.length

/-- A tick of the serializer uses up work, or changes nothing because the channel is full or no
packet is left to send. -/
theorem Joined.work_serializer (hj : Joined c due) :
    (c.move (.serializer true)).work < c.work ∨
      c.move (.serializer true) = c ∧ (c.words.ready = true →
        c.rest = [] ∧ c.serializer.phase = .idle ∧ c.serializer.complete = 0) := by
  obtain ⟨t, ht⟩ : ∃ t, t = c.serializer.tick (c.shown true) c.words.ready := ⟨_, rfl⟩
  have hmove : c.move (.serializer true) = { c with
      serializer := t.next
      rest := t.left (c.shown true) ++ c.rest.drop (c.shown true).toList.length
      words := t.fill c.words } := by
    rw [ht]
    rfl
  have hload := Serializer.tick_load hj.measured (c.shown true) c.words.ready
  simp only [← ht] at hload
  rw [hmove]
  obtain hlt | ⟨hrests, hidle⟩ := hload
  · refine .inl ?_
    have hfill := c.words.length_fill_le t
    have hrest := congrArg List.length (c.rest_eq true)
    have hleft : (t.left (c.shown true)).length + (t.removed (c.shown true)).length =
        (c.shown true).toList.length := by
      unfold Transfer.left Transfer.removed
      split <;> simp
    rw [List.length_append] at hrest
    simp only [work, List.length_append]
    omega
  · refine .inr ⟨?_, fun hready => ?_⟩
    · rw [hrests.next, hrests.fill c.words, Transfer.left_of_not_taken hrests.taken,
        ← c.rest_eq true]
    · obtain ⟨hphase, hcomplete, hnone⟩ := hidle hready
      exact ⟨by simpa [shown] using hnone, hphase, hcomplete⟩

/-- A tick of the deserializer uses up work unless no word is presented. -/
theorem work_deserializer (c : Conversion) :
    (c.move (.deserializer true)).work < c.work ∨
      (c.move (.deserializer true)).work = c.work ∧ c.words.peek = none := by
  have hdrain := c.words.length_drain (c.deserializer.tick c.words.peek true)
  obtain hremoved | ⟨hrests, hnone⟩ := c.deserializer.tick_load c.words.peek true
  · refine .inl ?_
    have hpos := List.length_pos_iff.mpr hremoved
    simp only [work, move]
    omega
  · refine .inr ⟨?_, hnone rfl⟩
    simp only [work, move]
    rw [hrests.drain c.words]

/-- A round without stalls uses up work unless everything was passed on. -/
theorem Joined.work_round (hj : Joined c due) :
    (c.run (rounds 1)).work < c.work ∨ c.passed = due := by
  have hcommit : (c.move .commit).work = c.work := by
    simp only [work, move, c.words.contents_commit]
  have hround : (c.run (rounds 1)) =
      ((c.move .commit).move (.serializer true)).move (.deserializer true) := rfl
  rw [hround, ← hcommit]
  obtain hdeserializer := ((c.move .commit).move (.serializer true)).work_deserializer
  obtain hlt | ⟨hsame, hserializer⟩ := hj.move_commit.work_serializer
  · omega
  rw [hsame] at hdeserializer ⊢
  obtain hlt | ⟨-, hnone⟩ := hdeserializer
  · exact .inl hlt
  right
  -- after its commit the channel shows what it stores, so it is empty and has room
  have hempty : (c.move .commit).words.contents = [] :=
    c.words.committed_commit.contents_eq_nil hnone
  have hready := c.words.committed_commit.ready hj.capacity hempty
  obtain ⟨hrest, hphase, hcomplete⟩ := hserializer hready
  exact hj.move_commit.passed_eq hrest hphase hcomplete hempty

/-- **Enough rounds without stalls pass everything on.** -/
theorem Joined.exists_rounds (hj : Joined c due) : ∃ n, (c.run (rounds n)).passed = due := by
  induction hwork : c.work using Nat.strongRecOn generalizing c with
  | ind work ih =>
      obtain hlt | hdone := hj.work_round
      · obtain ⟨n, hn⟩ := ih _ (hwork ▸ hlt) (hj.run (rounds 1)) rfl
        refine ⟨n + 1, ?_⟩
        rw [← hn, rounds, List.replicate_succ, List.flatten_cons]
        exact congrArg Conversion.passed List.foldl_append
      · exact ⟨0, hdone⟩

/-! ## TLPs that cannot be sent -/

/-- The beginning of a TLP is stored. -/
theorem run_stored {beats rest : List Beat} (hrest : c.rest = beats ++ rest)
    (hphase : c.serializer.phase = .idle) (hrunning : c.serializer.skipping = false)
    (hcomplete : c.serializer.complete = 0) (hnone : beats.countP (·.last) = 0)
    (hroom : c.serializer.level + beats.length ≤ c.serializer.depth) :
    c.run (List.replicate beats.length (.serializer true)) =
      { c with
        serializer := { c.serializer with buffer := c.serializer.buffer ++ beats }
        rest } := by
  induction beats generalizing c with
  | nil =>
      rw [List.append_nil, ← show c.rest = rest from hrest]
      rfl
  | cons b beats ih =>
      rw [List.length_cons] at hroom
      obtain ⟨hlast, hnone⟩ := Beat.countP_last_cons_eq_zero hnone
      have hstored := Serializer.tick_stored hphase hrunning hcomplete (by omega) b c.words.ready
      have hshown : c.shown true = some b := by rw [shown, if_pos rfl, hrest]; rfl
      have hmove : c.move (.serializer true) =
          { c with
            serializer := { c.serializer with
              buffer := c.serializer.buffer ++ [b], complete := b.last.toNat }
            rest := beats ++ rest } := by
        simp only [move, hshown, hstored, hrest]
        rfl
      have hrun := ih (c := c.move (.serializer true)) (by rw [hmove]) (by rw [hmove]; exact hphase)
        (by rw [hmove]; exact hrunning) (by rw [hmove, hlast]; rfl) hnone
        (by
          rw [hmove]
          simp only [Serializer.level, List.length_append, List.length_singleton] at hroom ⊢
          omega)
      rw [List.length_cons, List.replicate_succ, run, List.foldl_cons, ← run, hrun, hmove]
      simp [hlast, ← hcomplete]

/-- A TLP whose length wraps around to nothing arrives as one of a single dword. -/
theorem passed_filled (tag : UInt8) {depth n : Nat} (hpos : 0 < n) (hfits : n + 1 ≤ depth)
    (hlength : UInt32.size ∣ 2 * (n + 1)) :
    ((start tag depth 1 [Beat.filled n]).run (List.replicate n (.serializer true) ++
      [.serializer true, .serializer true, .commit, .deserializer true])).passed = [.lone 1] := by
  let s : Serializer := { tag, depth, buffer := List.replicate n (.pair 1 2 false) }
  have hrest : (start tag depth 1 [Beat.filled n]).rest =
      List.replicate n (.pair 1 2 false) ++ [.pair 3 4 true] := by simp [start, Beat.filled]
  have hrun := run_stored hrest rfl rfl rfl (Beat.countP_last_replicate n)
    (by simp [start, Serializer.empty, Serializer.level]; omega)
  have hempty : (start tag depth 1 [Beat.filled n]).serializer = { tag, depth } := by
    rw [start, Serializer.empty, Nat.max_eq_left (by omega)]
  have hsplit (c : Conversion) (ms ms' : List Move) : c.run (ms ++ ms') = (c.run ms).run ms' :=
    List.foldl_append
  rw [List.length_replicate, hempty, List.nil_append] at hrun
  rw [hsplit, hrun]
  show [] ++ (({} : Deserializer).tick (Transfer.fill
    ((s.tick (some (.pair 3 4 true)) true).next.tick none true)
    (Channel.empty 1 : Channel PacketBeat)).commit.peek true).sent.toList = _
  rw [Transfer.fill, Serializer.tick_filled tag hfits, Serializer.sent_filled tag hpos hlength]
  rfl

end

end Conversion

/-- **TLPs that are taken apart and put together carry the same dwords, packed two to a beat.**
Whenever beats and room come, and whatever the channel holds, what was passed on is a beginning of
the TLPs repacked, and all of them once nothing is under way; the beats then end where the TLPs do.
Nothing stays under way if both ends are only let. Packed TLPs arrive as they are, and well-formed
ones are read from what arrives. -/
theorem width_conversion (tag : UInt8) (depth capacity : Nat) (tlps : List (List Beat))
    (h : ∀ tlp ∈ tlps, Beat.Whole tlp ∧ tlp.length ≤ depth ∧
      (tlp.flatMap Beat.dwords).length < UInt32.size) (moves : List Conversion.Move) :
    let c := (Conversion.start tag depth capacity tlps).run moves
    let due := tlps.map Beat.repacked
    (∀ tlp ∈ tlps, Beat.Converted tlp (Beat.repacked tlp)) ∧
      c.passed <+: due.flatten ∧
      (c.isDrained = true → c.passed = due.flatten ∧ blocks Beat.last c.passed = due) ∧
      ∃ n, (c.run (Conversion.rounds n)).passed = due.flatten := by
  intro c due
  have hj : c.Joined due.flatten := (Conversion.joined_start tag depth capacity h).run moves
  have hconverted (tlp) (htlp : tlp ∈ tlps) := Beat.converted_repacked (h tlp htlp).1
  refine ⟨hconverted, ?_, fun hdrained => ?_, hj.exists_rounds⟩
  · rw [← hj.beats]
    exact List.prefix_append ..
  · have hpassed := hj.passed_of_isDrained hdrained
    refine ⟨hpassed, hpassed ▸ Beat.blocks_flatten fun out hout => ?_⟩
    obtain ⟨tlp, htlp, rfl⟩ := List.mem_map.mp hout
    exact (hconverted tlp htlp).dense

/-- A TLP of three dwords with a half-empty first beat, and a TLP of one dword right behind it,
through a channel of one word. -/
theorem width_conversion_odd :
    let tlps : List (List Beat) := [[{ data := 1, enable := 0x0F },
      { data := 0x300000002, enable := 0xFF, last := true }], [.lone 4]]
    (∀ tlp ∈ tlps, Beat.Whole tlp ∧ tlp.length ≤ 2 ∧
        (tlp.flatMap Beat.dwords).length < UInt32.size) ∧
      let c := (Conversion.start 5 2 1 tlps).run (Conversion.rounds 10)
      c.isDrained = true ∧
        blocks Beat.last c.passed = [[.pair 1 2 false, .lone 3], [.lone 4]] := by
  intro tlps
  have hwhole : ∀ tlp ∈ tlps, Beat.Whole tlp ∧ tlp.length ≤ 2 ∧
      (tlp.flatMap Beat.dwords).length < UInt32.size := by
    refine List.forall_mem_cons.mpr ⟨⟨⟨[_], _, rfl, rfl, rfl⟩, by decide, by decide⟩, ?_⟩
    exact List.forall_mem_cons.mpr ⟨⟨⟨[], _, rfl, rfl, rfl⟩, by decide, by decide⟩, nofun⟩
  have hdrained : ((Conversion.start 5 2 1 tlps).run (Conversion.rounds 10)).isDrained = true := by
    decide
  obtain ⟨-, -, hpassed, -⟩ := width_conversion 5 2 1 tlps hwhole (Conversion.rounds 10)
  exact ⟨hwhole, hdrained, (hpassed hdrained).2.trans (by decide)⟩

/-- **Not every TLP that fits into the buffer arrives.** The number of dwords of this one, `2 ^ 32`,
does not fit into a word: what arrives begins with a beat of a single dword. Nor is there a buffer of
every depth. -/
theorem not_every_fitting_arrives :
    let depth := 0x80000000
    let tlp := Beat.filled 0x7fffffff
    let moves := List.replicate 0x7fffffff (.serializer true) ++
      [.serializer true, .serializer true, .commit, .deserializer true]
    Beat.Dense tlp ∧ Beat.Whole tlp ∧ tlp.length ≤ depth ∧
      ((Conversion.start 5 depth 1 [tlp]).run moves).passed = [.lone 1] ∧
      ¬ ((Conversion.start 5 depth 1 [tlp]).run moves).passed <+: Beat.repacked tlp ∧
      ∀ a : Allocator, ∃ s,
        Serializer.construct a 5 Storage.maxBytes = .error (.exhausted s) := by
  intro depth tlp moves
  have hlong : Serializer.Unsendable depth tlp := Beat.unsendable_filled (by decide) (by decide)
  have hpassed : ((Conversion.start 5 depth 1 [tlp]).run moves).passed = [.lone 1] :=
    Conversion.passed_filled 5 (by decide) (by decide) (by decide)
  refine ⟨Beat.dense_filled _, hlong.whole, hlong.fits, hpassed, ?_,
    fun a => Serializer.exists_construct_exhausted a 5 (by decide)⟩
  rw [hpassed]
  exact Beat.not_prefix_repacked_filled (by decide)

end LinkBridge.Tlp
