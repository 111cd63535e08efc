import LinkBridge.Proofs.Tlp.Packing

/-!
# LinkBridge.Proofs.Tlp.Serializer

The serializer against the packing of whole TLPs. The buffer of a serializer holds whole TLPs and the
beginning of one more, so what it will still send is what packing makes of the buffer and the beats
to come, apart from the packet that is being sent (`future`).

A packet ends when as many words are gone as its length says. Whatever the TLPs, they are words of
TLPs that are stored whole (`Sound`); they are all of them as long as the lengths fit into a word
(`Exact`). So no tick changes what is to come if the lengths of all of it fit (`tick_conserves`), and
so they do of TLPs that can be sent (`Measured`).
-/

namespace LinkBridge.Tlp.Serializer

/-! ## what is under way -/

/-- The dwords of the TLP being sent that are still to go; `high` says that the low dword of the
oldest beat is gone. -/
def unsent (buffer : List Beat) (high : Bool) : List Word :=
  if high then (headWords buffer).tail else headWords buffer

/-- The buffer of a serializer fits its phase. -/
structure Sound (s : Serializer) : Prop where
  depth : 0 < s.depth
  level : s.buffer.length ≤ s.depth
  complete : s.complete ≤ s.buffer.countP (·.last)
  skipping : s.skipping = true → s.buffer = [] ∧ s.phase = .idle
  sending : ∀ length sent high, s.phase = .sending length sent high → 0 < s.complete ∧
    sent.toNat < length.toNat ∧ length.toNat ≤ sent.toNat + (unsent s.buffer high).length ∧
    (high = true → ∃ b rest, s.buffer = b :: rest ∧ b.hasHigh = true)

/-- A packet ends where its TLP does. -/
structure Exact (s : Serializer) : Prop extends Sound s where
  whole : s.buffer.countP (·.last) ≤ s.complete
  length : ∀ length sent high, s.phase = .sending length sent high →
    sent.toNat + (unsent s.buffer high).length = length.toNat

theorem Exact.complete_eq {s : Serializer} (h : Exact s) :
    s.complete = s.buffer.countP (·.last) :=
  Nat.le_antisymm h.complete h.whole

theorem sound_empty (tag : UInt8) (depth : Nat) : Sound (empty tag depth) where
  depth := by
    show 0 < max depth 1
    omega
  level := Nat.zero_le _
  complete := Nat.zero_le _
  skipping := nofun
  sending := nofun

/-- The words a serializer will still send for the beats it has not taken. -/
def future (s : Serializer) (beats : List Beat) : List PacketBeat :=
  match s.phase with
  | .idle => (packing s.tag s.depth).answers (if s.skipping then none else some [])
      (s.buffer ++ beats)
  | .sending length _ high => Packet.beatsOf s.tag length (unsent s.buffer high) ++
      (packing s.tag s.depth).answers (some []) (behindHead s.buffer ++ beats)

/-- Without anything under way the future is the packing of the beats to come. -/
theorem future_of_isIdle {s : Serializer} (h : s.isIdle = true) (beats : List Beat) :
    s.future beats = (packing s.tag s.depth).answers (some []) beats := by
  simp only [isIdle, Bool.and_eq_true, decide_eq_true_eq, List.isEmpty_iff,
    Bool.not_eq_true'] at h
  obtain ⟨⟨hphase, hbuffer⟩, hskipping⟩ := h
  rw [future, hphase, hbuffer, hskipping]
  rfl

/-- The packets end where their TLPs do, also those of `beats` and of TLPs behind them that can be
sent. -/
structure Measured (s : Serializer) (beats : List Beat) : Prop extends Exact s where
  lengthsFit : ∀ tlps : List (List Beat), (∀ tlp ∈ tlps, Sendable s.depth tlp) →
    LengthsFit (s.future (beats ++ tlps.flatten))

/-- TLPs that can be sent may come at any time. -/
theorem Measured.append {s : Serializer} {beats : List Beat} (h : Measured s beats)
    {tlps : List (List Beat)} (htlps : ∀ tlp ∈ tlps, Sendable s.depth tlp) :
    Measured s (beats ++ tlps.flatten) where
  toExact := h.toExact
  lengthsFit more hmore := by
    rw [List.append_assoc, ← List.flatten_append]
    exact h.lengthsFit _ (List.forall_mem_append.mpr ⟨htlps, hmore⟩)

theorem Sound.measured {s : Serializer} (h : Sound s) (hidle : s.isIdle = true) :
    Measured s [] where
  toSound := h
  whole := by
    simp only [isIdle, Bool.and_eq_true, List.isEmpty_iff] at hidle
    rw [hidle.1.2]
    exact Nat.zero_le _
  length _ _ _ hsending := by
    simp only [isIdle, Bool.and_eq_true, decide_eq_true_eq] at hidle
    exact absurd (hidle.1.1.symm.trans hsending) nofun
  lengthsFit tlps htlps := by
    rw [future_of_isIdle hidle]
    exact lengthsFit_packing s.tag h.depth htlps

section

variable {s : Serializer}

/-- What a transfer of the serializer keeps. -/
structure Keeps (s : Serializer) (t : Transfer Serializer PacketBeat) : Prop where
  sound : Sound t.next
  tag : t.next.tag = s.tag
  depth : t.next.depth = s.depth

/-! ## starting -/

/-- Behind a whole TLP nothing is skipped. -/
theorem Sound.running (h : Sound s) (hcomplete : 0 < s.complete) : s.skipping = false := by
  cases hskip : s.skipping with
  | false => rfl
  | true =>
      have hstored := h.complete
      rw [(h.skipping hskip).1, List.countP_nil] at hstored
      omega

theorem Sound.hasWhole (h : Sound s) (hcomplete : 0 < s.complete) : hasWhole s.buffer :=
  Nat.lt_of_lt_of_le hcomplete h.complete

/-- The length that is sent is not zero. -/
theorem toNat_startLength (beats : List Beat) :
    (max (headLength beats) 1).toNat = max ((headWords beats).length % UInt32.size) 1 := by
  rw [headLength_eq]
  exact (Frame.toNat_payloadLength _).trans (congrArg (max · 1) (UInt32.toNat_ofNat' ..))

/-- Starting on a packet keeps the buffer and the phase together. -/
theorem start_keeps (h : Sound s) : Keeps s { next := s.start } := by
  unfold start
  cases hphase : s.phase with
  | sending length sent high => exact ⟨h, rfl, rfl⟩
  | idle =>
      simp only
      split
      · exact ⟨h, rfl, rfl⟩
      · next hcomplete =>
        have hpos : 0 < s.complete := Nat.pos_of_ne_zero hcomplete
        have hwords := List.length_pos_iff.mpr (headWords_ne_nil (h.hasWhole hpos))
        refine ⟨⟨h.depth, h.level, h.complete, ?_, ?_⟩, rfl, rfl⟩
        · rw [h.running hpos]
          nofun
        · rintro length sent high hsending
          obtain ⟨rfl, rfl, rfl⟩ :
              max (headLength s.buffer) 1 = length ∧ 0 = sent ∧ false = high := by
            simpa using hsending
          have hlength := toNat_startLength s.buffer
          have hmod := Nat.mod_le (headWords s.buffer).length UInt32.size
          have hzero : (0 : Word).toNat = 0 := rfl
          refine ⟨hpos, by omega, ?_, nofun⟩
          show _ ≤ _ + (headWords s.buffer).length
          omega

/-- The length of the next packet fits. -/
theorem Measured.head {beats : List Beat} (h : Measured s beats) (hphase : s.phase = .idle)
    (hcomplete : 0 < s.complete) : (headWords s.buffer).length < UInt32.size := by
  have hwhole := h.hasWhole hcomplete
  have hfit := h.lengthsFit [] (List.forall_mem_nil _)
  rw [future, hphase, h.running hcomplete] at hfit
  simp only [if_neg Bool.false_ne_true] at hfit
  rw [packing_head s.tag s.depth hwhole [] _ (by simpa using h.level)] at hfit
  exact hfit.head (headWords_ne_nil hwhole)

/-- Starting on a packet changes nothing about what is to come. -/
theorem Measured.start {beats : List Beat} (h : Measured s beats) :
    Exact s.start ∧ ∀ xs, s.start.future xs = s.future xs := by
  have hsound := (start_keeps h.toSound).sound
  cases hphase : s.phase with
  | sending length sent high =>
      have hsame : s.start = s := by rw [Serializer.start, hphase]
      rw [hsame]
      exact ⟨h.toExact, fun _ => rfl⟩
  | idle =>
      by_cases hcomplete : s.complete = 0
      · have hsame : s.start = s := by simp only [Serializer.start, hphase, if_pos hcomplete]
        rw [hsame]
        exact ⟨h.toExact, fun _ => rfl⟩
      · have hpos : 0 < s.complete := Nat.pos_of_ne_zero hcomplete
        have hne := headWords_ne_nil (h.hasWhole hpos)
        have hlength : (max (headLength s.buffer) 1).toNat = (headWords s.buffer).length := by
          have hwords := List.length_pos_iff.mpr hne
          rw [toNat_startLength, Nat.mod_eq_of_lt (h.head hphase hpos)]
          omega
        have hmax : max (headLength s.buffer) 1 = UInt32.ofNat (headWords s.buffer).length := by
          rw [← hlength, UInt32.ofNat_toNat]
        have hstart : s.start =
            { s with phase := .sending (max (headLength s.buffer) 1) 0 false } := by
          simp only [Serializer.start, hphase, if_neg hcomplete]
        rw [hstart] at hsound ⊢
        refine ⟨⟨hsound, h.whole, ?_⟩, fun xs => ?_⟩
        · rintro length sent high hsending
          obtain ⟨rfl, rfl, rfl⟩ :
              max (headLength s.buffer) 1 = length ∧ 0 = sent ∧ false = high := by
            simpa using hsending
          rw [hlength]
          exact Nat.zero_add _
        · simp only [future, hphase, h.running hpos]
          rw [if_neg Bool.false_ne_true,
            packing_head s.tag s.depth (h.hasWhole hpos) [] xs (by simpa using h.level), hmax]
          rfl

/-! ## sending -/

/-- The first dword still to go, and those behind it. -/
theorem unsent_cons (b : Beat) (rest : List Beat) {high : Bool}
    (h : high = true → b.hasHigh = true) :
    unsent (b :: rest) high = (if high then b.high else b.low) ::
      if high || !b.hasHigh then (if b.last then [] else headWords rest)
      else unsent (b :: rest) true := by
  cases high with
  | true => simp [unsent, headWords, Beat.dwords, h rfl]
  | false => cases hhigh : b.hasHigh <;> simp [unsent, headWords, Beat.dwords, hhigh]

/-- The word a serializer sends. -/
def wordOf (s : Serializer) (length sent : Word) (high : Bool) (b : Beat) : PacketBeat :=
  { dst := s.tag, length, data := if high then b.high else b.low, last := sent + 1 == length }

/-- The last word of a packet. -/
theorem send_last {length sent : Word} {high : Bool} {b : Beat} {rest : List Beat}
    (hphase : s.phase = .sending length sent high) (hbuffer : s.buffer = b :: rest)
    (hlast : sent + 1 = length) :
    s.send true =
      { next := { s with
          buffer := if high || !b.hasHigh then rest else s.buffer
          complete := s.complete - 1
          phase := .idle }
        sent := some (s.wordOf length sent high b), counted := { tlpPacketsSent := 1 } } := by
  cases hdone : (high || !b.hasHigh) <;>
    simp only [send, start, hphase, hbuffer, hdone, hlast, wordOf, if_true, if_false,
      Bool.false_eq_true, beq_self_eq_true]

/-- A word of a packet that goes on. -/
theorem send_more {length sent : Word} {high : Bool} {b : Beat} {rest : List Beat}
    (hphase : s.phase = .sending length sent high) (hbuffer : s.buffer = b :: rest)
    (hlast : sent + 1 ≠ length) :
    s.send true =
      { next := { s with
          buffer := if high || !b.hasHigh then rest else s.buffer
          phase := .sending length (sent + 1) (!(high || !b.hasHigh)) }
        sent := some (s.wordOf length sent high b) } := by
  have hbeq : (sent + 1 == length) = false := beq_false_of_ne hlast
  cases hdone : (high || !b.hasHigh) <;>
    simp only [send, start, hphase, hbuffer, hbeq, hdone, wordOf, if_true, if_false,
      Bool.false_eq_true]

/-- A serializer within a packet: `b` is the oldest beat and `later` are the dwords of its TLP
behind the one that is sent next. -/
structure Sending (s : Serializer) (length sent : Word) (high : Bool) (b : Beat) (rest : List Beat)
    (later : List Word) : Prop where
  phase : s.phase = .sending length sent high
  buffer : s.buffer = b :: rest
  complete : 0 < s.complete
  running : s.skipping = false
  whole : hasWhole (b :: rest)
  unsent_eq : unsent s.buffer high = (if high then b.high else b.low) :: later
  later_eq : later = if high || !b.hasHigh then (if b.last then [] else headWords rest)
    else unsent (b :: rest) true
  /-- The next word is counted without wrapping around. -/
  succ : (sent + 1).toNat = sent.toNat + 1
  below : sent.toNat < length.toNat
  length_le : length.toNat ≤ sent.toNat + 1 + later.length

theorem Sound.exists_sending (h : Sound s) {length sent : Word} {high : Bool}
    (hphase : s.phase = .sending length sent high) :
    ∃ b rest later, Sending s length sent high b rest later := by
  obtain ⟨hcomplete, hbelow, hlength, hhigh⟩ := h.sending length sent high hphase
  have hwhole := h.hasWhole hcomplete
  obtain ⟨b, rest, hbuffer⟩ := List.exists_cons_of_ne_nil (l := s.buffer) fun hnil => by
    rw [hnil] at hwhole
    contradiction
  have hhigh : high = true → b.hasHigh = true := by
    intro htrue
    obtain ⟨b', rest', heq, hb'⟩ := hhigh htrue
    rw [hbuffer] at heq
    rwa [(List.cons.inj heq).1]
  have hunsent := unsent_cons b rest hhigh
  rw [← hbuffer] at hunsent
  have hbound := length.toNat_lt
  have hsucc : (sent + 1).toNat = sent.toNat + 1 := by
    rw [UInt32.toNat_add]
    exact Nat.mod_eq_of_lt (by show sent.toNat + 1 < 2 ^ 32; omega)
  refine ⟨b, rest, _, hphase, hbuffer, hcomplete, h.running hcomplete, hbuffer ▸ hwhole, hunsent,
    by rw [hbuffer], hsucc, hbelow, ?_⟩
  rw [hunsent, List.length_cons] at hlength
  omega

variable {length sent : Word} {high : Bool} {b : Beat} {rest : List Beat} {later : List Word}

/-- The last word of a packet is told from its number. -/
theorem Sending.isLast_iff (hs : Sending s length sent high b rest later) :
    sent + 1 = length ↔ sent.toNat + 1 = length.toNat := by
  rw [← UInt32.toNat_inj, hs.succ]

/-- Where the low dword is sent and a high one follows, the beat stays. -/
theorem Sending.hasHigh (hs : Sending s length sent high b rest later)
    (hdone : (high || !b.hasHigh) = false) :
    b.hasHigh = true ∧ later = unsent (b :: rest) true := by
  constructor
  · cases hb : b.hasHigh <;> simp [hb] at hdone ⊢
  · rw [hs.later_eq, hdone, if_neg Bool.false_ne_true]

/-- The last dword of a TLP is the last of its last beat. -/
theorem Sending.at_end (hs : Sending s length sent high b rest []) :
    (high || !b.hasHigh) = true ∧ b.last = true := by
  have hlater := hs.later_eq
  cases hdone : (high || !b.hasHigh) with
  | false =>
      obtain ⟨hb, hunsent⟩ := hs.hasHigh hdone
      simp [unsent, headWords, Beat.dwords, hb] at hunsent
  | true =>
      refine ⟨rfl, ?_⟩
      by_cases hlast : b.last = true
      · exact hlast
      · rw [if_pos hdone, if_neg hlast] at hlater
        exact absurd hlater.symm (headWords_ne_nil (hasWhole_of_not_last hs.whole hlast))

/-- A beat that is done and has dwords behind it is not the last of its TLP. -/
theorem Sending.at_done (hs : Sending s length sent high b rest later)
    (hdone : (high || !b.hasHigh) = true) (hne : later ≠ []) :
    b.last = false ∧ later = headWords rest := by
  have hlater := hs.later_eq
  rw [if_pos hdone] at hlater
  cases hlast : b.last with
  | false => exact ⟨rfl, by rwa [hlast, if_neg Bool.false_ne_true] at hlater⟩
  | true =>
      rw [hlast, if_pos rfl] at hlater
      exact absurd hlater hne

/-- The last word of a packet ends it. -/
theorem Sending.keeps_last (hs : Sending s length sent high b rest later) (h : Sound s)
    (hlast : sent + 1 = length) : Keeps s (s.send true) := by
  have hlevel := h.level
  have hcomplete := h.complete
  rw [hs.buffer, List.length_cons] at hlevel
  rw [hs.buffer, List.countP_cons] at hcomplete
  rw [send_last hs.phase hs.buffer hlast]
  refine ⟨⟨h.depth, ?_, ?_, fun htrue => ?_, nofun⟩, rfl, rfl⟩
  · show (if _ then rest else s.buffer).length ≤ s.depth
    split
    · omega
    · exact h.level
  · show s.complete - 1 ≤ (if _ then rest else s.buffer).countP fun b : Beat => b.last
    split
    · split at hcomplete <;> omega
    · exact Nat.le_trans (Nat.sub_le ..) h.complete
  · exact absurd (hs.running.symm.trans htrue) nofun

/-- Behind any other word the packet goes on. -/
theorem Sending.keeps_more (hs : Sending s length sent high b rest later) (h : Sound s)
    (hlast : sent + 1 ≠ length) : Keeps s (s.send true) := by
  have hlevel := h.level
  have hcomplete := h.complete
  have hlength := hs.length_le
  have hbelow := hs.below
  have hnot : sent.toNat + 1 ≠ length.toNat := fun heq => hlast (hs.isLast_iff.mpr heq)
  have hne : later ≠ [] := by
    rintro rfl
    rw [List.length_nil] at hlength
    omega
  have hskipping {p : Prop} : s.skipping = true → p := fun htrue => by
    rw [hs.running] at htrue
    contradiction
  rw [send_more hs.phase hs.buffer hlast]
  cases hdone : (high || !b.hasHigh) with
  | true =>
      obtain ⟨hlast, hlater⟩ := hs.at_done hdone hne
      rw [hs.buffer] at hlevel hcomplete
      rw [List.countP_cons_of_neg (by rw [hlast]; exact Bool.false_ne_true)] at hcomplete
      refine ⟨⟨h.depth, Nat.le_of_succ_le hlevel, hcomplete, hskipping, ?_⟩, rfl, rfl⟩
      rintro length' sent' high' hsending
      obtain ⟨rfl, rfl, rfl⟩ : length = length' ∧ sent + 1 = sent' ∧ false = high' := by
        simpa using hsending
      show 0 < s.complete ∧ (sent + 1).toNat < length.toNat ∧
        length.toNat ≤ (sent + 1).toNat + (headWords rest).length ∧ _
      rw [hs.succ, ← hlater]
      exact ⟨hs.complete, by omega, hlength, nofun⟩
  | false =>
      obtain ⟨hb, hlater⟩ := hs.hasHigh hdone
      refine ⟨⟨h.depth, h.level, h.complete, hskipping, ?_⟩, rfl, rfl⟩
      rintro length' sent' high' hsending
      obtain ⟨rfl, rfl, rfl⟩ : length = length' ∧ sent + 1 = sent' ∧ true = high' := by
        simpa using hsending
      show 0 < s.complete ∧ (sent + 1).toNat < length.toNat ∧
        length.toNat ≤ (sent + 1).toNat + (unsent s.buffer true).length ∧
        (true = true → ∃ b rest, s.buffer = b :: rest ∧ _)
      rw [hs.succ, hs.buffer, ← hlater]
      exact ⟨hs.complete, by omega, hlength, fun _ => ⟨b, rest, rfl, hb⟩⟩

/-- What sending does within a packet, if the packet ends where its TLP does. -/
theorem Sending.conserves (hs : Sending s length sent high b rest later) (h : Exact s) :
    Exact (s.send true).next ∧
      ∀ xs, (s.send true).sent.toList ++ (s.send true).next.future xs = s.future xs := by
  have hlength := h.length length sent high hs.phase
  rw [hs.unsent_eq, List.length_cons] at hlength
  have hfuture (xs : List Beat) : s.future xs =
      { s.wordOf length sent high b with last := later.isEmpty } ::
        (Packet.beatsOf s.tag length later ++
          (packing s.tag s.depth).answers (some []) (behindHead (b :: rest) ++ xs)) := by
    rw [future, hs.phase]
    simp only [hs.unsent_eq, Packet.beatsOf, List.cons_append, wordOf]
    rw [hs.buffer]
  have hwhole := h.whole
  rw [hs.buffer] at hwhole
  by_cases hne : later = []
  · subst hne
    have hlast : sent + 1 = length := hs.isLast_iff.mpr hlength
    have hkeeps := hs.keeps_last h.toSound hlast
    obtain ⟨hdone, hend⟩ := hs.at_end
    rw [List.countP_cons_of_pos hend] at hwhole
    rw [send_last hs.phase hs.buffer hlast] at hkeeps ⊢
    rw [if_pos hdone] at hkeeps ⊢
    refine ⟨⟨hkeeps.sound, Nat.le_sub_one_of_lt hwhole, ?_⟩, fun xs => ?_⟩
    · exact fun _ _ _ hsending => Phase.noConfusion hsending
    · rw [hfuture, behindHead, if_pos hend]
      simp [future, hs.running, Packet.beatsOf, wordOf, hlast]
  · have hpos := List.length_pos_iff.mpr hne
    have hlast : sent + 1 ≠ length := fun heq => by
      have := hs.isLast_iff.mp heq
      omega
    have hword : (sent + 1 == length) = later.isEmpty := by
      rw [beq_false_of_ne hlast, List.isEmpty_eq_false_iff.mpr hne]
    have hkeeps := hs.keeps_more h.toSound hlast
    rw [send_more hs.phase hs.buffer hlast] at hkeeps ⊢
    cases hdone : (high || !b.hasHigh) with
    | true =>
        obtain ⟨hend, hlater⟩ := hs.at_done hdone hne
        have hend : ¬ b.last = true := by
          rw [hend]
          exact Bool.false_ne_true
        rw [hdone] at hkeeps
        rw [List.countP_cons_of_neg hend] at hwhole
        refine ⟨⟨hkeeps.sound, hwhole, ?_⟩, fun xs => ?_⟩
        · rintro length' sent' high' hsending
          obtain ⟨rfl, rfl, rfl⟩ : length = length' ∧ sent + 1 = sent' ∧ false = high' := by
            simpa using hsending
          show (sent + 1).toNat + (headWords rest).length = length.toNat
          rw [hs.succ, ← hlater]
          omega
        · rw [hfuture, hlater, behindHead, if_neg hend, ← hlater, ← hword]
          simp [future, unsent, wordOf, hlater]
    | false =>
        obtain ⟨hb, hlater⟩ := hs.hasHigh hdone
        rw [hdone] at hkeeps
        refine ⟨⟨hkeeps.sound, h.whole, ?_⟩, fun xs => ?_⟩
        · rintro length' sent' high' hsending
          obtain ⟨rfl, rfl, rfl⟩ : length = length' ∧ sent + 1 = sent' ∧ true = high' := by
            simpa using hsending
          show (sent + 1).toNat + (unsent s.buffer true).length = length.toNat
          rw [hs.succ, hs.buffer, ← hlater]
          omega
        · rw [hfuture, hlater, ← hlater, ← hword]
          simp [future, wordOf, hs.buffer, hlater]

theorem send_start (ready : Bool) : s.start.send ready = s.send ready := by
  have hagain : s.start.start = s.start := by
    cases hphase : s.phase with
    | sending => simp [start, hphase]
    | idle => by_cases hcomplete : s.complete = 0 <;> simp [start, hphase, hcomplete]
  rw [send, send, hagain]

theorem send_false (s : Serializer) : s.send false = { next := s.start } := by
  unfold send
  simp only [Bool.false_eq_true, if_false]
  split <;> rfl

/-- Without a packet to send, sending does nothing more than start on one. -/
theorem send_of_idle (h : s.start.phase = .idle) (ready : Bool) :
    s.send ready = { next := s.start } := by
  simp only [send, h]

/-- Sending keeps the buffer and the phase together, and waits for room. -/
theorem send_keeps (h : Sound s) (ready : Bool) :
    Keeps s (s.send ready) ∧ ((s.send ready).sent.isSome = true → ready = true) := by
  have hstart := start_keeps h
  cases ready with
  | false =>
      rw [send_false]
      exact ⟨hstart, nofun⟩
  | true =>
      refine ⟨?_, fun _ => rfl⟩
      cases hphase : s.start.phase with
      | idle =>
          rw [send_of_idle hphase]
          exact hstart
      | sending length sent high =>
          obtain ⟨b, rest, later, hs⟩ := hstart.sound.exists_sending hphase
          have hkeeps : Keeps s.start (s.start.send true) := by
            by_cases hlast : sent + 1 = length
            · exact hs.keeps_last hstart.sound hlast
            · exact hs.keeps_more hstart.sound hlast
          rw [send_start] at hkeeps
          exact ⟨hkeeps.sound, hkeeps.tag.trans hstart.tag, hkeeps.depth.trans hstart.depth⟩

/-- Sending takes what it sends off the words to come. -/
theorem send_conserves {beats : List Beat} (h : Measured s beats) (ready : Bool) :
    Exact (s.send ready).next ∧
      ∀ xs, (s.send ready).sent.toList ++ (s.send ready).next.future xs = s.future xs := by
  obtain ⟨hstart, hfuture⟩ := h.start
  cases ready with
  | false =>
      rw [send_false]
      exact ⟨hstart, hfuture⟩
  | true =>
      cases hphase : s.start.phase with
      | idle =>
          rw [send_of_idle hphase]
          exact ⟨hstart, hfuture⟩
      | sending length sent high =>
          obtain ⟨b, rest, later, hs⟩ := hstart.exists_sending hphase
          obtain ⟨hexact, hword⟩ := hs.conserves hstart
          rw [send_start] at hexact hword
          exact ⟨hexact, fun xs => (hword xs).trans (hfuture xs)⟩

/-! ## storing -/

/-- A stored beat joins the buffer behind the packet being sent. -/
theorem unsent_append {buffer : List Beat} (h : hasWhole buffer) (high : Bool) (beat : Beat) :
    unsent (buffer ++ [beat]) high = unsent buffer high := by
  rw [unsent, (head_append h [beat]).1, unsent]

/-- Storing keeps the buffer and the phase together. -/
theorem store_keeps (h : Sound s) (input : Option Beat) : Keeps s (s.store input) := by
  rw [store.eq_def]
  split
  · next hskipping =>
    cases input with
    | none => exact ⟨h, rfl, rfl⟩
    | some beat =>
        exact ⟨⟨h.depth, h.level, h.complete, fun _ => h.skipping hskipping, h.sending⟩, rfl, rfl⟩
  · next hskipping =>
    split
    · next hoverflow =>
      simp only [overflowing, Bool.and_eq_true, decide_eq_true_eq, beq_iff_eq] at hoverflow
      obtain ⟨⟨hphase, hcomplete⟩, -⟩ := hoverflow
      refine ⟨⟨h.depth, Nat.zero_le _, Nat.le_of_eq hcomplete, fun _ => ⟨rfl, hphase⟩, ?_⟩, rfl, rfl⟩
      intro length sent high hsending
      exact absurd (hphase.symm.trans hsending) nofun
    · cases input with
      | none => exact ⟨h, rfl, rfl⟩
      | some beat =>
          simp only
          split
          · next hroom =>
            have hroom : s.buffer.length < s.depth := hroom
            refine ⟨⟨h.depth, ?_, ?_, fun htrue => absurd htrue hskipping, ?_⟩, rfl, rfl⟩
            · rw [List.length_append]
              exact hroom
            · have hcomplete := h.complete
              rw [List.countP_append]
              cases hlast : beat.last <;> simp [hlast] <;> omega
            · intro length sent high hsending
              obtain ⟨hcomplete, hbelow, hlength, hhigh⟩ := h.sending length sent high hsending
              refine ⟨Nat.lt_of_lt_of_le hcomplete (Nat.le_add_right ..), hbelow, ?_, fun htrue => ?_⟩
              · show _ ≤ _ + (unsent (s.buffer ++ [beat]) high).length
                rwa [unsent_append (h.hasWhole hcomplete)]
              · obtain ⟨b, rest, hbuffer, hb⟩ := hhigh htrue
                exact ⟨b, rest ++ [beat], by rw [hbuffer, List.cons_append], hb⟩
          · exact ⟨h, rfl, rfl⟩

/-- Skipping the rest of a TLP that is too long. -/
theorem store_skipping (h : Exact s) (hskipping : s.skipping = true) (input : Option Beat) :
    Exact (s.store input).next ∧
      ∀ xs, (s.store input).next.future ((s.store input).left input ++ xs) =
        s.future (input.toList ++ xs) := by
  obtain ⟨hbuffer, hphase⟩ := h.skipping hskipping
  have hkeeps := store_keeps h.toSound input
  rw [store.eq_def, if_pos hskipping] at hkeeps ⊢
  cases input with
  | none => exact ⟨h, fun _ => rfl⟩
  | some beat =>
      refine ⟨⟨hkeeps.sound, h.whole, h.length⟩, fun xs => ?_⟩
      simp only [future, hphase, hbuffer, hskipping, Transfer.left, if_true, List.nil_append]
      show (packing s.tag s.depth).answers (if !beat.last then none else some []) xs =
        (packing s.tag s.depth).answers (if beat.last then some [] else none) xs
      cases beat.last <;> rfl

/-- A buffer filled by a TLP that has not ended is given up. -/
theorem store_overflowing (h : Exact s) (hskipping : ¬ s.skipping = true)
    (hoverflow : s.overflowing = true) (input : Option Beat) :
    Exact (s.store input).next ∧
      ∀ xs, (s.store input).next.future ((s.store input).left input ++ xs) =
        s.future (input.toList ++ xs) := by
  have hkeeps := store_keeps h.toSound input
  rw [store.eq_def, if_neg hskipping, if_pos hoverflow] at hkeeps ⊢
  simp only [overflowing, Bool.and_eq_true, decide_eq_true_eq, beq_iff_eq] at hoverflow
  obtain ⟨⟨hphase, hcomplete⟩, hfull⟩ := hoverflow
  have hnone : s.buffer.countP (·.last) = 0 := h.complete_eq ▸ hcomplete
  refine ⟨⟨hkeeps.sound, Nat.zero_le _, ?_⟩, fun xs => ?_⟩
  · intro length sent high hsending
    exact absurd (hphase.symm.trans hsending) nofun
  · obtain ⟨hafter, hanswers⟩ := packing_overflow s.tag s.depth hnone [] h.depth
      (by simpa [level] using hfull)
    simp only [future, hphase, if_neg hskipping, if_true, List.nil_append]
    rw [Transducer.answers_append _ _ s.buffer, hafter, hanswers]
    rfl

/-- Storing a beat appends it to those that are packed. -/
theorem store_beat (h : Exact s) (hskipping : ¬ s.skipping = true)
    (hoverflow : ¬ s.overflowing = true) (input : Option Beat) :
    Exact (s.store input).next ∧
      ∀ xs, (s.store input).next.future ((s.store input).left input ++ xs) =
        s.future (input.toList ++ xs) := by
  have hkeeps := store_keeps h.toSound input
  rw [store.eq_def, if_neg hskipping, if_neg hoverflow] at hkeeps ⊢
  cases input with
  | none => exact ⟨h, fun _ => rfl⟩
  | some beat =>
      simp only at hkeeps ⊢
      split
      · next hroom =>
        rw [if_pos hroom] at hkeeps
        refine ⟨⟨hkeeps.sound, ?_, ?_⟩, fun xs => ?_⟩
        · rw [h.complete_eq, List.countP_append]
          cases hlast : beat.last <;> simp [hlast]
        · intro length sent high hsending
          have hwhole := h.hasWhole (h.sending length sent high hsending).1
          show _ + (unsent (s.buffer ++ [beat]) high).length = _
          rw [unsent_append hwhole]
          exact h.length length sent high hsending
        · cases hphase : s.phase with
          | idle => simp [future, hphase, Transfer.left]
          | sending length sent high =>
              have hwhole := h.hasWhole (h.sending length sent high hphase).1
              simp [future, hphase, Transfer.left, unsent_append hwhole,
                (head_append hwhole [beat]).2]
      · exact ⟨h, fun _ => rfl⟩

/-- Storing changes nothing about what is to come. -/
theorem store_conserves (h : Exact s) (input : Option Beat) :
    Exact (s.store input).next ∧
      ∀ xs, (s.store input).next.future ((s.store input).left input ++ xs) =
        s.future (input.toList ++ xs) := by
  by_cases hskipping : s.skipping = true
  · exact store_skipping h hskipping input
  · by_cases hoverflow : s.overflowing = true
    · exact store_overflowing h hskipping hoverflow input
    · exact store_beat h hskipping hoverflow input

/-! ## both -/

/-- No tick takes the buffer and the phase apart. -/
theorem tick_keeps (h : Sound s) (input : Option Beat) (ready : Bool) :
    Keeps s (s.tick input ready) ∧
      ((s.tick input ready).sent.isSome = true → ready = true) := by
  obtain ⟨hsend, hready⟩ := send_keeps h ready
  have hstore := store_keeps hsend.sound input
  exact ⟨⟨hstore.sound, hstore.tag.trans hsend.tag, hstore.depth.trans hsend.depth⟩, hready⟩

/-- **No tick changes what the serializer makes of the beats to come**, if their lengths fit. -/
theorem tick_conserves {input : Option Beat} {beats : List Beat}
    (h : Measured s (input.toList ++ beats)) (ready : Bool) :
    let t := s.tick input ready
    Measured t.next (t.left input ++ beats) ∧ t.Conserves future s input ready := by
  intro t
  obtain ⟨hkeeps, hready⟩ := tick_keeps h.toSound input ready
  obtain ⟨hsend, hsent⟩ := send_conserves h ready
  obtain ⟨hstore, hstored⟩ := store_conserves hsend input
  have hfuture (xs : List Beat) :
      t.sent.toList ++ t.next.future (t.left input ++ xs) = s.future (input.toList ++ xs) := by
    rw [← hsent (input.toList ++ xs), ← hstored xs]
    rfl
  refine ⟨⟨hstore, fun tlps htlps => ?_⟩, hready, hfuture⟩
  have hfit := h.lengthsFit tlps (hkeeps.depth ▸ htlps)
  rw [List.append_assoc, ← hfuture] at hfit
  rw [List.append_assoc]
  exact hfit.of_append

/-! ## what was sent -/

/-- Whether words are whole packets and the words that are gone of the packet in progress. -/
def Sent (s : Serializer) (words : List PacketBeat) : Prop :=
  ∃ payloads : List (List Word), (∀ ws ∈ payloads, ws ≠ []) ∧
    match s.phase with
    | .idle => words = payloads.flatMap (Packet.beatsFor s.tag)
    | .sending length sent _ => ∃ gone : List Word, gone.length = sent.toNat ∧
        words = payloads.flatMap (Packet.beatsFor s.tag) ++
          gone.map fun w => { dst := s.tag, length, data := w }

theorem Sent.start {words : List PacketBeat} (h : s.Sent words) : s.start.Sent words := by
  unfold Serializer.start
  cases hphase : s.phase with
  | sending => exact h
  | idle =>
      simp only
      split
      · exact h
      · obtain ⟨payloads, hne, hwords⟩ := h
        rw [hphase] at hwords
        exact ⟨payloads, hne, [], rfl, by rw [hwords, List.map_nil, List.append_nil]⟩

/-- The word that is sent joins the packet, or ends it. -/
theorem Sending.send_sent (hs : Sending s length sent high b rest later) {words : List PacketBeat}
    (h : s.Sent words) : (s.send true).next.Sent (words ++ (s.send true).sent.toList) := by
  obtain ⟨payloads, hne, hwords⟩ := h
  rw [hs.phase] at hwords
  obtain ⟨gone, hgone, rfl⟩ := hwords
  let w := if high then b.high else b.low
  by_cases hlast : sent + 1 = length
  · have hlength : UInt32.ofNat (gone ++ [w]).length = length := by
      rw [List.length_append, List.length_singleton, hgone, hs.isLast_iff.mp hlast,
        UInt32.ofNat_toNat]
    have hpacket : Packet.beatsFor s.tag (gone ++ [w]) =
        gone.map (fun v => { dst := s.tag, length, data := v }) ++
          [s.wordOf length sent high b] := by
      rw [Packet.beatsFor, hlength, Packet.beatsOf_concat]
      simp only [wordOf, hlast, beq_self_eq_true, w]
    rw [send_last hs.phase hs.buffer hlast]
    refine ⟨payloads ++ [gone ++ [w]], List.forall_mem_append.mpr ⟨hne, by simp⟩, ?_⟩
    show _ = (payloads ++ [gone ++ [w]]).flatMap (Packet.beatsFor s.tag)
    rw [List.flatMap_append, List.flatMap_singleton, hpacket, List.append_assoc]
    rfl
  · rw [send_more hs.phase hs.buffer hlast]
    refine ⟨payloads, hne, gone ++ [w], ?_, ?_⟩
    · rw [List.length_append, List.length_singleton, hgone, hs.succ]
    · have hword : s.wordOf length sent high b = { dst := s.tag, length, data := w } := by
        simp only [wordOf, beq_false_of_ne hlast, w]
      show _ ++ [s.wordOf length sent high b] = _
      rw [hword, List.map_append, List.append_assoc]
      rfl

theorem phase_store (s : Serializer) (input : Option Beat) :
    (s.store input).next.phase = s.phase := by
  unfold store
  repeat' split
  all_goals rfl

/-- **Whatever the TLPs, what is sent are packets of the lengths they say.** -/
theorem tick_sent (h : Sound s) {words : List PacketBeat} (hwords : s.Sent words)
    (input : Option Beat) (ready : Bool) :
    let t := s.tick input ready
    t.next.Sent (words ++ t.sent.toList) := by
  intro t
  have hsend : (s.send ready).next.Sent (words ++ (s.send ready).sent.toList) := by
    have hstart := start_keeps h
    have hstarted := hwords.start
    cases ready with
    | false =>
        rw [send_false]
        exact (List.append_nil words).symm ▸ hstarted
    | true =>
        cases hphase : s.start.phase with
        | idle =>
            rw [send_of_idle hphase]
            exact (List.append_nil words).symm ▸ hstarted
        | sending length sent high =>
            obtain ⟨b, rest, later, hs⟩ := hstart.sound.exists_sending hphase
            have hsent := hs.send_sent hstarted
            rwa [send_start] at hsent
  have hphase : t.next.phase = (s.send ready).next.phase := phase_store _ input
  have htag : t.next.tag = (s.send ready).next.tag :=
    (store_keeps (send_keeps h ready).1.sound input).tag
  rw [Sent, hphase, htag]
  exact hsend

end

/-- A TLP that does not fit is none of the losses on the way in. -/
theorem losses_tick (s : Serializer) (input : Option Beat) (ready : Bool) :
    (s.tick input ready).counted.losses = {} := by
  have hsend : (s.send ready).counted.losses = {} := by
    unfold send
    simp only
    repeat' split
    all_goals rfl
  have hstore (s : Serializer) : (s.store input).counted.losses = {} := by
    unfold store
    repeat' split
    all_goals rfl
  exact (Counters.losses_add_of_eq (hstore _)).trans hsend

end LinkBridge.Tlp.Serializer
