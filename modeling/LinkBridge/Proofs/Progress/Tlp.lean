import LinkBridge.Proofs.Progress.Queues
import LinkBridge.Proofs.Stream.Blocks
import LinkBridge.Proofs.Tlp.Endpoint
import LinkBridge.Proofs.Tlp.Serializer

/-!
# LinkBridge.Proofs.Progress.Tlp

Progress of the stages of the TLP port. A tick of the deserializer, the serializer or the endpoint
makes the load of the stage and the queues around it smaller, or the stage waits. A TLP that is too
long for the serializer does no harm: it either ends or fills the buffer, and then it is thrown away.
None of the stages leaves a TLP unfinished.
-/

namespace LinkBridge.Tlp

/-- The beats of dwords end a TLP, if there are any. -/
theorem Beat.unfinished_ofDwords (ws : List Word) :
    unfinished Beat.last false (ofDwords ws) = false := by
  by_cases hne : ws = []
  · rw [hne]
    rfl
  · obtain ⟨init, final, hsplit, -, hfinal⟩ := whole_ofDwords hne
    simp [hsplit, hfinal]

namespace Deserializer

/-- **A tick of the deserializer takes a word or waits for room.** -/
theorem tick_load (d : Deserializer) (input : Option PacketBeat) (ready : Bool) :
    let t := d.tick input ready
    t.removed input ≠ [] ∨ t.Rests d ∧ (ready = true → input = none) := by
  intro t
  cases input with
  | none => exact .inr ⟨⟨rfl, rfl, rfl⟩, fun _ => rfl⟩
  | some word =>
      cases hbeat : d.beat? word with
      | none => exact .inl (by simp [t, tick, hbeat, Transfer.removed])
      | some beat =>
          cases ready with
          | true => exact .inl (by simp [t, tick, hbeat, Transfer.removed])
          | false => exact .inr ⟨by simp only [t, tick, hbeat]; exact ⟨rfl, rfl, rfl⟩, by simp⟩

/-- **Within a packet a dword waits or a TLP is unfinished behind the deserializer**, and not
otherwise. -/
theorem tick_whole (d : Deserializer) (input : Option PacketBeat) (ready begun : Bool)
    (xs : List PacketBeat) :
    let t := d.tick input ready
    unfinished PacketBeat.last (t.next.low.isSome || unfinished Beat.last begun t.sent.toList)
        (t.left input ++ xs) =
      unfinished PacketBeat.last (d.low.isSome || begun) (input.toList ++ xs) := by
  intro t
  obtain ⟨low⟩ := d
  cases input with
  | none => rfl
  | some word =>
      cases low with
      | some low => cases ready <;> simp [t, tick, beat?, Transfer.left, Beat.pair]
      | none =>
          cases hlast : word.last with
          | false => simp [t, tick, beat?, hlast, Transfer.left]
          | true => cases ready <;> simp [t, tick, beat?, hlast, Transfer.left, Beat.lone]

end Deserializer

namespace Endpoint

/-- A TLP is being collected until its last beat. -/
theorem isEmpty_inbound_accept (e : Endpoint) (beat : Beat) :
    (e.accept beat).1.inbound.isEmpty = beat.last := by
  unfold accept
  cases beat.last with
  | false => simp
  | true =>
      simp only [if_true]
      cases Record.ofBeats (e.inbound.push beat).toList with
      | error fault => rfl
      | ok r => simp [handle_spec]

/-- **A tick of the endpoint takes a beat or an interrupt, passes a beat on, or waits.** -/
theorem tick_load (e : Endpoint) (input : Option Beat) (vector : Option UInt8) (ready : Bool) :
    let t := e.tick input vector ready
    input ≠ none ∨ vector ≠ none ∨
      36 * t.next.outbound.length + 35 * t.sent.toList.length < 36 * e.outbound.length ∨
      (input = none ∧ vector = none) ∧ t.next = e ∧ t.sent = none ∧
        (ready = true → e.outbound = []) := by
  intro t
  cases input with
  | some beat => exact .inl nofun
  | none =>
      cases vector with
      | some v => exact .inr (.inl nofun)
      | none =>
          refine .inr (.inr ?_)
          cases ready with
          | false => exact .inr ⟨⟨rfl, rfl⟩, rfl, rfl, nofun⟩
          | true =>
              obtain ⟨autoComplete, completerId, inbound, outbound, memory, received, vectors⟩ := e
              cases outbound with
              | nil => exact .inr ⟨⟨rfl, rfl⟩, rfl, rfl, fun _ => rfl⟩
              | cons beat rest =>
                  refine .inl ?_
                  simp [t, tick]
                  omega

/-- **The endpoint takes whole TLPs and leaves whole TLPs to be sent.** -/
theorem tick_whole (e : Endpoint) (input : Option Beat) (vector : Option UInt8) (ready : Bool) :
    let t := e.tick input vector ready
    (∀ xs, unfinished Beat.last (!t.next.inbound.isEmpty) xs =
      unfinished Beat.last (!e.inbound.isEmpty) (input.toList ++ xs)) ∧
    ∀ begun, unfinished Beat.last begun e.outbound = false →
      unfinished Beat.last begun (t.sent.toList ++ t.next.outbound) = false := by
  intro t
  refine ⟨fun xs => ?_, fun begun h => ?_⟩
  · cases input with
    | none => cases vector <;> rfl
    | some beat =>
        have hinbound (e : Endpoint) : (!(e.accept beat).1.inbound.isEmpty) = !beat.last :=
          congrArg (!·) (e.isEmpty_inbound_accept beat)
        have hnext : unfinished Beat.last (!t.next.inbound.isEmpty) xs =
            unfinished Beat.last (!beat.last) xs := by
          cases vector <;> exact congrArg (unfinished Beat.last · xs) (hinbound _)
        exact hnext
  · obtain ⟨answers, houtbound, -⟩ := e.tick_outbound input vector ready
    have hwhole : unfinished Beat.last false (answers.flatMap Record.toBeats) = false :=
      unfinished_flatMap fun r _ => Beat.unfinished_ofDwords r.toDwords
    rw [houtbound, unfinished_append, h, hwhole]

end Endpoint

namespace Serializer

variable {s : Serializer}

/-- The work ahead of a serializer: every dword still to be sent weighs more than the word of a
packet it becomes. -/
def load (s : Serializer) : Nat :=
  match s.phase with
  | .idle => 34 * s.buffer.length + 1
  | .sending _ _ high => 34 * s.buffer.length - 17 * high.toNat

/-! ## sending -/

/-- Within a packet the serializer sends a word when there is room. -/
theorem send_load_sending (h : Exact s) {length sent : Word} {high : Bool}
    (hphase : s.phase = .sending length sent high) :
    (s.send true).next.load + 15 * (s.send true).sent.toList.length < s.load := by
  obtain ⟨b, rest, later, hs⟩ := h.exists_sending hphase
  have hload : s.load = 34 * (rest.length + 1) - 17 * high.toNat := by
    simp [load, hphase, hs.buffer]
  have hhigh : high.toNat ≤ 1 := Bool.toNat_le high
  have hlength := h.length length sent high hphase
  rw [hs.unsent_eq, List.length_cons] at hlength
  by_cases hlater : later = []
  · subst hlater
    rw [send_last hphase hs.buffer (hs.isLast_iff.mpr hlength), hload]
    simp [load, hs.at_end.1]
    omega
  · have hpos := List.length_pos_iff.mpr hlater
    have hlast : sent + 1 ≠ length := fun heq => by
      have := hs.isLast_iff.mp heq
      omega
    rw [send_more hphase hs.buffer hlast, hload]
    cases hdone : (high || !b.hasHigh) with
    | true =>
        simp [load]
        omega
    | false =>
        have hlow : high = false := by simp_all
        simp [load, hlow, hs.buffer]
        omega

/-- The serializer sends a word, starts on a packet, or waits. -/
theorem send_load {beats : List Beat} (h : Measured s beats) (ready : Bool) :
    (s.send ready).next.load + 15 * (s.send ready).sent.toList.length < s.load ∨
      ((s.send ready).next = s ∧ (s.send ready).sent = none) ∧
        (ready = true → s.phase = .idle ∧ s.complete = 0) := by
  cases hphase : s.phase with
  | sending length sent high =>
      cases ready with
      | true => exact .inl (send_load_sending h.toExact hphase)
      | false => exact .inr ⟨by simp [send_false, start, hphase], nofun⟩
  | idle =>
      by_cases hcomplete : s.complete = 0
      · exact .inr ⟨by simp [send, start, hphase, hcomplete], fun _ => ⟨rfl, hcomplete⟩⟩
      · refine .inl ?_
        have hstart : s.start.phase = .sending (max (headLength s.buffer) 1) 0 false ∧
            s.start.buffer = s.buffer := by
          simp [start, hphase, hcomplete]
        have hlt : s.start.load < s.load := by simp [load, hstart, hphase]
        cases ready with
        | true =>
            have hsend := send_load_sending h.start.1 hstart.1
            rw [send_start] at hsend
            omega
        | false =>
            rw [send_false]
            exact hlt

/-! ## storing -/

/-- The serializer takes a beat, gives an overlong TLP up, or waits. -/
theorem store_load (h : Sound s) (input : Option Beat) :
    (s.store input).next.load < s.load + 35 * ((s.store input).removed input).length ∨
      (s.store input).Rests s ∧ (s.phase = .idle → s.complete = 0 → input = none) := by
  by_cases hskipping : s.skipping = true
  · cases input with
    | none => exact .inr ⟨by rw [store.eq_def, if_pos hskipping]; exact ⟨rfl, rfl, rfl⟩, fun _ _ => rfl⟩
    | some beat => exact .inl (by simp [store, hskipping, Transfer.removed, load])
  · by_cases hoverflow : s.overflowing = true
    · refine .inl ?_
      obtain ⟨⟨hphase, -⟩, hfull⟩ : (s.phase = .idle ∧ s.complete = 0) ∧ s.depth ≤ s.level := by
        simpa [overflowing] using hoverflow
      have hpos := h.depth
      have hlevel : s.depth ≤ s.buffer.length := hfull
      simp [store, hskipping, hoverflow, load, hphase]
      omega
    · cases input with
      | none =>
          exact .inr ⟨by rw [store.eq_def, if_neg hskipping, if_neg hoverflow]; exact ⟨rfl, rfl, rfl⟩,
            fun _ _ => rfl⟩
      | some beat =>
          by_cases hroom : s.level < s.depth
          · refine .inl ?_
            cases hphase : s.phase <;>
              simp [store, hskipping, hoverflow, hroom, load, hphase, Transfer.removed] <;> omega
          · refine .inr ⟨?_, fun hphase hcomplete => ?_⟩
            · rw [store.eq_def, if_neg hskipping, if_neg hoverflow]
              simp only [if_neg hroom]
              exact ⟨rfl, rfl, rfl⟩
            · refine absurd ?_ hoverflow
              simpa [overflowing, hphase, hcomplete] using hroom

/-! ## both -/

/-- **A tick of the serializer works off a dword or a beat, or waits.** -/
theorem tick_load {beats : List Beat} (h : Measured s beats) (input : Option Beat) (ready : Bool) :
    let t := s.tick input ready
    t.next.load + 15 * t.sent.toList.length < s.load + 35 * (t.removed input).length ∨
      t.Rests s ∧ (ready = true → s.phase = .idle ∧ s.complete = 0 ∧ input = none) := by
  intro t
  have hstore := store_load (send_keeps h.toSound ready).1.sound input
  have hnext : t.next = ((s.send ready).next.store input).next := rfl
  have hsent : t.sent = (s.send ready).sent := rfl
  have hremoved : t.removed input = ((s.send ready).next.store input).removed input := rfl
  rw [hnext, hsent, hremoved]
  obtain hsend | ⟨⟨hsame, hnone⟩, hidle⟩ := send_load h ready
  · obtain hlt | ⟨hrests, -⟩ := hstore
    · omega
    · rw [hrests.next]
      omega
  · rw [hsame] at hstore hremoved hnext ⊢
    rw [hnone]
    obtain hlt | ⟨hrests, hinput⟩ := hstore
    · exact .inl hlt
    · refine .inr ⟨⟨hnext.trans hrests.next, ?_, hsent.trans hnone⟩, fun hready => ?_⟩
      · show ((s.send ready).next.store input).taken = false
        rw [hsame]
        exact hrests.taken
      · obtain ⟨hphase, hcomplete⟩ := hidle hready
        exact ⟨hphase, hcomplete, hinput hphase hcomplete⟩

/-! ## whole TLPs -/

/-- Whether the beats taken end within a TLP. -/
def begun (s : Serializer) : Bool :=
  s.skipping || unfinished Beat.last false s.buffer

theorem begun_start (s : Serializer) : s.start.begun = s.begun := by
  unfold start
  repeat' split
  all_goals rfl

/-- Sending the oldest beat of a whole TLP does not touch the TLP that is being stored. -/
theorem unfinished_tail {b : Beat} {rest : List Beat} (h : hasWhole (b :: rest)) :
    unfinished Beat.last false rest = unfinished Beat.last false (b :: rest) := by
  cases rest with
  | nil =>
      have hlast : b.last = true := by
        by_contra hlast
        exact absurd (hasWhole_of_not_last h hlast) (Nat.lt_irrefl 0)
      simp [hlast]
  | cons c rest => rfl

/-- What sending within a packet does: the TLP being stored is not touched, and the packet goes on
unless its last word was sent. -/
theorem send_whole_sending (h : Sound s) {length sent : Word} {high : Bool}
    (hphase : s.phase = .sending length sent high) :
    (s.send true).next.begun = s.begun ∧
      ((s.send true).next.phase = .idle →
        ∃ word, (s.send true).sent = some word ∧ word.last = true) := by
  obtain ⟨b, rest, later, hs⟩ := h.exists_sending hphase
  have hstored : unfinished Beat.last false (if high || !b.hasHigh then rest else s.buffer) =
      unfinished Beat.last false s.buffer := by
    split
    · rw [hs.buffer, unfinished_tail hs.whole]
    · rfl
  by_cases hlast : sent + 1 = length
  · rw [send_last hphase hs.buffer hlast]
    refine ⟨congrArg (s.skipping || ·) hstored, fun _ => ⟨_, rfl, ?_⟩⟩
    simpa [wordOf] using hlast
  · rw [send_more hphase hs.buffer hlast]
    exact ⟨congrArg (s.skipping || ·) hstored, fun hidle => Phase.noConfusion hidle⟩

/-- What sending does: the TLP being stored is not touched, and behind it no packet is in progress
only if none was or its last word was sent. -/
theorem send_whole (h : Sound s) (ready : Bool) :
    (s.send ready).next.begun = s.begun ∧
      ((s.send ready).next.phase = .idle → s.phase = .idle ∧ (s.send ready).sent = none ∨
        ∃ word, (s.send ready).sent = some word ∧ word.last = true) := by
  have hstarted : s.start.phase = .idle → s.phase = .idle := by
    cases hphase : s.phase with
    | idle => exact fun _ => rfl
    | sending => simp [start, hphase]
  have hwait : ({ next := s.start } : Transfer Serializer PacketBeat).next.begun = s.begun ∧
      (s.start.phase = .idle → s.phase = .idle ∧ (none : Option PacketBeat) = none ∨
        ∃ word, (none : Option PacketBeat) = some word ∧ word.last = true) :=
    ⟨s.begun_start, fun hidle => .inl ⟨hstarted hidle, rfl⟩⟩
  cases ready with
  | false =>
      rw [send_false]
      exact hwait
  | true =>
      cases hphase : s.start.phase with
      | idle =>
          rw [send_of_idle hphase]
          exact hwait
      | sending length sent high =>
          obtain ⟨hbegun, hlast⟩ := send_whole_sending (start_keeps h).sound hphase
          rw [send_start] at hbegun hlast
          exact ⟨hbegun.trans s.begun_start, fun hidle => .inr (hlast hidle)⟩

/-- Storing follows the TLPs in the beats taken. -/
theorem begun_store (h : Exact s) (input : Option Beat) (xs : List Beat) :
    unfinished Beat.last (s.store input).next.begun ((s.store input).left input ++ xs) =
      unfinished Beat.last s.begun (input.toList ++ xs) := by
  by_cases hskipping : s.skipping = true
  · have hbuffer := (h.skipping hskipping).1
    cases input with
    | none => simp [store, hskipping, Transfer.left]
    | some beat => simp [store, hskipping, Transfer.left, begun, hbuffer]
  · by_cases hoverflow : s.overflowing = true
    · obtain ⟨⟨-, hcomplete⟩, hfull⟩ : (s.phase = .idle ∧ s.complete = 0) ∧ s.depth ≤ s.level := by
        simpa [overflowing] using hoverflow
      have hne : s.buffer ≠ [] :=
        List.ne_nil_of_length_pos (Nat.lt_of_lt_of_le h.depth hfull)
      have hbegun : s.begun = true := by
        rw [begun, unfinished_of_countP hne (h.complete_eq ▸ hcomplete), Bool.or_true]
      simp [store, hskipping, hoverflow, Transfer.left, hbegun]
      rfl
    · cases input with
      | none => simp [store, hskipping, hoverflow, Transfer.left]
      | some beat =>
          by_cases hroom : s.level < s.depth <;>
            simp [store, hskipping, hoverflow, hroom, Transfer.left, begun]

/-- **The serializer follows the TLPs in the beats it takes**, and behind it no packet is in progress
only if none was or the last word of it was sent. -/
theorem tick_whole {beats : List Beat} (h : Measured s beats) (input : Option Beat)
    (ready : Bool) :
    let t := s.tick input ready
    (∀ xs, unfinished Beat.last t.next.begun (t.left input ++ xs) =
      unfinished Beat.last s.begun (input.toList ++ xs)) ∧
    (t.next.phase = .idle → s.phase = .idle ∧ t.sent = none ∨
      ∃ word, t.sent = some word ∧ word.last = true) := by
  intro t
  obtain ⟨hbegun, hlast⟩ := send_whole h.toSound ready
  refine ⟨fun xs => ?_, fun hidle => hlast ?_⟩
  · rw [← hbegun]
    exact begun_store (send_conserves h ready).1 input xs
  · rw [← phase_store]
    exact hidle

theorem sound_reset (h : Sound s) : Sound s.reset where
  depth := h.depth
  level := Nat.zero_le _
  complete := Nat.zero_le _
  skipping := nofun
  sending := nofun

end Serializer

end LinkBridge.Tlp
