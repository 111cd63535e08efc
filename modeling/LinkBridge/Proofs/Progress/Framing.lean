import LinkBridge.Proofs.Framing.Deframer
import LinkBridge.Proofs.Framing.Framer
import LinkBridge.Proofs.Progress.Queues
import LinkBridge.Proofs.Stream.Blocks

/-!
# LinkBridge.Proofs.Progress.Framing

Progress of the deframer and the framer. A tick of either makes the load of the stage and the queues
around it smaller, or the stage waits for a word, a beat or room (`Deframer.tick_load`,
`Framer.tick_load`); the deframer only waits for a word between two frames, because its timer counts
down within a frame. What the two stages pass on are whole packets.
-/

namespace LinkBridge

/-- The beats of a packet end it. -/
theorem Packet.unfinished_beatsOf (dst : UInt8) (length : Word) {ws : List Word} (hne : ws ≠ [])
    (begun : Bool) : unfinished PacketBeat.last begun (beatsOf dst length ws) = false := by
  induction ws generalizing begun with
  | nil => exact absurd rfl hne
  | cons w rest ih =>
      cases rest with
      | nil => rfl
      | cons x rest => exact ih (List.cons_ne_nil x rest) begun

namespace Deframer

/-- The work ahead of a deframer: the beats still to be passed on, and the ticks after which it gives
up a frame for which no word comes. -/
def load (d : Deframer) : Nat :=
  match d.phase with
  | .hunt => 0
  | .header _ idle | .collect _ _ _ idle | .discard _ idle => d.timeout - idle + 1
  | .deliver _ _ rest => 4 * rest.length + 1

theorem load_of_idle? {d : Deframer} {idle : Nat} (h : d.phase.idle? = some idle) :
    d.load = d.timeout - idle + 1 := by
  obtain ⟨timeout, maxPayload, phase⟩ := d
  cases phase <;> simp_all [load, Phase.idle?]

/-- When the timer is on, a tick without a word counts down. -/
theorem load_tick_none {d : Deframer} (hon : 0 < d.timeout) (h : d.phase.inFrame = true)
    (ready : Bool) :
    (d.tick none ready).sent = none ∧ (d.tick none ready).next.load < d.load := by
  obtain ⟨idle, stay, hphase, hstay, htick⟩ := tick_none_of_inFrame h
  have hload : d.load = d.timeout - idle + 1 := load_of_idle? (by rw [hphase, (hstay idle).2])
  rw [htick, wait, if_neg (by omega)]
  split
  · refine ⟨rfl, ?_⟩
    show 0 < d.load
    omega
  · have hnext : (d.goto (stay (idle + 1))).load = d.timeout - (idle + 1) + 1 :=
      load_of_idle? (hstay (idle + 1)).2
    refine ⟨rfl, ?_⟩
    show (d.goto (stay (idle + 1))).load < d.load
    omega

/-- **A tick of the deframer takes a word, works off its load, or waits**: for room, or between two
frames for a word. -/
theorem tick_load {d : Deframer} (hon : 0 < d.timeout) (input : Option Word) (ready : Bool) :
    let t := d.tick input ready
    t.removed input ≠ [] ∨ t.next.load + 3 * t.sent.toList.length < d.load ∨
      t.Rests d ∧ (ready = true → d.phase = .hunt ∧ input = none) := by
  intro t
  have hframe (h : d.phase.inFrame = true) :
      t.removed input ≠ [] ∨ t.next.load + 3 * t.sent.toList.length < d.load := by
    cases input with
    | some w => exact .inl (by simp [Transfer.removed, t, taken_of_inFrame h])
    | none =>
        obtain ⟨hsent, hlt⟩ := load_tick_none hon h ready
        refine .inr ?_
        simpa [t, hsent] using hlt
  obtain ⟨timeout, maxPayload, phase⟩ := d
  cases phase with
  | header | collect | discard => exact (hframe rfl).imp_right .inl
  | hunt =>
      cases input with
      | none => exact .inr (.inr ⟨⟨rfl, rfl, rfl⟩, fun _ => ⟨rfl, rfl⟩⟩)
      | some w =>
          refine .inl ?_
          simp only [t, tick, Transfer.removed]
          split <;> simp
  | deliver dst length rest =>
      refine .inr ?_
      cases rest with
      | nil => exact .inl (Nat.lt_succ_self 0)
      | cons w rest =>
          cases ready with
          | false => exact .inr ⟨⟨rfl, rfl, rfl⟩, by simp⟩
          | true =>
              refine .inl ?_
              cases rest with
              | nil => simp [t, tick, load, goto]
              | cons x rest =>
                  simp [t, tick, load, goto]
                  omega

/-- **The deframer passes on whole packets**: what it sends and still owes is what it owed, or ends a
packet. -/
theorem tick_whole (d : Deframer) (input : Option Word) (ready : Bool) :
    let t := d.tick input ready
    t.sent.toList ++ t.next.phase.owed = d.phase.owed ∨
      ∀ begun, unfinished PacketBeat.last begun (t.sent.toList ++ t.next.phase.owed) = false := by
  intro t
  -- a tick without a word completes no frame
  have hsilent (h : d.phase.inFrame = true) (hinput : input = none) :
      t.sent.toList ++ t.next.phase.owed = d.phase.owed := by
    obtain ⟨idle, stay, -, hstay, htick⟩ := tick_none_of_inFrame h
    simp only [t, hinput, htick, wait]
    repeat' split
    · rfl
    · exact (Phase.owed_of_inFrame h).symm
    · exact (Phase.owed_of_inFrame (hstay _).1).trans (Phase.owed_of_inFrame h).symm
  obtain ⟨timeout, maxPayload, phase⟩ := d
  cases phase with
  | hunt =>
      refine .inl ?_
      cases input with
      | none => rfl
      | some w =>
          simp only [t, tick]
          split <;> rfl
  | header dst idle =>
      refine .inl ?_
      cases input with
      | none => exact hsilent rfl rfl
      | some w =>
          cases dst with
          | none => rfl
          | some dst =>
              simp only [t, tick, announce]
              split <;> rfl
  | collect dst length payload idle =>
      cases input with
      | none => exact .inl (hsilent rfl rfl)
      | some w =>
          simp only [t, tick]
          split
          · exact .inr fun begun => Packet.unfinished_beatsOf dst length (by simp) begun
          · exact .inl rfl
  | discard left idle =>
      refine .inl ?_
      cases input with
      | none => exact hsilent rfl rfl
      | some w =>
          simp only [t, tick]
          split <;> rfl
  | deliver dst length rest =>
      refine .inl ?_
      cases rest with
      | nil => rfl
      | cons w rest =>
          cases ready with
          | false => rfl
          | true => cases rest <;> rfl

end Deframer

namespace Framer

/-- The work ahead of a framer, each word of the header weighing more than a word on the link. -/
def load (f : Framer) : Nat :=
  match f.phase with
  | .idle => 10
  | .header _ rest => 3 * rest.length + 3
  | .payload => 0

/-- **A tick of the framer works off a beat or a word of the header, or waits.** -/
theorem tick_load (f : Framer) (input : Option PacketBeat) (ready : Bool) :
    let t := f.tick input ready
    t.next.load + 2 * t.sent.toList.length < f.load + 13 * (t.removed input).length ∨
      t.Rests f ∧ (ready = true → input = none) := by
  intro t
  obtain ⟨phase⟩ := f
  cases phase with
  | idle =>
      cases input with
      | none => exact .inr ⟨⟨rfl, rfl, rfl⟩, fun _ => rfl⟩
      | some beat =>
          refine .inl ?_
          simp [t, tick, load, Phase.sending, Frame.header]
          omega
  | header word rest =>
      cases ready with
      | false => exact .inr ⟨⟨rfl, rfl, rfl⟩, by simp⟩
      | true =>
          refine .inl ?_
          cases rest with
          | nil =>
              simp [t, tick, load, Phase.sending]
              omega
          | cons next rest =>
              simp [t, tick, load, Phase.sending]
              omega
  | payload =>
      cases input with
      | none => exact .inr ⟨⟨rfl, rfl, rfl⟩, fun _ => rfl⟩
      | some beat =>
          cases ready with
          | false => exact .inr ⟨⟨rfl, rfl, rfl⟩, by simp⟩
          | true =>
              refine .inl ?_
              cases hlast : beat.last <;> simp [t, tick, load, Transfer.removed, hlast]

/-- **The framer is busy within a packet**, from the tick it sees the head beat. -/
theorem tick_whole (f : Framer) (input : Option PacketBeat) (ready : Bool) (xs : List PacketBeat) :
    let t := f.tick input ready
    unfinished PacketBeat.last (!t.next.isIdle) (t.left input ++ xs) =
      unfinished PacketBeat.last (!f.isIdle) (input.toList ++ xs) := by
  intro t
  obtain ⟨phase⟩ := f
  cases phase with
  | idle => cases input <;> rfl
  | header word rest =>
      cases ready with
      | false => rfl
      | true => cases rest <;> rfl
  | payload =>
      cases input with
      | none => rfl
      | some beat =>
          cases ready with
          | false => rfl
          | true =>
              cases hlast : beat.last <;> simp [t, tick, Transfer.left, isIdle, hlast]

end Framer

end LinkBridge
