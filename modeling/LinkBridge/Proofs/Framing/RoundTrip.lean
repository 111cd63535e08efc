import LinkBridge.Proofs.Framing.Deframer
import LinkBridge.Proofs.Framing.Framer
import Mathlib.Data.List.Infix

/-!
# LinkBridge.Proofs.Framing.RoundTrip

Packets that travel through a framer, a queue of words and a deframer. A `Relay` is these three in a
row; its moves are the ticks of the framer and of the deframer, in any order, each with stalls on
either side. Three facts carry the round trip:

* the words pushed, followed by those the framer will still push, are the frames of all packets
  (`Framer.History.Framing`);
* the words pushed are those the deframer consumed followed by those in the queue (`Relay.Joined`);
* as long as something is left to do, a round without stalls uses up some of the relay's `work`.
-/

namespace LinkBridge

/-! ## packets within a limit -/

namespace Frame

theorem packetsWithin_prefix_append (limit : Nat) (ws more : List Word) :
    packetsWithin limit ws <+: packetsWithin limit (ws ++ more) :=
  (packets_prefix_append ws more).filter _

/-- What remains of a packet on the wire has the beats of the packet. -/
theorem beats_normalize {p : Packet} (h : p.payload.length < 2 ^ 32) :
    (normalize p).beats = p.beats := by
  have hlen : p.words.length = p.length.toNat := (Packet.toNat_length h).symm
  exact Deframer.beats_of_length p.words_ne_nil hlen

/-- Frames within the limit read back as the beats of the packets framed. -/
theorem beats_packetsWithin_ofPacket {ps : List Packet} {limit : Nat}
    (h : ∀ p ∈ ps, p.payload.length < 2 ^ 32) (hfits : ∀ p ∈ ps, p.length.toNat ≤ limit) :
    (packetsWithin limit (ps.flatMap ofPacket)).flatMap Packet.beats =
      ps.flatMap Packet.beats := by
  have hall : (ps.map normalize).filter (fun p => decide (p.payload.length ≤ limit)) =
      ps.map normalize := by
    rw [List.filter_eq_self]
    intro q hq
    obtain ⟨p, hp, rfl⟩ := List.mem_map.mp hq
    have := hfits p hp
    rw [Packet.toNat_length (h p hp)] at this
    exact decide_eq_true this
  rw [packetsWithin, packets_flatMap_ofPacket h, hall, List.flatMap_map, List.flatMap_def,
    List.flatMap_def, List.map_congr_left fun p hp => beats_normalize (h p hp)]

end Frame

/-! ## the framer at work -/

namespace Framer

/-- How many packets begin in a run of beats. -/
def begins (inside : Bool) : List PacketBeat → Nat
  | [] => 0
  | beat :: beats => (!inside).toNat + begins (!beat.last) beats

/-- A tick of the framer begins the next packet, pushes a word or waits. -/
inductive Works (f : Framer) (input : Option PacketBeat) (ready : Bool)
    (t : Transfer Framer Word) : Prop where
  | begins : input.isSome = true → t.sent = none → f.phase.inside = false →
      t.next.phase.inside = true → t.taken = false → Works f input ready t
  | pushes : t.sent.isSome = true →
      (∀ xs, begins t.next.phase.inside (t.left input ++ xs) =
        begins f.phase.inside (input.toList ++ xs)) → Works f input ready t
  | waits : t.sent = none → t.taken = false → t.next = f →
      ready = false ∨ input = none ∧ f.phase.owed = [] → Works f input ready t

theorem tick_works (f : Framer) (input : Option PacketBeat) (ready : Bool) :
    f.Works input ready (f.tick input ready) := by
  obtain ⟨phase⟩ := f
  cases phase with
  | idle =>
      cases input with
      | none => exact .waits rfl rfl rfl (.inr ⟨rfl, rfl⟩)
      | some beat => exact .begins rfl rfl rfl rfl rfl
  | header word rest =>
      cases ready with
      | false => exact .waits rfl rfl rfl (.inl rfl)
      | true => cases rest <;> exact .pushes rfl fun _ => rfl
  | payload =>
      cases input with
      | none => exact .waits rfl rfl rfl (.inr ⟨rfl, rfl⟩)
      | some beat =>
          cases ready with
          | false => exact .waits rfl rfl rfl (.inl rfl)
          | true =>
              unfold tick
              cases hlast : beat.last <;> simp only [hlast] <;> refine .pushes rfl fun xs => ?_ <;>
                simp [begins, Phase.inside, Transfer.left, hlast]

/-! ## runs of the framer -/

/-- What a run of a framer has shown so far. -/
structure History where
  /-- The framer after the run. -/
  now : Framer := {}
  /-- The beats it has not taken. -/
  rest : List PacketBeat
  /-- The words it has pushed. -/
  pushed : List Word := []

namespace History

/-- The beat presented on a tick. -/
def presented (h : History) (available : Bool) : Option PacketBeat :=
  if available then h.rest.head? else none

/-- What the framer does on a tick. -/
def transfer (h : History) (available ready : Bool) : Transfer Framer Word :=
  h.now.tick (h.presented available) ready

/-- One more tick. -/
def tick (h : History) (available ready : Bool) : History :=
  let t := h.transfer available ready
  { now := t.next
    rest := if t.taken then h.rest.drop (h.presented available).toList.length else h.rest
    pushed := h.pushed ++ t.sent.toList }

/-- Further ticks: on each one the next beat is available or not, and there is room or not. -/
def run (h : History) (schedule : List (Bool × Bool)) : History :=
  schedule.foldl (fun h s => h.tick s.1 s.2) h

/-- The run is on the way from beats to their frames. -/
structure Framing (h : History) (beats : List PacketBeat) : Prop where
  words : h.pushed ++ h.now.future h.rest = framing.answers false beats
  whole : framing.after h.now.phase.inside h.rest = false

theorem framing_start (ps : List Packet) :
    Framing { rest := ps.flatMap Packet.beats } (ps.flatMap Packet.beats) where
  words := rfl
  whole := (framing_beats ps).1

/-- The beats not taken begin with the presented one. -/
theorem rest_eq (h : History) (available : Bool) :
    h.rest = (h.presented available).toList ++
      h.rest.drop (h.presented available).toList.length := by
  unfold presented
  cases available with
  | false => rfl
  | true => cases h.rest <;> rfl

theorem rest_tick (h : History) (available ready : Bool) :
    (h.tick available ready).rest = (h.transfer available ready).left (h.presented available) ++
      h.rest.drop (h.presented available).toList.length := by
  cases htaken : (h.transfer available ready).taken with
  | false => simpa [tick, Transfer.left, htaken] using h.rest_eq available
  | true => simp [tick, Transfer.left, htaken]

theorem Framing.tick {h : History} {beats : List PacketBeat} (hf : Framing h beats)
    (available ready : Bool) : Framing (h.tick available ready) beats := by
  have hconserves := h.now.tick_conserves (h.presented available) ready
  have hrest := h.rest_eq available
  constructor
  · rw [h.rest_tick]
    show h.pushed ++ (h.transfer available ready).sent.toList ++
      (h.transfer available ready).next.future _ = _
    rw [List.append_assoc, transfer, hconserves.future, ← hrest, hf.words]
  · rw [h.rest_tick]
    apply tick_after
    rw [← hrest]
    exact hf.whole

theorem Framing.run {h : History} {beats : List PacketBeat} (hf : Framing h beats)
    (schedule : List (Bool × Bool)) : Framing (h.run schedule) beats := by
  induction schedule generalizing h with
  | nil => exact hf
  | cons s schedule ih => exact ih (hf.tick s.1 s.2)

/-- A framer with nothing left to do has pushed every word. -/
theorem Framing.pushed_eq {h : History} {beats : List PacketBeat} (hf : Framing h beats)
    (hrest : h.rest = []) (hidle : h.now.isIdle = true) :
    h.pushed = framing.answers false beats := by
  rw [← hf.words, hrest, future_of_isIdle hidle]
  exact (List.append_nil _).symm

/-- The work left: three for a word to push and one for a packet to begin. -/
def work (h : History) : Nat :=
  3 * (h.now.future h.rest).length + begins h.now.phase.inside h.rest

/-- Where the next beat is available a tick uses up work, two for a word that is pushed being left,
unless there is no room or nothing is left to frame. -/
theorem Framing.work_tick {h : History} {beats : List PacketBeat} (hf : Framing h beats)
    (ready : Bool) :
    (h.tick true ready).work + 2 * (h.transfer true ready).sent.toList.length < h.work ∨
      (h.tick true ready).work = h.work ∧ (h.transfer true ready).sent = none ∧
        (ready = false ∨ h.rest = [] ∧ h.now.isIdle = true) := by
  let t := h.transfer true ready
  let later := h.rest.drop (h.presented true).toList.length
  have hrest : h.rest = (h.presented true).toList ++ later := h.rest_eq true
  have hwork : (h.tick true ready).work =
      3 * (t.next.future (t.left (h.presented true) ++ later)).length
        + begins t.next.phase.inside (t.left (h.presented true) ++ later) := by
    rw [work, h.rest_tick]
    rfl
  have hfuture : t.sent.toList.length +
      (t.next.future (t.left (h.presented true) ++ later)).length =
      (h.now.future h.rest).length := by
    rw [hrest, ← (h.now.tick_conserves (h.presented true) ready).future, List.length_append]
    rfl
  have hworks : h.now.Works (h.presented true) ready t := h.now.tick_works (h.presented true) ready
  rw [hwork, work]
  cases hworks with
  | begins hinput hsent hinside hinside' htaken =>
      left
      obtain ⟨beat, hbeat⟩ := Option.isSome_iff_exists.mp hinput
      have hleft : t.left (h.presented true) ++ later = h.rest := by
        rw [hrest, Transfer.left_of_not_taken htaken]
      have hbegins : begins true h.rest < begins false h.rest := by
        rw [hrest, hbeat]
        simp [begins]
      rw [hleft, hsent] at hfuture
      rw [hleft, hsent, hinside, hinside']
      simp only [Option.toList_none, List.length_nil] at hfuture ⊢
      omega
  | pushes hsent hbegins =>
      left
      obtain ⟨w, hw⟩ := Option.isSome_iff_exists.mp hsent
      have hsent : t.sent = some w := hw
      have hbegins : begins t.next.phase.inside (t.left (h.presented true) ++ later) =
          begins h.now.phase.inside h.rest := by
        rw [hrest]
        exact hbegins later
      rw [hsent] at hfuture
      rw [hbegins, hsent]
      simp only [Option.toList_some, List.length_singleton] at hfuture ⊢
      omega
  | waits hsent htaken hnext hwaits =>
      right
      have hleft : t.left (h.presented true) ++ later = h.rest := by
        rw [hrest, Transfer.left_of_not_taken htaken]
      refine ⟨by rw [hleft, hnext], hsent, hwaits.imp_right ?_⟩
      rintro ⟨hnone, howed⟩
      have hnil : h.rest = [] := by simpa [presented] using hnone
      have hwhole := hf.whole
      rw [hnil] at hwhole
      refine ⟨hnil, (isIdle_iff _).mpr ?_⟩
      cases hphase : h.now.phase with
      | idle => rfl
      | header word rest => rw [hphase] at howed; contradiction
      | payload => rw [hphase] at hwhole; contradiction

end History

end Framer

/-! ## the deframer at work -/

/-- The words of a packet a deframer holds. -/
def Deframer.Phase.stored : Phase → Nat
  | .collect _ _ payload _ => payload.size
  | .deliver _ _ rest => rest.length
  | .hunt | .header .. | .discard .. => 0

/-- Where there is room, a deframer takes a word or passes a beat on if it can. -/
theorem Deframer.stored_tick {d : Deframer} {pos : Frame.Position}
    (h : d.phase.At d.maxPayload pos) (htimeout : d.timeout = 0) (input : Option Word) :
    (d.tick input true).next.phase.stored ≤
        d.phase.stored + (d.tick input true).taken.toNat ∧
      ((d.tick input true).taken = true ∨
        (d.tick input true).next.phase.stored < d.phase.stored ∨
        (input = none ∧ d.phase.owed = [])) := by
  obtain ⟨timeout, limit, phase⟩ := d
  have htimeout : timeout = 0 := htimeout
  subst htimeout
  cases h with
  | hunt =>
      cases input with
      | none => exact ⟨Nat.zero_le _, .inr (.inr ⟨rfl, rfl⟩)⟩
      | some w =>
          unfold tick
          simp only
          split <;> exact ⟨Nat.zero_le _, .inl rfl⟩
  | started idle =>
      cases input with
      | none => exact ⟨Nat.zero_le _, .inr (.inr ⟨rfl, rfl⟩)⟩
      | some w => exact ⟨Nat.zero_le _, .inl rfl⟩
  | addressed dst idle =>
      cases input with
      | none => exact ⟨Nat.zero_le _, .inr (.inr ⟨rfl, rfl⟩)⟩
      | some w =>
          unfold tick announce
          simp only
          split <;> exact ⟨Nat.zero_le _, .inl rfl⟩
  | collect dst length payload idle hfits hmore =>
      cases input with
      | none => exact ⟨Nat.le_refl _, .inr (.inr ⟨rfl, rfl⟩)⟩
      | some w =>
          unfold tick
          simp only
          split <;> refine ⟨?_, .inl rfl⟩ <;> simp [goto, Phase.stored]
  | discard dst length payload left idle hlong hleft htotal =>
      cases input with
      | none => exact ⟨Nat.le_refl _, .inr (.inr ⟨rfl, rfl⟩)⟩
      | some w =>
          unfold tick
          simp only
          split <;> exact ⟨Nat.zero_le _, .inl rfl⟩
  | deliver dst length w rest =>
      cases rest with
      | nil => exact ⟨Nat.zero_le _, .inr (.inl Nat.one_pos)⟩
      | cons x rest => exact ⟨Nat.le_succ _, .inr (.inl (Nat.lt_succ_self _))⟩

/-! ## relays -/

/-- A framer, a queue of words and a deframer in a row. -/
structure Relay where
  framer : Framer.History
  words : Fifo Word
  deframer : Deframer.History

namespace Relay

/-- A tick of one end: whether what waits in front of it is shown to it, and whether the far side
lets it pass something on. -/
inductive Move where
  | framer (available room : Bool)
  | deframer (available room : Bool)

/-- A relay in front of the beats of packets; its deframer has no timeout. -/
def start (ps : List Packet) (capacity limit : Nat) : Relay where
  framer := { rest := ps.flatMap Packet.beats }
  words := .empty capacity
  deframer := .start 0 limit

/-- The word the deframer is shown. -/
def shown (r : Relay) (available : Bool) : Option Word :=
  if available then r.words.peek else none

/-- One move. -/
def move (r : Relay) : Move → Relay
  | .framer available room =>
    let ready := room && r.words.ready
    { r with
      framer := r.framer.tick available ready
      words := (r.framer.transfer available ready).fill r.words }
  | .deframer available room =>
    { r with
      deframer := r.deframer.tick (r.shown available) room
      words := (r.deframer.now.tick (r.shown available) room).drain r.words }

/-- Moves in order. -/
def run (r : Relay) (moves : List Move) : Relay :=
  moves.foldl move r

/-- The moves of `n` rounds without stalls. -/
def rounds (n : Nat) : List Move :=
  (List.replicate n [.framer true true, .deframer true true]).flatten

/-- Whether nothing is left to do. -/
def isDrained (r : Relay) : Bool :=
  r.framer.rest.isEmpty && r.framer.now.isIdle && r.words.isEmpty && r.deframer.now.isIdle

/-- The three parts of a relay fit together, on the way from beats to beats. -/
structure Joined (r : Relay) (beats : List PacketBeat) (limit : Nat) : Prop where
  framer : r.framer.Framing beats
  deframer : r.deframer.Faithful
  timeout : r.deframer.now.timeout = 0
  limit : r.deframer.now.maxPayload = limit
  uncut : r.deframer.cut = []
  words : r.framer.pushed = r.deframer.consumed ++ r.words.queue
  capacity : 0 < r.words.capacity

theorem joined_start (ps : List Packet) (capacity limit : Nat) :
    Joined (start ps capacity limit) (ps.flatMap Packet.beats) limit where
  framer := Framer.History.framing_start ps
  deframer := Deframer.History.faithful_start 0 limit
  timeout := rfl
  limit := rfl
  uncut := rfl
  words := rfl
  capacity := by
    show 0 < max capacity 1
    omega

section

variable {r : Relay} {beats : List PacketBeat} {limit : Nat}

/-- Without a timeout no frame is abandoned. -/
theorem Joined.abandons_eq_false (hj : Joined r beats limit) (input : Option Word) (room : Bool) :
    r.deframer.now.abandons input room = false := by
  cases hab : r.deframer.now.abandons input room with
  | false => rfl
  | true => exact absurd hj.timeout (((Deframer.abandons_iff _ _ _).mp hab).1)

/-- A tick of the framer keeps the parts together. -/
theorem Joined.move_framer (hj : Joined r beats limit) (available room : Bool) :
    Joined (r.move (.framer available room)) beats limit := by
  have hready : (r.framer.transfer available (room && r.words.ready)).sent.isSome = true →
      r.words.ready = true := fun hsent =>
    (Bool.and_eq_true_iff.mp ((r.framer.now.tick_conserves _ _).ready hsent)).2
  have hqueue := Transfer.contents_fill _ r.words trivial hready
  refine ⟨hj.framer.tick available _, hj.deframer, hj.timeout, hj.limit, hj.uncut, ?_, ?_⟩
  · show r.framer.pushed ++ _ = r.deframer.consumed ++ Fifo.queue (Transfer.fill _ r.words)
    rw [show Fifo.queue (Transfer.fill _ r.words) = _ from hqueue, hj.words, List.append_assoc]
    rfl
  · show 0 < (Transfer.fill _ r.words).capacity
    unfold Transfer.fill
    split
    · show 0 < (Fifo.push _ _).capacity
      unfold Fifo.push
      split <;> exact hj.capacity
    · exact hj.capacity

/-- What the deframer leaves of the queue. -/
theorem queue_drain (r : Relay) (available room : Bool) :
    ((r.deframer.now.tick (r.shown available) room).drain r.words).queue =
      (r.deframer.now.tick (r.shown available) room).left (r.shown available) ++
        r.words.queue.drop (r.shown available).toList.length := by
  cases available with
  | true =>
      rw [show r.shown true = r.words.peek from rfl]
      refine (Transfer.contents_drain _ r.words).trans (congrArg _ ?_)
      show r.words.queue.tail = _
      cases hq : r.words.queue <;> simp [Fifo.peek, hq]
  | false =>
      have htaken := r.deframer.now.taken_tick_none room
      simp [shown, Transfer.drain, Transfer.left, htaken]

/-- A tick of the deframer keeps the parts together. -/
theorem Joined.move_deframer (hj : Joined r beats limit) (available room : Bool) :
    Joined (r.move (.deframer available room)) beats limit := by
  obtain ⟨htimeout, hlimit⟩ := Deframer.tick_settings r.deframer.now (r.shown available) room
  have hab := hj.abandons_eq_false (r.shown available) room
  have hcut : (r.deframer.tick (r.shown available) room).cut = [] := by
    simp [Deframer.History.tick, hab, hj.uncut]
  refine ⟨hj.framer, Deframer.History.faithful_tick hj.deframer _ _, htimeout.trans hj.timeout,
    hlimit.trans hj.limit, hcut, ?_, ?_⟩
  · show r.framer.pushed = (r.deframer.tick (r.shown available) room).consumed ++
      (Transfer.drain _ r.words).queue
    have hshown : (r.shown available).toList ++
        r.words.queue.drop (r.shown available).toList.length = r.words.queue := by
      cases available with
      | false => rfl
      | true => cases hq : r.words.queue <;> simp [shown, Fifo.peek, hq]
    rw [queue_drain, ← List.append_assoc, Deframer.History.consumed_tick, List.append_assoc,
      hshown, hj.words]
  · show 0 < (Transfer.drain _ r.words).capacity
    unfold Transfer.drain
    split <;> exact hj.capacity

/-- **Every run keeps the parts together.** -/
theorem Joined.run (hj : Joined r beats limit) (moves : List Move) :
    Joined (r.run moves) beats limit := by
  induction moves generalizing r with
  | nil => exact hj
  | cons m moves ih =>
      cases m with
      | framer available room => exact ih (hj.move_framer available room)
      | deframer available room => exact ih (hj.move_deframer available room)

/-! ## what arrives -/

/-- The beats of the packets that fit among the frames made of beats. -/
def carried (beats : List PacketBeat) (limit : Nat) : List PacketBeat :=
  (Frame.packetsWithin limit (Framer.framing.answers false beats)).flatMap Packet.beats

theorem carried_eq {ps : List Packet} (h : ∀ p ∈ ps, p.payload.length < 2 ^ 32)
    (hfits : ∀ p ∈ ps, p.length.toNat ≤ limit) :
    carried (ps.flatMap Packet.beats) limit = ps.flatMap Packet.beats := by
  rw [carried, (Framer.framing_beats ps).2, Frame.beats_packetsWithin_ofPacket h hfits]

/-- What was passed on and what is owed are the packets among the words consumed. -/
theorem Joined.passed_append_owed (hj : Joined r beats limit) :
    r.deframer.passed ++ r.deframer.now.phase.owed =
      (Frame.packetsWithin limit r.deframer.consumed).flatMap Packet.beats := by
  rw [hj.deframer.passed, Deframer.History.due_of_uncut hj.uncut, hj.limit]

/-- The words consumed are a beginning of all frames. -/
theorem Joined.consumed_prefix (hj : Joined r beats limit) :
    r.deframer.consumed <+: Framer.framing.answers false beats := by
  rw [← hj.framer.words, hj.words, List.append_assoc]
  exact List.prefix_append ..

/-- What was passed on is a beginning of what is carried. -/
theorem Joined.passed_prefix (hj : Joined r beats limit) :
    r.deframer.passed <+: carried beats limit := by
  obtain ⟨more, hmore⟩ := hj.consumed_prefix
  have hpassed : r.deframer.passed <+:
      (Frame.packetsWithin limit r.deframer.consumed).flatMap Packet.beats := by
    rw [← hj.passed_append_owed]
    exact List.prefix_append ..
  refine hpassed.trans ?_
  rw [carried, ← hmore]
  exact (Frame.packetsWithin_prefix_append ..).flatMap _

/-- When nothing is left to do everything was passed on. -/
theorem Joined.passed_eq (hj : Joined r beats limit) (hrest : r.framer.rest = [])
    (hidle : r.framer.now.isIdle = true) (hqueue : r.words.queue = [])
    (howed : r.deframer.now.phase.owed = []) : r.deframer.passed = carried beats limit := by
  have hconsumed : r.deframer.consumed = Framer.framing.answers false beats := by
    rw [← hj.framer.pushed_eq hrest hidle, hj.words, hqueue, List.append_nil]
  rw [carried, ← hconsumed, ← hj.passed_append_owed, howed, List.append_nil]

end

/-! ## work -/

/-- The work left: that of the framer, two for a word in the queue and one for a word the deframer
has collected. -/
def work (r : Relay) : Nat :=
  r.framer.work + 2 * r.words.queue.length + r.deframer.now.phase.stored

section

variable {r : Relay} {beats : List PacketBeat} {limit : Nat}

/-- A tick of the framer uses up work unless all is framed or the queue is full. -/
theorem Joined.work_framer (hj : Joined r beats limit) :
    (r.move (.framer true true)).work < r.work ∨
      (r.move (.framer true true)).work = r.work ∧
        (r.move (.framer true true)).words = r.words ∧
        (r.framer.rest = [] ∧ r.framer.now.isIdle = true ∨ r.words.queue ≠ []) := by
  have hready := (r.framer.now.tick_conserves (r.framer.presented true) r.words.ready).ready
  have hqueue : (r.move (.framer true true)).words.queue =
      r.words.queue ++ (r.framer.transfer true r.words.ready).sent.toList :=
    Transfer.contents_fill _ r.words trivial hready
  have hwork : (r.move (.framer true true)).work = (r.framer.tick true r.words.ready).work +
      2 * (r.words.queue.length + (r.framer.transfer true r.words.ready).sent.toList.length) +
      r.deframer.now.phase.stored := by
    rw [work, hqueue, List.length_append]
    rfl
  rw [hwork, work]
  rcases hj.framer.work_tick r.words.ready with hlt | ⟨heq, hsent, hwaits⟩
  · exact .inl (by omega)
  right
  refine ⟨?_, ?_, ?_⟩
  · rw [heq, hsent]
    rfl
  · show (r.framer.transfer true r.words.ready).fill r.words = r.words
    rw [Transfer.fill, hsent]
  · rcases hwaits with hfull | hdone
    · right
      intro hempty
      have hcapacity := hj.capacity
      simp only [Fifo.ready, Fifo.level, hempty, List.length_nil, decide_eq_false_iff_not] at hfull
      omega
    · exact .inl hdone

/-- A tick of the deframer uses up work unless nothing is there for it to do. -/
theorem Joined.work_deframer (hj : Joined r beats limit) :
    (r.move (.deframer true true)).work ≤ r.work ∧
      ((r.move (.deframer true true)).work < r.work ∨
        (r.words.queue = [] ∧ r.deframer.now.phase.owed = [])) := by
  obtain ⟨hstored, huses⟩ :=
    Deframer.stored_tick hj.deframer.position hj.timeout (r.shown true)
  have hwork : (r.move (.deframer true true)).work = r.framer.work +
      2 * ((r.deframer.now.tick (r.shown true) true).drain r.words).queue.length +
      (r.deframer.now.tick (r.shown true) true).next.phase.stored := rfl
  have hqueue := congrArg List.length (r.queue_drain true true)
  have hshown : (r.shown true).toList.length + (r.words.queue.drop
      (r.shown true).toList.length).length = r.words.queue.length := by
    cases hq : r.words.queue <;> simp [shown, Fifo.peek, hq, Nat.add_comm]
  rw [List.length_append] at hqueue
  rw [hwork, work]
  cases htaken : (r.deframer.now.tick (r.shown true) true).taken with
  | true =>
      have hsome : (r.shown true).toList.length = 1 := by
        cases hinput : r.shown true with
        | some w => rfl
        | none =>
            rw [hinput, Deframer.taken_tick_none] at htaken
            contradiction
      rw [Transfer.left_of_taken htaken, List.length_nil] at hqueue
      rw [htaken, Bool.toNat_true] at hstored
      exact ⟨by omega, .inl (by omega)⟩
  | false =>
      rw [Transfer.left_of_not_taken htaken] at hqueue
      rw [htaken, Bool.toNat_false] at hstored
      refine ⟨by omega, ?_⟩
      rcases huses with htrue | hlt | ⟨hnone, howed⟩
      · rw [htaken] at htrue
        contradiction
      · exact .inl (by omega)
      · exact .inr ⟨by simpa [shown, Fifo.peek] using hnone, howed⟩

/-- A round without stalls uses up work unless everything was passed on. -/
theorem Joined.work_round (hj : Joined r beats limit) :
    (r.run (rounds 1)).work < r.work ∨ r.deframer.passed = carried beats limit := by
  obtain ⟨hle, hdeframer⟩ := (hj.move_framer true true).work_deframer
  have hround : (r.run (rounds 1)).work =
      ((r.move (.framer true true)).move (.deframer true true)).work := rfl
  rw [hround]
  rcases hj.work_framer with hlt | ⟨heq, hwords, hframer⟩
  · exact .inl (by omega)
  rcases hdeframer with hlt | ⟨hqueue, howed⟩
  · exact .inl (by omega)
  rw [hwords] at hqueue
  rcases hframer with ⟨hrest, hidle⟩ | hne
  · exact .inr (hj.passed_eq hrest hidle hqueue howed)
  · exact absurd hqueue hne

/-- **Enough rounds without stalls pass everything on.** -/
theorem Joined.exists_rounds (hj : Joined r beats limit) :
    ∃ n, (r.run (rounds n)).deframer.passed = carried beats limit := by
  induction hwork : r.work using Nat.strong_induction_on generalizing r with
  | h work ih =>
      rcases hj.work_round with hlt | hdone
      · obtain ⟨n, hn⟩ := ih _ (hwork ▸ hlt) (hj.run (rounds 1)) rfl
        refine ⟨n + 1, ?_⟩
        rw [← hn, rounds, List.replicate_succ, List.flatten_cons]
        exact congrArg (fun r : Relay => r.deframer.passed) List.foldl_append
      · exact ⟨0, hdone⟩

end

end Relay

/-- **Framing and deframing pass every packet on unchanged.** Whenever beats and room come, what a
framer has pushed is a beginning of the frames of all packets, and all of them once it is done. When
its words go through a queue to a deframer that takes packets of these lengths, what is passed on is
a beginning of the beats of all packets, all of them once nothing is under way; and nothing stays
under way if both ends are only let. -/
theorem framing_round_trip (ps : List Packet) (h : ∀ p ∈ ps, p.payload.length < 2 ^ 32) :
    (∀ schedule,
      let f : Framer.History := Framer.History.run { rest := ps.flatMap Packet.beats } schedule
      f.pushed <+: ps.flatMap Frame.ofPacket ∧
      (f.rest = [] → f.now.isIdle = true → f.pushed = ps.flatMap Frame.ofPacket)) ∧
    ∀ capacity limit, (∀ p ∈ ps, p.length.toNat ≤ limit) → ∀ moves,
      let r := (Relay.start ps capacity limit).run moves
      r.deframer.passed <+: ps.flatMap Packet.beats ∧
      (r.isDrained = true → r.deframer.passed = ps.flatMap Packet.beats) ∧
      ∃ n, (r.run (Relay.rounds n)).deframer.passed = ps.flatMap Packet.beats := by
  constructor
  · intro schedule f
    have hf : f.Framing (ps.flatMap Packet.beats) := (Framer.History.framing_start ps).run schedule
    rw [← (Framer.framing_beats ps).2]
    refine ⟨?_, hf.pushed_eq⟩
    rw [← hf.words]
    exact List.prefix_append ..
  · intro capacity limit hfits moves r
    have hj : r.Joined (ps.flatMap Packet.beats) limit :=
      (Relay.joined_start ps capacity limit).run moves
    rw [← Relay.carried_eq h hfits]
    refine ⟨hj.passed_prefix, fun hdrained => ?_, hj.exists_rounds⟩
    simp only [Relay.isDrained, Bool.and_eq_true, List.isEmpty_iff, Fifo.isEmpty] at hdrained
    obtain ⟨⟨⟨hrest, hidle⟩, hqueue⟩, hhunt⟩ := hdrained
    refine hj.passed_eq hrest hidle hqueue ?_
    rw [(Deframer.isIdle_iff _).mp hhunt]
    rfl

/-- A packet without payload arrives as one zero word, and a payload that looks like the start of a
frame arrives as it is, even through a queue of one word. -/
theorem framing_round_trip_preamble :
    (∀ p ∈ [Packet.mk 7 [], Packet.mk 9 [Frame.preamble, 3]], p.payload.length < 2 ^ 32) ∧
      let r := (Relay.start [⟨7, []⟩, ⟨9, [Frame.preamble, 3]⟩] 1 2).run (Relay.rounds 15)
      r.isDrained = true ∧ r.deframer.passed =
        [{ dst := 7, length := 1, data := 0, last := true },
          { dst := 9, length := 2, data := Frame.preamble },
          { dst := 9, length := 2, data := 3, last := true }] := by
  have hdrained : ((Relay.start [⟨7, []⟩, ⟨9, [Frame.preamble, 3]⟩] 1 2).run
      (Relay.rounds 15)).isDrained = true := by decide
  have hround := framing_round_trip [⟨7, []⟩, ⟨9, [Frame.preamble, 3]⟩] (by decide)
  exact ⟨by decide, hdrained, (hround.2 1 2 (by decide) _).2.1 hdrained⟩

end LinkBridge
