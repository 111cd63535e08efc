import LinkBridge.Proofs.Link.Bus
import LinkBridge.Proofs.Progress.Resting
import LinkBridge.System.Bridge
import Mathlib.Logic.Function.Iterate

/-!
# LinkBridge.Proofs.Progress.Link

Progress of the link domain. A word that can be moved is moved after two turnarounds at the latest,
if nothing else changes meanwhile (`Link.Bus.exists_moves`), and every word that moves makes the
bridge lighter (`Bridge.linkTick_load`).
-/

namespace LinkBridge

namespace Link.Bus

/-! ## windows -/

section

variable (b : Bus) (host : Host) (word : Option Word) (room : Bool)

/-- Whether a tick moves a word. -/
def moves : Bool :=
  (b.tick host word room).taken || (b.tick host word room).sent.isSome

theorem moves_eq : b.moves host word room =
    (decide (b.phase = .transmit) && (host.hasRoom && word.isSome) ||
      decide (b.phase = .receive) && (host.hasWord && room)) := by
  rw [moves, taken_tick, isSome_sent_tick]

/-- The bus after a tick. -/
def turned (b : Bus) : Bus :=
  (b.tick host word room).next.1

end

section

variable {b : Bus} {host : Host} {word : Option Word} {room : Bool}

theorem moves_eq_false (htaken : (b.tick host word room).taken = false)
    (hsent : (b.tick host word room).sent = none) : b.moves host word room = false := by
  simp [moves, htaken, hsent]

theorem phase_turned_receiveToTransmit (h : b.phase = .receiveToTransmit) :
    (turned host word room b).phase = .transmit := by
  simp [turned, tick_receiveToTransmit h, enter]

theorem phase_turned_transmitToReceive (h : b.phase = .transmitToReceive) :
    (turned host word room b).phase = .receive := by
  simp [turned, tick_transmitToReceive h, enter]

/-- In a receive window a word moves, or the next transmit window begins and one moves then. -/
theorem exists_moves_receive
    (hpending : (host.hasRoom && word.isSome) = true ∨ (host.hasWord && room) = true)
    (h : b.phase = .receive) :
    ∃ k, ((turned host word room)^[k] b).moves host word room = true := by
  cases hreceive : host.hasWord && room with
  | true => exact ⟨0, by simp [moves_eq, h, hreceive]⟩
  | false =>
      have htransmit : (host.hasRoom && word.isSome) = true := by simpa [hreceive] using hpending
      have hturn : (turned host word room b).phase = .receiveToTransmit := by
        simp [turned, tick_receive h, enter, hreceive, htransmit]
      refine ⟨2, ?_⟩
      rw [Function.iterate_succ_apply, Function.iterate_one, moves_eq, htransmit,
        phase_turned_receiveToTransmit hturn]
      simp

/-- In a transmit window a word moves, or the next receive window begins and one moves then. -/
theorem exists_moves_transmit
    (hpending : (host.hasRoom && word.isSome) = true ∨ (host.hasWord && room) = true)
    (h : b.phase = .transmit) :
    ∃ k, ((turned host word room)^[k] b).moves host word room = true := by
  cases htransmit : host.hasRoom && word.isSome with
  | true => exact ⟨0, by simp [moves_eq, h, htransmit]⟩
  | false =>
      have hreceive : (host.hasWord && room) = true := by simpa [htransmit] using hpending
      have hturn : (turned host word room b).phase = .transmitToReceive := by
        simp [turned, tick_transmit h, enter, hreceive, htransmit]
      refine ⟨2, ?_⟩
      rw [Function.iterate_succ_apply, Function.iterate_one, moves_eq, hreceive,
        phase_turned_transmitToReceive hturn]
      simp

/-- **A word that can be moved is moved**, as long as nothing else changes. -/
theorem exists_moves
    (hpending : (host.hasRoom && word.isSome) = true ∨ (host.hasWord && room) = true) (b : Bus) :
    ∃ k, ((turned host word room)^[k] b).moves host word room = true := by
  cases hphase : b.phase with
  | receive => exact exists_moves_receive hpending hphase
  | transmit => exact exists_moves_transmit hpending hphase
  | receiveToTransmit =>
      obtain ⟨k, hmoves⟩ :=
        exists_moves_transmit hpending (phase_turned_receiveToTransmit hphase)
      exact ⟨k + 1, hmoves⟩
  | transmitToReceive =>
      obtain ⟨k, hmoves⟩ :=
        exists_moves_receive hpending (phase_turned_transmitToReceive hphase)
      exact ⟨k + 1, hmoves⟩

end

end Link.Bus

/-- Words that leave for the link, or are presented to it, make the domain lighter. -/
theorem Core.load_lt_of_outbound (c : Core) {q : CrossFifo Word} (h : q.load < c.outbound.load)
    (ahead : Nat) :
    ({ c with inbound := c.inbound.commitWriter, outbound := q } : Core).load ahead <
      c.load ahead := by
  refine load_lt_of_reply ?_ ?_ ?_ ?_ ahead
  · exact le_refl _
  · exact le_refl _
  · exact le_refl _
  · exact Nat.add_lt_add_left h _

namespace Bridge

/-! ## the load -/

/-- All there is to do. A word that waits for the link outweighs a word behind it. -/
def load (b : Bridge) : ℕ ×ₗ ℕ ×ₗ ℕ ×ₗ ℕ :=
  b.core.load (3 * b.host.toDevice.length)

/-- What a tick of the link does to the words of the bridge. -/
def linkMove (b : Bridge) : Transfer (Link.Bus × Link.Host) Word :=
  b.bus.tick b.host b.core.outbound.peek b.core.inbound.ready

theorem linkTick_eq (b : Bridge) : b.linkTick = { b with
    bus := b.linkMove.next.1
    host := b.linkMove.next.2
    linkCounters := b.linkCounters + b.linkMove.counted
    core := { b.core with
      inbound := (b.linkMove.fill b.core.inbound).commitWriter
      outbound := (b.linkMove.drain b.core.outbound).commitReader } } := rfl

/-- **A tick of the link works off a word or presents one, or it moves nothing.** -/
theorem linkTick_load (b : Bridge) (hopen : b.core.outbound.IsOpen) :
    b.linkTick.load < b.load ∨
      (b.linkMove.taken = false ∧ b.linkMove.sent = none) ∧
        b.linkTick.core = { b.core with
          inbound := b.core.inbound.commitWriter
          outbound := { b.core.outbound with popped := false } } ∧
        (b.core.outbound.head = none → b.core.outbound.queue = []) := by
  have hmoves := b.bus.tick_moves b.host b.core.outbound.peek b.core.inbound.ready
  have hqueued : b.host.toDevice.length =
      b.linkMove.sent.toList.length + b.linkMove.next.2.toDevice.length := by
    rw [hmoves.toDevice, List.length_append]
    rfl
  have hinbound := b.core.inbound.load_fill_le b.linkMove
  have houtbound := b.core.outbound.load_drain b.linkMove
  rw [linkTick_eq]
  cases hsent : b.linkMove.sent with
  | some word =>
      -- the word leaves the host, where it weighs most
      refine .inl ?_
      simp only [hsent, Option.toList_some, List.length_singleton] at hinbound hqueued
      simp only [load, Core.load, Prod.Lex.toLex_lt_toLex, CrossFifo.load_commitWriter]
      omega
  | none =>
      have hfill : b.linkMove.fill b.core.inbound = b.core.inbound := by
        simp [Transfer.fill, hsent]
      have hlength : b.linkMove.next.2.toDevice.length = b.host.toDevice.length := by
        simpa [hsent] using hqueued.symm
      simp only [load, hfill, hlength]
      cases htaken : b.linkMove.taken with
      | true =>
          obtain ⟨word, hword⟩ : ∃ word, b.core.outbound.peek = some word := by
            have hpending := Link.Bus.taken_tick.symm.trans htaken
            simp only [Bool.and_eq_true] at hpending
            exact Option.isSome_iff_exists.mp hpending.2.2
          rw [hword, Transfer.length_removed_of_taken htaken] at houtbound
          have hpresented := (b.linkMove.drain b.core.outbound).load_commitReader_le
          exact .inl (b.core.load_lt_of_outbound (by omega) _)
      | false =>
          have hdrain : b.linkMove.drain b.core.outbound = b.core.outbound := by
            simp [Transfer.drain, htaken]
          obtain hlighter | ⟨hpresented, hempty⟩ := b.core.outbound.load_commitReader
          · rw [hdrain]
            exact .inl (b.core.load_lt_of_outbound hlighter _)
          · rw [hdrain, hpresented]
            exact .inr ⟨⟨rfl, trivial⟩, rfl, hempty hopen.2⟩

end Bridge

end LinkBridge
