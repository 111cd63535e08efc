import LinkBridge.Proofs.Link.Starvation
import LinkBridge.Proofs.Link.Traffic
import LinkBridge.Proofs.Safety.Access

/-!
# LinkBridge.Proofs.Safety.Link

The differences on the link. The host computes how much room its queue to the device has, which is
in order as long as the queue was never filled beyond its capacity (`Host.InBounds`). The timers of
the bus count down, which is in order because a timer that is off does not count, one that has
expired stays where it is, and no timer is ever ahead of its limit (`Bus.Paced`).
-/

namespace LinkBridge.Link

open Access

/-! ## the host -/

namespace Host

/-- Queues words for the device as far as there is room. -/
def writeWords? (h : Host) (words : List Word) : Option Host := do
  let free ← minus? h.capacity h.toDevice.length
  let accepted ← slice? words 0 (min words.length free)
  return { h with toDevice := h.toDevice ++ accepted }

/-- **The room in the queue is never below zero.** -/
theorem writeWords?_eq {h : Host} (hbounds : h.InBounds) (words : List Word) :
    h.writeWords? words = some (h.writeWords words) := by
  have htake : words.take (min words.length h.free) = words.take h.free := by
    rw [Nat.min_comm, ← List.take_take, List.take_length]
  have hslice := slice?_zero (Nat.min_le_left words.length h.free)
  rw [htake] at hslice
  rw [writeWords?, minus?_of_le hbounds.toDevice, Option.bind_eq_bind, Option.bind_some]
  exact congrArg (· >>= fun accepted => some { h with toDevice := h.toDevice ++ accepted }) hslice

end Host

/-! ## the bus -/

namespace Window

variable {w : Window}

/-- Counts one tick. -/
def tick? (w : Window) (held : Bool) : Option Window :=
  if w.limit = 0 then some w
  else if !held then do
    let remaining ← minus? w.limit 1
    return { w with remaining }
  else if w.expired then some w
  else do
    let remaining ← minus? w.remaining 1
    return { w with remaining }

/-- **A timer never counts below zero.** -/
theorem tick?_eq (h : w.remaining ≤ w.limit - 1) (held : Bool) :
    w.tick? held = some (w.tick held) := by
  by_cases hoff : w.limit = 0
  · have hsame : w.tick held = w := by
      obtain ⟨limit, remaining⟩ := w
      obtain rfl : limit = 0 := hoff
      obtain rfl : remaining = 0 := Nat.le_zero.mp h
      cases held <;> rfl
    rw [tick?, if_pos hoff, hsame]
  cases held with
  | false =>
      rw [tick?, if_neg hoff, minus?_of_le (Nat.pos_of_ne_zero hoff)]
      rfl
  | true =>
      cases hexpired : w.expired with
      | true =>
          have hsame : w.tick true = w := by
            obtain ⟨limit, remaining⟩ := w
            obtain ⟨-, rfl⟩ : limit ≠ 0 ∧ remaining = 0 := by simpa [expired] using hexpired
            rfl
          rw [tick?, if_neg hoff, hexpired, hsame]
          rfl
      | false =>
          have hpos : 1 ≤ w.remaining := by
            simp only [expired, Bool.and_eq_false_iff, bne_eq_false_iff_eq, beq_eq_false_iff_ne,
              hoff, false_or] at hexpired
            exact Nat.pos_of_ne_zero hexpired
          rw [tick?, if_neg hoff, hexpired, minus?_of_le hpos]
          rfl

end Window

namespace Bus

/-- One tick. Of all that a tick does, only the timers compute differences. -/
def tick? (b : Bus) (host : Host) (word : Option Word) (room : Bool) :
    Option (Transfer (Bus × Host) Word) := do
  let readWindow ← b.readWindow.tick? (b.phase = .receive)
  let writeWindow ← b.writeWindow.tick? (b.phase = .transmit)
  return (b.tick host word room).map fun (bus, host) => ({ bus with readWindow, writeWindow }, host)

theorem tick?_eq {readTime writeTime : Nat} {b : Bus} (h : b.Paced readTime writeTime) (host : Host)
    (word : Option Word) (room : Bool) : b.tick? host word room = some (b.tick host word room) := by
  have hread : b.readWindow.tick? (b.phase = .receive) =
      some (b.tick host word room).next.1.readWindow := by
    rw [readWindow_tick]
    exact Window.tick?_eq (h.readLimit ▸ h.readRemaining) _
  have hwrite : b.writeWindow.tick? (b.phase = .transmit) =
      some (b.tick host word room).next.1.writeWindow := by
    rw [writeWindow_tick]
    exact Window.tick?_eq (h.writeLimit ▸ h.writeRemaining) _
  rw [tick?, hread, hwrite]
  rfl

end Bus

end LinkBridge.Link
