import LinkBridge.Counters

/-!
# LinkBridge.Proofs.Losses

The counters that tell what was lost. On the way in, from the host to the users of the bridge, only
the deframer and the inbound half of the crossbar add to them, and on the way out only the
serializer, which gives up TLPs that are too long. The reports of all others are *lossless*.
-/

namespace LinkBridge

namespace Counters

/-- What was lost on the way in. -/
structure Losses where
  /-- Frames abandoned. -/
  timeouts : Nat := 0
  /-- Words skipped. -/
  skipped : Nat := 0
  /-- Packets too long. -/
  oversize : Nat := 0
  /-- Packets without a port. -/
  unrouted : Nat := 0
  deriving DecidableEq

/-- What a report says about losses. -/
def losses (c : Counters) : Losses where
  timeouts := c.frameTimeouts
  skipped := c.resyncWordsDropped
  oversize := c.oversizePackets
  unrouted := c.packetsUnrouted

/-- What was lost in front of the crossbar. -/
def Losses.framing (l : Losses) : Losses :=
  { l with unrouted := 0 }

/-- Whether a report says that nothing was lost, on the way in or out. -/
def Lossless (c : Counters) : Prop :=
  (c.losses, c.tlpOverflows) = ({}, 0)

theorem Lossless.losses {c : Counters} (h : c.Lossless) : c.losses = {} :=
  congrArg Prod.fst h

theorem Lossless.tlpOverflows {c : Counters} (h : c.Lossless) : c.tlpOverflows = 0 :=
  congrArg Prod.snd h

theorem losses_add (a b : Counters) : (a + b).losses =
    { timeouts := a.losses.timeouts + b.losses.timeouts
      skipped := a.losses.skipped + b.losses.skipped
      oversize := a.losses.oversize + b.losses.oversize
      unrouted := a.losses.unrouted + b.losses.unrouted } := rfl

/-- A report without losses on the way in does not change what is known to be lost there. -/
theorem losses_add_of_eq {a b : Counters} (h : b.losses = {}) : (a + b).losses = a.losses := by
  rw [losses_add, h]
  rfl

/-- A lossless report does not change how many TLPs are known to be given up. -/
theorem tlpOverflows_add_of_lossless {a b : Counters} (h : b.Lossless) :
    (a + b).tlpOverflows = a.tlpOverflows :=
  congrArg (a.tlpOverflows + ·) h.tlpOverflows

theorem Lossless.add {a b : Counters} (ha : a.Lossless) (hb : b.Lossless) : (a + b).Lossless := by
  rw [Lossless, losses_add_of_eq hb.losses, tlpOverflows_add_of_lossless hb]
  exact ha

/-- Reports without losses in front of the crossbar. -/
theorem framing_add {a b : Counters} {l : Losses} (ha : a.losses.framing = l)
    (hb : b.losses.framing = {}) : (a + b).losses.framing = l := by
  simp only [Losses.framing, Losses.mk.injEq] at hb
  obtain ⟨htimeouts, hskipped, hoversize, -⟩ := hb
  rw [losses_add, ← ha, Losses.framing, htimeouts, hskipped, hoversize]
  rfl

end Counters

end LinkBridge
