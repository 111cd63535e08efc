import LinkBridge.Proofs.Progress.Orderly
import LinkBridge.System.Bridge

/-!
# LinkBridge.Proofs.System.Reachable

What may happen to a bridge is anything that the two ends and the accessible devices of a bridge
allow, resets included (`Incident`). Whatever has happened, its stages stay wired together
(`wired_undergo`), and its settings are those it was assembled with (`blank_undergo`), for every
checked configuration and whether or not the timer of the deframer is on.
-/

namespace LinkBridge

namespace Core

variable {c : Core}

theorem Wired.foldl (h : c.Wired) (stages : List Stage) : (stages.foldl step c).Wired := by
  induction stages generalizing c with
  | nil => exact h
  | cons stage stages ih => exact ih (step_wired h stage)

theorem Wired.count (h : c.Wired) (counted : Counters) : (c.count counted).Wired :=
  { h with }

theorem Wired.commit (h : c.Wired) : c.commit.Wired :=
  (commit_advances h).2

theorem Wired.tick (h : c.Wired) : c.tick.Wired :=
  ((h.foldl Stage.all).count _).commit

theorem Wired.ticks (h : c.Wired) (n : Nat) : (Nat.repeat Core.tick n c).Wired := by
  induction n with
  | zero => exact h
  | succ n ih => exact ih.tick

theorem foldl_blank (h : c.Wired) (stages : List Stage) :
    (stages.foldl step c).blank = c.blank := by
  induction stages generalizing c with
  | nil => rfl
  | cons stage stages ih => exact (ih (step_wired h stage)).trans (step_blank h stage)

theorem tick_blank (h : c.Wired) : c.tick.blank = c.blank := by
  rw [tick, commit_blank, count_blank, foldl_blank h]

theorem ticks_blank (h : c.Wired) (n : Nat) : (Nat.repeat Core.tick n c).blank = c.blank := by
  induction n with
  | zero => rfl
  | succ n ih => exact (tick_blank (h.ticks n)).trans ih

/-- A domain that has just been assembled is blank. -/
theorem blank_assemble (config : Config) (layout : Config.Layout) :
    (assemble config layout).blank = assemble config layout := by
  let bus := (assemble config layout).bus
  have hbus : ({ devices := bus.blank } : Wishbone.Bus) = bus := by
    simp only [bus, assemble, Wishbone.Bus.ofDevices, List.foldl_cons, List.foldl_nil,
      Wishbone.Bus.add, Wishbone.Bus.insertByBase]
    split <;> rfl
  calc (assemble config layout).blank
    _ = { assemble config layout with bus := { devices := bus.blank } } := rfl
    _ = assemble config layout := by rw [hbus]

end Core

namespace Bridge

variable {b : Bridge}

/-! ## incidents -/

/-- Changes the devices on the Wishbone bus. -/
def modifyBus (b : Bridge) (f : Wishbone.Bus → Wishbone.Bus) : Bridge :=
  { b with core := { b.core with bus := f b.core.bus } }

/-- What may happen to a bridge: what the host does with the words of the link, ticks of both domains
or of one of them, resets, and accesses to the endpoint and to the Wishbone bus. -/
inductive Incident where
  | tick
  | linkTick
  | coreTick
  | write (words : List Word)
  | drain
  | pause (paused : Bool)
  | resetLink
  | resetCore
  | inject (r : Tlp.Record)
  | writeMemory (address : UInt32) (w : Word)
  | clearReceived
  | clearVectors
  | readBus (address : Nat)
  | writeBus (address : Nat) (w : Word)
  | writeBusBlock (address : Nat) (ws : List Word)
  deriving DecidableEq

/-- A bridge after an incident. -/
def meet (b : Bridge) : Incident → Bridge
  | .tick => b.tick
  | .linkTick => b.linkTick
  | .coreTick => b.coreTick
  | .write words => b.modifyHost (·.writeWords words)
  | .drain => b.modifyHost (·.drain)
  | .pause paused => b.modifyHost (·.pause paused)
  | .resetLink => b.resetLink
  | .resetCore => b.resetCore
  | .inject r => b.modifyEndpoint (·.inject r)
  | .writeMemory address w => b.modifyEndpoint (·.writeMemory address w)
  | .clearReceived => b.modifyEndpoint (·.clearReceived)
  | .clearVectors => b.modifyEndpoint (·.clearVectors)
  | .readBus address => b.modifyBus fun bus => (bus.read address).2
  | .writeBus address w => b.modifyBus fun bus => (bus.write address w).2
  | .writeBusBlock address ws => b.modifyBus fun bus => (bus.writeBlock address ws).2

/-- A bridge after one incident after the other. -/
def undergo (b : Bridge) (incidents : List Incident) : Bridge :=
  incidents.foldl meet b

/-! ## what no incident changes -/

theorem repeat_coreTick (b : Bridge) (n : Nat) :
    Nat.repeat coreTick n b = { b with core := Nat.repeat Core.tick n b.core } := by
  induction n with
  | zero => rfl
  | succ n ih => rw [Nat.repeat, ih, Nat.repeat]; rfl

/-- A tick of the link leaves the stages of the domain wired together. -/
theorem linkTick_wired (h : b.core.Wired) : b.linkTick.core.Wired :=
  { h with
    inbound := (CrossFifo.isOpen_fill _ _).mpr h.inbound
    outbound := (CrossFifo.isOpen_commitReader _).mpr
      ((CrossFifo.isOpen_drain _ _).mpr h.outbound) }

/-- **No incident takes the stages apart.** -/
theorem wired_meet (h : b.core.Wired) (incident : Incident) : (b.meet incident).core.Wired := by
  have hbus (f : Wishbone.Bus → Wishbone.Bus) (hblank : (f b.core.bus).blank = b.core.bus.blank) :
      (b.modifyBus f).core.Wired :=
    { h with controllers := (Wishbone.Bus.kinds_congr hblank).symm ▸ h.controllers }
  cases incident with
  | tick =>
      rw [meet, Bridge.tick, advance, repeat_coreTick]
      exact (linkTick_wired h).ticks b.ratio
  | linkTick => exact linkTick_wired h
  | coreTick => exact h.tick
  | write | drain | pause | resetLink => exact h
  | resetCore => exact h.reset
  | inject | writeMemory | clearReceived | clearVectors => exact { h with }
  | readBus address => exact hbus _ (b.core.bus.blank_read address)
  | writeBus address w => exact hbus _ (b.core.bus.blank_write address w)
  | writeBusBlock address ws => exact hbus _ (b.core.bus.blank_writeBlock address ws)

theorem wired_undergo (h : b.core.Wired) (incidents : List Incident) :
    (b.undergo incidents).core.Wired := by
  induction incidents generalizing b with
  | nil => exact h
  | cons incident incidents ih => exact ih (wired_meet h incident)

theorem linkTick_blank (b : Bridge) : b.linkTick.core.blank = b.core.blank := by
  simp [linkTick, Transfer.between, Core.blank]

/-- **No incident changes the settings.** -/
theorem blank_meet (h : b.core.Wired) (incident : Incident) :
    (b.meet incident).core.blank = b.core.blank := by
  cases incident with
  | tick =>
      rw [meet, Bridge.tick, advance, repeat_coreTick]
      exact (Core.ticks_blank (linkTick_wired h) b.ratio).trans b.linkTick_blank
  | linkTick => exact b.linkTick_blank
  | coreTick => exact Core.tick_blank h
  | write | drain | pause | resetLink => rfl
  | resetCore => exact b.core.reset_blank
  | inject | writeMemory | clearReceived | clearVectors => rfl
  | readBus | writeBus | writeBusBlock => simp [meet, modifyBus, Core.blank]

theorem blank_undergo (h : b.core.Wired) (incidents : List Incident) :
    (b.undergo incidents).core.blank = b.core.blank := by
  induction incidents generalizing b with
  | nil => rfl
  | cons incident incidents ih => exact (ih (wired_meet h incident)).trans (blank_meet h incident)

theorem depth_meet (h : b.core.Wired) (incident : Incident) :
    (b.meet incident).core.serializer.depth = b.core.serializer.depth := by
  show (b.meet incident).core.blank.serializer.depth = b.core.blank.serializer.depth
  rw [blank_meet h]

end Bridge

end LinkBridge
