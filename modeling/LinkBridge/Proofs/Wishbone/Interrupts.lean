import LinkBridge.Proofs.Losses
import LinkBridge.Wishbone.Bus

/-!
# LinkBridge.Proofs.Wishbone.Interrupts

Interrupts of a bus with at most one interrupt controller. A tick that lets the controller deliver
its vector leaves the bus idle (`isIdle_tick`), and a tick of an idle bus does nothing
(`tick_of_isIdle`). Ticks and accesses only change what the devices store: without it the devices
stay the same (`blank`), and so do those that raise interrupts (`kinds`).
-/

namespace LinkBridge.Wishbone

/-! ## devices -/

namespace Device

/-- A device that raises no interrupts has none under way. -/
theorem isBusy_of_not_isMsi {d : Device} (h : d.isMsi = false) : d.isBusy = false := by
  cases d with
  | sram s => rfl
  | msi m => contradiction

theorem offer_false (d : Device) : d.offer false = { next := d } := by
  cases d with
  | sram s => rfl
  | msi m => simp [offer, Msi.offer, Transfer.map]

theorem offer_of_not_isBusy {d : Device} (h : d.isBusy = false) (ready : Bool) :
    d.offer ready = { next := d } := by
  cases d with
  | sram s => rfl
  | msi m =>
      have hsending : m.sending = false := h
      simp [offer, Msi.offer, Transfer.map, hsending]

theorem isBusy_offer (d : Device) : (d.offer true).next.isBusy = false := by
  cases d with
  | sram s => rfl
  | msi m => cases h : m.sending <;> simp [offer, Msi.offer, Transfer.map, isBusy, h]

theorem lossless_offer (d : Device) (ready : Bool) : (d.offer ready).counted.Lossless := by
  cases d with
  | sram s => rfl
  | msi m =>
      show (m.offer ready).counted.Lossless
      unfold Msi.offer
      split <;> rfl

/-- The device with nothing stored in it. -/
def blank : Device → Device
  | sram s => sram { s with memory := .empty }
  | msi m => msi { base := m.base }

@[simp] theorem isMsi_blank (d : Device) : d.blank.isMsi = d.isMsi := by
  cases d <;> rfl

@[simp] theorem blank_offer (d : Device) (ready : Bool) : (d.offer ready).next.blank = d.blank := by
  cases d with
  | sram s => rfl
  | msi m =>
      show Device.blank (.msi (m.offer ready).next) = _
      unfold Msi.offer
      split <;> rfl

@[simp] theorem blank_write (d : Device) (offset : Nat) (w : Word) :
    (d.write offset w).blank = d.blank := by
  cases d with
  | sram s =>
      show Device.blank (.sram (s.write offset w)) = _
      unfold Sram.write
      split <;> rfl
  | msi m =>
      show Device.blank (.msi (m.write offset w)) = _
      unfold Msi.write
      repeat' split
      all_goals rfl

@[simp] theorem blank_writeBlock (d : Device) (offset : Nat) (ws : List Word) :
    (d.writeBlock offset ws).blank = d.blank := by
  cases d with
  | sram s => rfl
  | msi m =>
      induction ws generalizing m offset with
      | nil => rfl
      | cons w ws ih => exact (ih _ _).trans (blank_write (.msi m) offset w)

@[simp] theorem blank_reset (d : Device) : d.reset.blank = d.blank := by
  cases d <;> rfl

end Device

namespace Bus

/-- Which of the devices raise interrupts. -/
def kinds (b : Bus) : List Bool :=
  b.devices.map Device.isMsi

/-- The devices with nothing stored in them. -/
def blank (b : Bus) : List Device :=
  b.devices.map Device.blank

theorem kinds_congr {b b' : Bus} (h : b.blank = b'.blank) : b.kinds = b'.kinds := by
  have hkinds (b : Bus) : b.kinds = b.blank.map Device.isMsi := by
    simp [kinds, blank, Function.comp_def]
  rw [hkinds, hkinds, h]

/-! ## interrupts -/

theorem isIdle_iff (b : Bus) : b.isIdle = true ↔ ∀ d ∈ b.devices, d.isBusy = false := by
  simp [isIdle]

theorem offerFirst_idle (ready : Bool) {ds : List Device} (h : ∀ d ∈ ds, d.isBusy = false) :
    offerFirst ready ds = { next := ds } := by
  induction ds with
  | nil => rfl
  | cons d rest ih =>
      rw [List.forall_mem_cons] at h
      rw [offerFirst, Device.offer_of_not_isBusy h.1, ih h.2]
      split <;> rfl

theorem offerFirst_false (ds : List Device) : offerFirst false ds = { next := ds } := by
  induction ds with
  | nil => rfl
  | cons d rest ih =>
      rw [offerFirst, Device.offer_false, ih]
      split <;> rfl

theorem blank_offerFirst (ready : Bool) (ds : List Device) :
    (offerFirst ready ds).next.map Device.blank = ds.map Device.blank := by
  induction ds with
  | nil => rfl
  | cons d rest ih =>
      rw [offerFirst]
      split
      · simp [Transfer.map]
      · simp [Transfer.map, ih]

/-- Behind the only device that raises interrupts no other can be busy. -/
theorem isBusy_offerFirst {ds : List Device} (h : (ds.map Device.isMsi).count true ≤ 1) :
    ∀ d ∈ (offerFirst true ds).next, d.isBusy = false := by
  induction ds with
  | nil => exact nofun
  | cons d rest ih =>
      rw [List.map_cons, List.count_cons] at h
      rw [offerFirst]
      split
      · next hmsi =>
        rw [hmsi] at h
        have hnone : (rest.map Device.isMsi).count true = 0 := by
          simp only [beq_self_eq_true, if_true] at h
          omega
        rw [List.count_eq_zero, List.mem_map] at hnone
        refine List.forall_mem_cons.mpr ⟨d.isBusy_offer, fun e he => ?_⟩
        refine Device.isBusy_of_not_isMsi ?_
        cases hkind : e.isMsi with
        | false => rfl
        | true => exact absurd ⟨e, he, hkind⟩ hnone
      · next hmsi =>
        have hmsi : d.isMsi = false := by simpa using hmsi
        refine List.forall_mem_cons.mpr ⟨Device.isBusy_of_not_isMsi hmsi, ih ?_⟩
        omega

/-- A tick of an idle bus does nothing. -/
theorem tick_of_isIdle {b : Bus} (h : b.isIdle = true) (ready : Bool) :
    b.tick ready = { next := b } := by
  rw [tick, offerFirst_idle ready (b.isIdle_iff.mp h)]
  rfl

/-- Where no vector is accepted a tick does nothing. -/
theorem tick_false (b : Bus) : b.tick false = { next := b } := by
  rw [tick, offerFirst_false]
  rfl

/-- **A tick that accepts a vector leaves the bus idle.** -/
theorem isIdle_tick {b : Bus} (h : b.kinds.count true ≤ 1) : (b.tick true).next.isIdle = true :=
  (isIdle_iff _).mpr (isBusy_offerFirst h)

@[simp] theorem blank_tick (b : Bus) (ready : Bool) : (b.tick ready).next.blank = b.blank :=
  blank_offerFirst ready b.devices

@[simp] theorem kinds_tick (b : Bus) (ready : Bool) : (b.tick ready).next.kinds = b.kinds :=
  kinds_congr (b.blank_tick ready)

/-- Interrupts are no losses. -/
theorem lossless_tick (b : Bus) (ready : Bool) : (b.tick ready).counted.Lossless := by
  show (offerFirst ready b.devices).counted.Lossless
  induction b.devices with
  | nil => rfl
  | cons d rest ih =>
      rw [offerFirst]
      split
      · exact d.lossless_offer ready
      · exact ih

/-! ## accesses -/

theorem blank_modify {b : Bus} (i : Nat) {f : Device → Device} (hf : ∀ d, (f d).blank = d.blank) :
    (b.devices.modify i f).map Device.blank = b.blank := by
  apply List.ext_getElem?
  intro j
  rw [blank, List.getElem?_map, List.getElem?_map, List.getElem?_modify]
  split
  · cases b.devices[j]? <;> simp [hf]
  · simp

@[simp] theorem blank_read (b : Bus) (address : Nat) : (b.read address).2.blank = b.blank := by
  unfold read
  split <;> rfl

@[simp] theorem blank_write (b : Bus) (address : Nat) (w : Word) :
    (b.write address w).2.blank = b.blank := by
  unfold write
  split
  · rfl
  · exact blank_modify _ fun d => d.blank_write _ w

@[simp] theorem blank_writeEach (b : Bus) (address : Nat) (ws : List Word) :
    (b.writeEach address ws).2.blank = b.blank := by
  induction ws generalizing b address with
  | nil => rfl
  | cons w rest ih => exact (ih _ _).trans (b.blank_write address w)

@[simp] theorem blank_writeBlock (b : Bus) (address : Nat) (ws : List Word) :
    (b.writeBlock address ws).2.blank = b.blank := by
  unfold writeBlock
  split
  · exact b.blank_writeEach address ws
  · simp only
    split
    · exact blank_modify _ fun d => d.blank_writeBlock _ ws
    · exact blank_writeEach (b.touch _) address ws

@[simp] theorem blank_reset (b : Bus) : b.reset.blank = b.blank := by
  simp [blank, reset, Function.comp_def]

end Bus

end LinkBridge.Wishbone
