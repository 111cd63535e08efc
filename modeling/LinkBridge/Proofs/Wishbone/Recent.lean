import LinkBridge.Proofs.Etherbone.Responder

/-!
# LinkBridge.Proofs.Wishbone.Recent

Which device of a bus answered last. It is looked at first, but where no two devices share an
address (`Bus.Apart`) there is only one device to find. So buses with the same devices answer every
access alike (`Alike.read`, `Alike.writeBlock`), and so do responders in front of them
(`Responder.tick_alike`).
-/

namespace LinkBridge

namespace Wishbone

/-! ## devices that share no address -/

/-- Whether no address falls into the ranges of both devices. -/
def Device.Disjoint (d e : Device) : Prop :=
  ∀ address, d.covers address = true → e.covers address = false

theorem Device.disjoint_of_le {d e : Device} (h : d.base + d.size ≤ e.base) : d.Disjoint e := by
  intro address hcovers
  simp only [covers, Bool.and_eq_true, decide_eq_true_eq] at hcovers
  simp only [covers, Bool.and_eq_false_iff, decide_eq_false_iff_not]
  omega

@[simp] theorem Device.covers_blank (d : Device) (address : Nat) :
    d.blank.covers address = d.covers address := by
  cases d <;> rfl

@[simp] theorem Device.disjoint_blank (d e : Device) : d.blank.Disjoint e.blank ↔ d.Disjoint e := by
  simp only [Disjoint, covers_blank]

namespace Bus

/-- Whether no two devices share an address. -/
def Apart (b : Bus) : Prop :=
  b.devices.Pairwise Device.Disjoint

theorem apart_iff_blank (b : Bus) : b.Apart ↔ b.blank.Pairwise Device.Disjoint := by
  simp only [Apart, blank, List.pairwise_map, Device.disjoint_blank]

/-- **The device that answered last is the only one there is to find.** -/
theorem locate_eq {b : Bus} (h : b.Apart) (address : Nat) :
    b.locate address = b.devices.findIdx? (·.covers address) := by
  unfold locate
  split
  · next hrecent =>
    obtain ⟨d, hd, hcovers⟩ := (Option.any_eq_true ..).mp hrecent
    obtain ⟨hlt, rfl⟩ := List.getElem?_eq_some_iff.mp hd
    refine (List.findIdx?_eq_some_iff_getElem.mpr ⟨hlt, hcovers, fun j hj => ?_⟩).symm
    intro hfirst
    have hlater := List.pairwise_iff_getElem.mp h j b.recent (by omega) hlt hj address hfirst
    rw [hcovers] at hlater
    contradiction
  · rfl

/-! ## buses with the same devices -/

/-- Buses that differ in the device that answered last at most. -/
structure Alike (b b' : Bus) : Prop where
  devices : b'.devices = b.devices
  apart : b.Apart

section

variable {b b' : Bus}

theorem Alike.eq (h : b.Alike b') : b' = { b with recent := b'.recent } := by
  obtain ⟨devices, recent⟩ := b'
  obtain rfl : devices = b.devices := h.devices
  rfl

/-- Where only contents change, devices stay apart. -/
theorem Alike.of_blank (h : b.Alike b') {c c' : Bus} (hdevices : c'.devices = c.devices)
    (hblank : c.blank = b.blank) : c.Alike c' :=
  ⟨hdevices, c.apart_iff_blank.mpr (hblank ▸ b.apart_iff_blank.mp h.apart)⟩

theorem Alike.locate (h : b.Alike b') (address : Nat) : b'.locate address = b.locate address := by
  have hapart : b'.Apart := by
    rw [Apart, h.devices]
    exact h.apart
  rw [locate_eq hapart, locate_eq h.apart, h.devices]

theorem Alike.touch (h : b.Alike b') (i : Nat) : (b.touch i).Alike (b'.touch i) :=
  ⟨h.devices, h.apart⟩

theorem Alike.read (h : b.Alike b') (address : Nat) :
    (b'.read address).1 = (b.read address).1 ∧ (b.read address).2.Alike (b'.read address).2 := by
  unfold Bus.read
  rw [h.locate]
  cases b.locate address with
  | none => exact ⟨rfl, h⟩
  | some i => exact ⟨by simp only [h.devices], h.touch i⟩

theorem Alike.write (h : b.Alike b') (address : Nat) (w : Word) :
    (b'.write address w).1 = (b.write address w).1 ∧
      (b.write address w).2.Alike (b'.write address w).2 := by
  unfold Bus.write
  rw [h.locate]
  cases b.locate address with
  | none => exact ⟨rfl, h⟩
  | some i =>
      exact ⟨rfl, h.of_blank (by simp only [h.devices]) (blank_modify i fun d => d.blank_write _ w)⟩

theorem Alike.writeEach (h : b.Alike b') (address : Nat) (ws : List Word) :
    (b'.writeEach address ws).1 = (b.writeEach address ws).1 ∧
      (b.writeEach address ws).2.Alike (b'.writeEach address ws).2 := by
  induction ws generalizing b b' address with
  | nil => exact ⟨rfl, h⟩
  | cons w ws ih =>
      obtain ⟨hhit, hwritten⟩ := h.write address w
      obtain ⟨hmissed, hrest⟩ := ih hwritten (address + 4)
      exact ⟨by simp only [Bus.writeEach, hhit, hmissed], hrest⟩

theorem Alike.writeBlock (h : b.Alike b') (address : Nat) (ws : List Word) :
    (b'.writeBlock address ws).1 = (b.writeBlock address ws).1 ∧
      (b.writeBlock address ws).2.Alike (b'.writeBlock address ws).2 := by
  unfold Bus.writeBlock
  rw [h.locate]
  cases b.locate address with
  | none => exact h.writeEach address ws
  | some i =>
      simp only [h.devices]
      split
      · exact ⟨rfl, h.of_blank rfl (blank_modify i fun d => d.blank_writeBlock _ ws)⟩
      · exact (h.touch i).writeEach address ws

/-- A tick does not look for a device. -/
theorem Alike.tick (h : b.Alike b') (ready : Bool) :
    (b'.tick ready).sent = (b.tick ready).sent ∧ (b'.tick ready).counted = (b.tick ready).counted ∧
      (b.tick ready).next.Alike (b'.tick ready).next := by
  have hblank := b.blank_tick ready
  unfold Bus.tick at hblank ⊢
  rw [h.devices]
  exact ⟨rfl, rfl, h.of_blank rfl hblank⟩

theorem Alike.reset (h : b.Alike b') : b.reset.Alike b'.reset :=
  h.of_blank (congrArg (List.map Device.reset) h.devices) b.blank_reset

theorem Alike.isIdle (h : b.Alike b') : b'.isIdle = b.isIdle := by
  rw [Bus.isIdle, Bus.isIdle, h.devices]

end

end Bus

end Wishbone

namespace Etherbone

open LinkBridge.Wishbone (Bus)

/-! ## responders -/

section

variable {b b' : Bus}

theorem readAll_alike (h : b.Alike b') (addresses : List Word) :
    (readAll b' addresses).1 = (readAll b addresses).1 ∧
      (readAll b' addresses).2.2 = (readAll b addresses).2.2 ∧
      (readAll b addresses).2.1.Alike (readAll b' addresses).2.1 := by
  induction addresses generalizing b b' with
  | nil => exact ⟨rfl, rfl, h⟩
  | cons a addresses ih =>
      obtain ⟨hvalue, hread⟩ := h.read a.toNat
      obtain ⟨hvalues, hmissed, hrest⟩ := ih hread
      exact ⟨by simp only [readAll, hvalue, hvalues], by simp only [readAll, hvalue, hmissed], hrest⟩

/-- Requests that are performed alike on two buses. -/
structure Performed.Alike (p p' : Performed) : Prop where
  replies : p'.replies = p.replies
  counted : p'.counted = p.counted
  bus : p.bus.Alike p'.bus

theorem performWrites_alike (h : b.Alike b') (s : Section) :
    (performWrites b s).Alike (performWrites b' s) := by
  unfold performWrites
  split
  · exact ⟨rfl, rfl, h⟩
  · obtain ⟨hmissed, hwritten⟩ := h.writeBlock s.base.toNat s.words
    exact ⟨rfl, by simp only [hmissed], hwritten⟩

theorem performReads_alike (h : b.Alike b') (s : Section) :
    (performReads b s).Alike (performReads b' s) := by
  unfold performReads
  split
  · exact ⟨rfl, rfl, h⟩
  · obtain ⟨hvalues, hmissed, hread⟩ := readAll_alike h s.words
    exact ⟨by simp only [hvalues], by simp only [hmissed], hread⟩

theorem performRecord_alike (h : b.Alike b') (r : Record) :
    (performRecord b r).Alike (performRecord b' r) := by
  have hwritten := performWrites_alike h r.writes
  have hread := performReads_alike hwritten.bus r.reads
  exact ⟨hread.replies, by simp only [performRecord, hwritten.counted, hread.counted], hread.bus⟩

theorem performAll_alike (h : b.Alike b') (rs : List Record) :
    (performAll b rs).Alike (performAll b' rs) := by
  induction rs generalizing b b' with
  | nil => exact ⟨rfl, rfl, h⟩
  | cons r rs ih =>
      have hfirst := performRecord_alike h r
      have hothers := ih hfirst.bus
      exact
        { replies := by simp only [performAll, hfirst.replies, hothers.replies]
          counted := by simp only [performAll, hfirst.counted, hothers.counted]
          bus := hothers.bus }

namespace Responder

/-- Ticks that differ at most in the device that answered last. -/
structure AlikeTicks (t t' : Transfer (Responder × Bus) PacketBeat) : Prop where
  next : t'.next.1 = t.next.1
  taken : t'.taken = t.taken
  sent : t'.sent = t.sent
  counted : t'.counted = t.counted
  bus : t.next.2.Alike t'.next.2

theorem perform_alike (h : b.Alike b') (r : Responder) (words : List Word) :
    AlikeTicks (r.perform b words) (r.perform b' words) := by
  unfold perform
  cases Packet.decode words with
  | error fault => exact ⟨rfl, rfl, rfl, rfl, h⟩
  | ok packet =>
      have hdone := performAll_alike h packet.records
      simp only [hdone.replies, hdone.counted]
      split <;> exact ⟨rfl, rfl, rfl, rfl, hdone.bus⟩

/-- **To a responder, buses with the same devices are alike.** -/
theorem tick_alike (h : b.Alike b') (r : Responder) (input : Option PacketBeat) (ready : Bool) :
    AlikeTicks (r.tick b input ready) (r.tick b' input ready) := by
  obtain ⟨tag, request, response, responseLength⟩ := r
  unfold tick
  cases response with
  | cons data rest => cases ready <;> exact ⟨rfl, rfl, rfl, rfl, h⟩
  | nil =>
      cases input with
      | none => exact ⟨rfl, rfl, rfl, rfl, h⟩
      | some beat =>
          simp only
          split
          · have hperform := perform_alike h { tag, responseLength } (request.push beat.data).toList
            exact { hperform with taken := rfl }
          · exact ⟨rfl, rfl, rfl, rfl, h⟩

end Responder

end

end Etherbone

end LinkBridge
