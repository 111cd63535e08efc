import LinkBridge.Proofs.Safety.Access
import LinkBridge.Wishbone.Bus
import Mathlib.Data.List.Basic

/-!
# LinkBridge.Proofs.Safety.Wishbone

The accesses on the Wishbone bus. A device is looked up by its position, and the offset within it is
the difference to its base address; the bus only goes on with devices that cover the address
(`Bus.hit?_of_locate`). A block of words is cut off at the end of the memory it is written to, so
that the range it is copied to and the words it is copied from are both there, and as long as each
other (`Sram.writeBlock?_eq`).
-/

namespace LinkBridge.Wishbone

open Access

/-! ## devices -/

/-- Stores consecutive words; what lies behind the end is cut off. The words from `start` up to but
not including `stop` of the memory are replaced by as many words of the block. -/
def Sram.writeBlock? (s : Sram) (offset : Nat) (ws : List Word) : Option Sram :=
  let start := offset / 4
  let stop := min (start + ws.length) s.words
  if start < stop then do
    let count ← minus? stop start
    let source ← slice? ws 0 count
    if start ≤ stop ∧ stop ≤ s.words ∧ source.length = count then
      return { s with memory := s.memory.writeRun start source }
    else none
  else some s

/-- **A block is copied within the bounds of the memory and of the block.** -/
theorem Sram.writeBlock?_eq (s : Sram) (offset : Nat) (ws : List Word) :
    s.writeBlock? offset ws = some (s.writeBlock offset ws) := by
  unfold Sram.writeBlock? Sram.writeBlock
  generalize offset / 4 = start
  simp only
  split
  · next hlt =>
    have hcount : min (start + ws.length) s.words - start ≤ ws.length := by omega
    have htake : ws.take (min (start + ws.length) s.words - start) = ws.take (s.words - start) := by
      rw [show min (start + ws.length) s.words - start = min (s.words - start) ws.length by omega,
        ← List.take_take, List.take_length]
    have hlength : (ws.take (min (start + ws.length) s.words - start)).length =
        min (start + ws.length) s.words - start := by
      rw [List.length_take]
      omega
    simp only [minus?_of_le (Nat.le_of_lt hlt), slice?_zero hcount, Option.bind_eq_bind,
      Option.bind_some]
    rw [if_pos ⟨Nat.le_of_lt hlt, Nat.min_le_right _ _, hlength⟩, htake]
    rfl
  · next hge =>
    have hnil : ws.take (s.words - start) = [] := by
      rw [List.take_eq_nil_iff, ← List.length_eq_zero_iff]
      omega
    rw [hnil]
    rfl

/-- Writes consecutive words from a byte offset upwards. -/
def Device.writeBlock? : Device → Nat → List Word → Option Device
  | .sram s, offset, ws => (s.writeBlock? offset ws).map .sram
  | .msi m, offset, ws => some (.msi (m.writeBlock offset ws))

theorem Device.writeBlock?_eq (d : Device) (offset : Nat) (ws : List Word) :
    d.writeBlock? offset ws = some (d.writeBlock offset ws) := by
  cases d with
  | sram s => rw [Device.writeBlock?, s.writeBlock?_eq]; rfl
  | msi m => rfl

/-! ## the bus -/

namespace Bus

/-- The device at a position, and the offset of an address within it. -/
def hit? (b : Bus) (i address : Nat) : Option (Device × Nat) := do
  let d ← b.devices[i]?
  let offset ← minus? address d.base
  return (d, offset)

/-- **Where the bus finds a device, it covers the address.** -/
theorem hit?_of_locate {b : Bus} {address i : Nat} (h : b.locate address = some i) :
    ∃ d, b.devices[i]? = some d ∧ b.hit? i address = some (d, address - d.base) := by
  have hcovers : ∃ d, b.devices[i]? = some d ∧ d.covers address = true := by
    unfold locate at h
    split at h
    · next hrecent =>
      obtain rfl := Option.some.inj h
      exact (Option.any_eq_true _ _).mp hrecent
    · obtain ⟨hlt, hd, -⟩ := List.findIdx?_eq_some_iff_getElem.mp h
      exact ⟨b.devices[i], List.getElem?_eq_getElem hlt, hd⟩
  obtain ⟨d, hd, hcovers⟩ := hcovers
  have hbase : d.base ≤ address := by
    simp only [Device.covers, Bool.and_eq_true, decide_eq_true_eq] at hcovers
    exact hcovers.1
  refine ⟨d, hd, ?_⟩
  rw [hit?, hd, Option.bind_eq_bind, Option.bind_some, minus?_of_le hbase]
  rfl

/-- Reads the word at a byte address; inside, `none` when no device is there. -/
def read? (b : Bus) (address : Nat) : Option (Option Word × Bus) :=
  match b.locate address with
  | none => some (none, b)
  | some i => do
    let (d, offset) ← b.hit? i address
    return (some (d.read offset), b.touch i)

theorem read?_eq (b : Bus) (address : Nat) : b.read? address = some (b.read address) := by
  unfold read? read
  cases hlocate : b.locate address with
  | none => rfl
  | some i =>
      obtain ⟨d, hd, hhit⟩ := hit?_of_locate hlocate
      simp only [hd, hhit]
      rfl

/-- Writes the word at a byte address and says whether a device is there. -/
def write? (b : Bus) (address : Nat) (w : Word) : Option (Bool × Bus) :=
  match b.locate address with
  | none => some (false, b)
  | some i => do
    let (d, offset) ← b.hit? i address
    return (true, { devices := b.devices.set i (d.write offset w), recent := i })

/-- Changing the device at a position is replacing it. -/
theorem set_eq_modify {b : Bus} {i : Nat} {d : Device} (h : b.devices[i]? = some d)
    (f : Device → Device) : b.devices.set i (f d) = b.devices.modify i f := by
  rw [List.modify_eq_set_getElem?, h]
  rfl

theorem write?_eq (b : Bus) (address : Nat) (w : Word) :
    b.write? address w = some (b.write address w) := by
  unfold write? write
  cases hlocate : b.locate address with
  | none => rfl
  | some i =>
      obtain ⟨d, hd, hhit⟩ := hit?_of_locate hlocate
      have hset := set_eq_modify hd fun d => d.write (address - d.base) w
      simp only [hhit, ← hset]
      rfl

/-- Writes consecutive words one at a time and counts those that hit no device. -/
def writeEach? (b : Bus) (address : Nat) : List Word → Option (Nat × Bus)
  | [] => some (0, b)
  | w :: rest => do
    let (hit, b) ← b.write? address w
    let (missed, b) ← b.writeEach? (address + 4) rest
    return (missed + (!hit).toNat, b)

theorem writeEach?_eq (b : Bus) (address : Nat) (ws : List Word) :
    b.writeEach? address ws = some (b.writeEach address ws) := by
  induction ws generalizing b address with
  | nil => rfl
  | cons w rest ih =>
      simp only [writeEach?, write?_eq, ih, Option.bind_eq_bind, Option.bind_some]
      rfl

/-- Writes consecutive words and counts those that hit no device. A block inside one device goes to
it as a whole. -/
def writeBlock? (b : Bus) (address : Nat) (ws : List Word) : Option (Nat × Bus) :=
  match b.locate address with
  | none => b.writeEach? address ws
  | some i => do
    let (d, offset) ← b.hit? i address
    if offset + 4 * ws.length ≤ d.size then
      let d ← d.writeBlock? offset ws
      return (0, { devices := b.devices.set i d, recent := i })
    else (b.touch i).writeEach? address ws

theorem writeBlock?_eq (b : Bus) (address : Nat) (ws : List Word) :
    b.writeBlock? address ws = some (b.writeBlock address ws) := by
  unfold writeBlock? writeBlock
  cases hlocate : b.locate address with
  | none => exact b.writeEach?_eq address ws
  | some i =>
      obtain ⟨d, hd, hhit⟩ := hit?_of_locate hlocate
      simp only [hhit, hd, Option.any_some, decide_eq_true_eq, Option.bind_eq_bind,
        Option.bind_some]
      split
      · have hset := set_eq_modify hd fun d => d.writeBlock (address - d.base) ws
        simp only [Device.writeBlock?_eq, ← hset]
        rfl
      · exact writeEach?_eq _ address ws

end Bus

end LinkBridge.Wishbone
