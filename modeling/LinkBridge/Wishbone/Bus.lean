import LinkBridge.Wishbone.Device

/-!
# LinkBridge.Wishbone.Bus

The Wishbone bus: devices in the order of their base addresses. An address is looked up first in
the device that answered last and then in every device in order. An access that hits no device
completes all the same, and the bus says so.
-/

namespace LinkBridge.Wishbone

/-- The bus. -/
structure Bus where
  /-- The devices by ascending base address. -/
  devices : List Device := []
  /-- Position of the device that answered last. -/
  recent : Nat := 0
  deriving Inhabited

namespace Bus

/-- Inserts a device behind those with the same or a smaller base address. -/
def insertByBase (d : Device) : List Device → List Device
  | [] => [d]
  | e :: rest => if d.base < e.base then d :: e :: rest else e :: insertByBase d rest

/-- Attaches a device. -/
def add (b : Bus) (d : Device) : Bus :=
  { devices := insertByBase d b.devices, recent := 0 }

/-- A bus with the given devices, attached in order. -/
def ofDevices (ds : List Device) : Bus :=
  ds.foldl add {}

/-! ## Accesses -/

/-- The position of the device behind an address. -/
def locate (b : Bus) (address : Nat) : Option Nat :=
  if (b.devices[b.recent]?).any (·.covers address) then some b.recent
  else b.devices.findIdx? (·.covers address)

/-- Remembers the device that answered. -/
def touch (b : Bus) (i : Nat) : Bus :=
  { b with recent := i }

/-- Reads the word at a byte address; `none` when no device is there. -/
def read (b : Bus) (address : Nat) : Option Word × Bus :=
  match b.locate address with
  | none => (none, b)
  | some i => ((b.devices[i]?).map fun d => d.read (address - d.base), b.touch i)

/-- Writes the word at a byte address and says whether a device is there. -/
def write (b : Bus) (address : Nat) (w : Word) : Bool × Bus :=
  match b.locate address with
  | none => (false, b)
  | some i =>
    (true, { devices := b.devices.modify i fun d => d.write (address - d.base) w, recent := i })

/-- Writes consecutive words one at a time and counts those that hit no device. -/
def writeEach (b : Bus) (address : Nat) : List Word → Nat × Bus
  | [] => (0, b)
  | w :: rest =>
    let (hit, b) := b.write address w
    let (missed, b) := b.writeEach (address + 4) rest
    (missed + (!hit).toNat, b)

/-- Writes consecutive words and counts those that hit no device. A block inside one device goes to
it as a whole. -/
def writeBlock (b : Bus) (address : Nat) (ws : List Word) : Nat × Bus :=
  match b.locate address with
  | none => b.writeEach address ws
  | some i =>
    let fits := (b.devices[i]?).any fun d => address - d.base + 4 * ws.length ≤ d.size
    if fits then
      let devices := b.devices.modify i fun d => d.writeBlock (address - d.base) ws
      (0, { devices, recent := i })
    else (b.touch i).writeEach address ws

/-! ## Interrupts -/

/-- Lets the first interrupt controller among the devices offer its vector. -/
def offerFirst (ready : Bool) : List Device → Transfer (List Device) UInt8
  | [] => { next := [] }
  | d :: rest =>
    if d.isMsi then (d.offer ready).map (· :: rest)
    else (offerFirst ready rest).map (d :: ·)

/-- One tick. -/
def tick (b : Bus) (ready : Bool) : Transfer Bus UInt8 :=
  (offerFirst ready b.devices).map fun devices => { b with devices }

/-- Resets every device. -/
def reset (b : Bus) : Bus :=
  { b with devices := b.devices.map Device.reset }

/-- Whether no device has an operation under way. -/
def isIdle (b : Bus) : Bool :=
  !b.devices.any Device.isBusy

end Bus

end LinkBridge.Wishbone
