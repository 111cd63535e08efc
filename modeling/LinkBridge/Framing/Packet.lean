import LinkBridge.Word

/-!
# LinkBridge.Framing.Packet

Tagged packets and the beats they are made of. A packet carries payload words to one destination;
inside the bridge it travels as a run of beats, one word each, every one of which repeats the
destination and the length so that any stage can decide by looking at the head beat alone. A packet
without payload travels as one zero word, so the length always counts the beats
(`length_beats`).
-/

namespace LinkBridge

/-- One word of a packet on its way through the bridge. -/
structure PacketBeat where
  /-- Destination tag. -/
  dst : UInt8 := 0
  /-- Payload length of the packet in words. -/
  length : Word := 0
  data : Word := 0
  /-- Marks the final beat of the packet. -/
  last : Bool := false
  /-- Error flags, one per byte. -/
  error : UInt8 := 0
  deriving DecidableEq, Inhabited

/-- A packet: destination tag and payload. -/
structure Packet where
  dst : UInt8
  payload : List Word
  deriving DecidableEq, Inhabited

namespace Packet

/-- The words that travel: the payload, or one zero word in place of none. -/
def words (p : Packet) : List Word :=
  if p.payload.isEmpty then [0] else p.payload

/-- The length field: the number of payload words, at least one. -/
def length (p : Packet) : Word :=
  max (UInt32.ofNat p.payload.length) 1

/-- Words of one packet as beats; the last one is marked. -/
def beatsOf (dst : UInt8) (length : Word) : List Word → List PacketBeat
  | [] => []
  | w :: rest =>
    { dst, length, data := w, last := rest.isEmpty } :: beatsOf dst length rest

/-- The beats of a packet. -/
def beats (p : Packet) : List PacketBeat :=
  beatsOf p.dst p.length p.words

/-- The packet that beats belong to; there is none without a first beat. -/
def ofBeats? : List PacketBeat → Option Packet
  | [] => none
  | first :: rest => some { dst := first.dst, payload := (first :: rest).map (·.data) }

@[simp] theorem map_data_beatsOf (dst : UInt8) (length : Word) (ws : List Word) :
    (beatsOf dst length ws).map (·.data) = ws := by
  induction ws with
  | nil => rfl
  | cons w rest ih => simp [beatsOf, ih]

@[simp] theorem map_data_beats (p : Packet) : p.beats.map (·.data) = p.words :=
  map_data_beatsOf ..

theorem words_ne_nil (p : Packet) : p.words ≠ [] := by
  unfold words
  cases h : p.payload <;> simp

@[simp] theorem length_beats (p : Packet) : p.beats.length = p.words.length := by
  rw [← map_data_beats, List.length_map]

/-- Collecting the beats of a packet gives the packet back, up to an empty payload. -/
theorem ofBeats?_beats (p : Packet) :
    ofBeats? p.beats = some { dst := p.dst, payload := p.words } := by
  unfold beats
  cases h : p.words with
  | nil => exact absurd h p.words_ne_nil
  | cons w rest => simp [beatsOf, ofBeats?]

end Packet

end LinkBridge
