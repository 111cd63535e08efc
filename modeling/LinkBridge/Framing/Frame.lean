import LinkBridge.Framing.Packet

/-!
# LinkBridge.Framing.Frame

The frame a packet takes on the link: a preamble word, a word whose low byte is the destination, a
word with the payload length, then the payload.

Reading is tolerant: words outside a frame are skipped up to the next preamble, a length of zero
counts as one word, and a frame cut short by the end of the stream is dropped.
-/

namespace LinkBridge

namespace Frame

/-- Marks the start of a frame. -/
def preamble : Word := 0x5AA55AA5

/-- The words in front of a payload. -/
def header (dst : UInt8) (length : Word) : List Word :=
  [preamble, dst.toUInt32, length]

/-- The frame of a packet. -/
def ofPacket (p : Packet) : List Word :=
  header p.dst p.length ++ p.words

/-- The destination named by the second word of a frame. -/
def destination (w : Word) : UInt8 :=
  w.toUInt8

/-- The number of payload words announced by the third word of a frame. -/
def payloadLength (w : Word) : Word :=
  max w 1

/-- Every complete packet of a word stream. -/
def packets : List Word → List Packet
  | [] => []
  | w :: rest =>
    if w = preamble then
      match rest with
      | dst :: length :: body =>
        let n := (payloadLength length).toNat
        let payload := body.take n
        if payload.length = n then
          { dst := destination dst, payload } :: packets (body.drop n)
        else []
      | _ => []
    else packets rest
termination_by words => words.length
decreasing_by all_goals simp_wf; try omega

@[simp] theorem length_header (dst : UInt8) (length : Word) : (header dst length).length = 3 := rfl

@[simp] theorem length_ofPacket (p : Packet) :
    (ofPacket p).length = 3 + p.words.length := by
  simp [ofPacket]

/-- A word that starts no frame is skipped. -/
theorem packets_cons_of_ne {w : Word} (h : w ≠ preamble) (rest : List Word) :
    packets (w :: rest) = packets rest := by
  rw [packets.eq_def]
  simp only [h, if_false]

/-- A complete frame at the front is one packet. -/
theorem packets_frame (dst length : Word) (payload rest : List Word)
    (h : payload.length = (payloadLength length).toNat) :
    packets (preamble :: dst :: length :: (payload ++ rest)) =
      { dst := destination dst, payload } :: packets rest := by
  rw [packets]
  simp [← h]

end Frame

end LinkBridge
