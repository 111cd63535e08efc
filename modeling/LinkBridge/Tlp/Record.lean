import LinkBridge.Tlp.Beat
import LinkBridge.Tlp.Header

/-!
# LinkBridge.Tlp.Record

A complete TLP, header and data, as a run of dwords and as a run of beats. Reading is strict: the
number of dwords has to be exactly what the header announces.
-/

namespace LinkBridge.Tlp

/-- A TLP. -/
structure Record where
  header : Header
  data : List Word := []
  deriving DecidableEq, Inhabited

namespace Record

/-- A request to read one dword. -/
def memRead (requester : UInt16) (tag : UInt8) (address : UInt32) : Record where
  header := .memRead
    { length := 1, requester, tag, firstEnable := 0xF, lastEnable := 0, address }

/-- A request to write `data`. -/
def memWrite (requester : UInt16) (tag : UInt8) (address : UInt32) (data : List Word) :
    Record where
  header := .memWrite
    { length := UInt16.ofNat (data.length % 1024), requester, tag, firstEnable := 0xF,
      lastEnable := if 1 < data.length then 0xF else 0, address }
  data

/-- The dwords of a TLP in the order they are sent. -/
def toDwords (r : Record) : List Word :=
  r.header.encode ++ r.data

/-- The TLP made of exactly the given dwords. -/
def ofDwords (dwords : List Word) : Except Fault Record := do
  let header ← Header.decode dwords
  let expected := Header.size + header.dataDwords
  if dwords.length = expected then
    return { header, data := dwords.drop Header.size }
  else throw (.wrongLength header.name expected dwords.length)

/-- The beats of a TLP. -/
def toBeats (r : Record) : List Beat :=
  Beat.ofDwords r.toDwords

/-- The TLP made of exactly the dwords that the given beats carry. -/
def ofBeats (beats : List Beat) : Except Fault Record :=
  ofDwords (beats.flatMap Beat.dwords)

/-- Beats make no difference to what is read. -/
theorem ofBeats_toBeats (r : Record) : ofBeats r.toBeats = ofDwords r.toDwords := by
  rw [ofBeats, toBeats, Beat.flatMap_dwords_ofDwords]

end Record

end LinkBridge.Tlp
