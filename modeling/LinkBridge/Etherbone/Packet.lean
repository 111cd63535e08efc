import LinkBridge.Text.Radix
import LinkBridge.Word

/-!
# LinkBridge.Etherbone.Packet

Etherbone packets, which carry Wishbone accesses as words:

```
word 0   magic 0x4e6f | version 1 | flags | address size 4 | port size 4
word 1   padding
then, for every record:
  flags | byte enable | write count | read count
  base address, then the words to write      (if the write count is not zero)
  return address, then the addresses to read (if the read count is not zero)
```

A read is answered with a record that writes the values read to the return address.
-/

namespace LinkBridge.Etherbone

/-! ## Packets -/

/-- The write or read section of a record. -/
structure Section where
  /-- Where the writes go, or where the answer to the reads goes. -/
  base : Word := 0
  /-- The words to write, or the addresses to read. -/
  words : List Word := []
  deriving DecidableEq, Inhabited

/-- A record: writes to consecutive addresses, then reads. -/
structure Record where
  flags : UInt8 := 0
  byteEnable : UInt8 := 0x0F
  writes : Section := {}
  reads : Section := {}
  deriving DecidableEq, Inhabited

/-- A packet. -/
structure Packet where
  flags : UInt8 := 0
  records : List Record := []
  deriving DecidableEq, Inhabited

/-- A record that writes `data` from `base` upwards. -/
def Record.write (base : Word) (data : List Word) : Record :=
  { writes := { base, words := data } }

/-- A record that reads every one of `addresses`. -/
def Record.read (addresses : List Word) : Record :=
  { reads := { words := addresses } }

/-- Why a run of words is no packet. -/
inductive Fault where
  /-- Fewer words than the packet header has. -/
  | shortHeader (got : Nat)
  | badMagic (magic : Nat)
  /-- Address or port sizes other than 32 bits. -/
  | badSizes (sizes : Nat)
  /-- A section that needs more words than there are. -/
  | shortSection (needed left : Nat)
  deriving DecidableEq, Inhabited

/-- What is wrong, in words. -/
def Fault.message : Fault → String
  | .shortHeader got => s!"{got} words is shorter than the header"
  | .badMagic magic => s!"bad magic {Text.hex magic 4}"
  | .badSizes sizes => s!"unsupported address/port sizes {Text.hex sizes 2}"
  | .shortSection needed left => s!"record needs {needed} words, {left} left"

/-! ## Format -/

/-- The upper half of the first word. -/
def magic : Nat := 0x4E6F

/-- The version written into the first word. -/
def version : Nat := 1

/-- Address and port size, both 32 bits. -/
def sizes : Nat := 0x44

namespace Section

/-- The count field of a section. -/
def count (s : Section) : Nat :=
  s.words.length % 256

/-- The words of a section: nothing for a count of zero. -/
def encode (s : Section) : List Word :=
  if s.count = 0 then [] else s.base :: s.words.take s.count

/-- Words that a section with the given count takes up. -/
def span (count : Nat) : Nat :=
  if count = 0 then 0 else count + 1

/-- The section with the given count at the front of `words`. -/
def decode (count : Nat) (words : List Word) : Except Fault Section :=
  if count = 0 then .ok {}
  else if words.length < count + 1 then .error (.shortSection (count + 1) words.length)
  else .ok { base := words.headD 0, words := (words.drop 1).take count }

end Section

/-- The words of a record. -/
def Record.encode (r : Record) : List Word :=
  UInt32.ofNat (r.flags.toNat <<< 24 + r.byteEnable.toNat <<< 16 + r.writes.count <<< 8
      + r.reads.count) ::
    (r.writes.encode ++ r.reads.encode)

/-- The records that exactly make up `words`. -/
def Record.decodeAll : List Word → Except Fault (List Record)
  | [] => .ok []
  | head :: rest => do
    let writeCount := Word.field head 8 8
    let readCount := Word.field head 0 8
    let writes ← Section.decode writeCount rest
    let rest := rest.drop (Section.span writeCount)
    let reads ← Section.decode readCount rest
    let others ← decodeAll (rest.drop (Section.span readCount))
    return { flags := UInt8.ofNat (Word.field head 24 8),
             byteEnable := UInt8.ofNat (Word.field head 16 8), writes, reads } :: others
termination_by words => words.length
decreasing_by simp only [List.length_drop, List.length_cons]; omega

namespace Packet

/-- The words of a packet. -/
def encode (p : Packet) : List Word :=
  UInt32.ofNat (magic <<< 16 + version <<< 12 + (p.flags.toNat % 16) <<< 8 + sizes) :: 0 ::
    p.records.flatMap Record.encode

/-- The packet that exactly `words` make up. The version and the padding do not count. -/
def decode : List Word → Except Fault Packet
  | head :: _ :: rest =>
    if Word.field head 16 16 ≠ magic then .error (.badMagic (Word.field head 16 16))
    else if Word.field head 0 8 ≠ sizes then .error (.badSizes (Word.field head 0 8))
    else do
      let records ← Record.decodeAll rest
      return { flags := UInt8.ofNat (Word.field head 8 4), records }
  | short => .error (.shortHeader short.length)

end Packet

end LinkBridge.Etherbone
