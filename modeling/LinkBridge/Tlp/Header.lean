import LinkBridge.Word
import LinkBridge.Text.Radix

/-!
# LinkBridge.Tlp.Header

The three-dword headers of the TLPs the bridge exchanges with the host: 32-bit memory reads and
writes, and completions with or without data.

```
dw0             [30:29] fmt  [28:24] type  [9:0] length
dw1 request     [31:16] requester  [15:8] tag  [7:4] last enable  [3:0] first enable
dw2 request     [31:2] address
dw1 completion  [31:16] completer  [15:13] status  [12] BCM  [11:0] byte count
dw2 completion  [31:16] requester  [15:8] tag  [6:0] lower address
```

A length of zero stands for 1024 dwords. Encoding cuts every field to its width; decoding ignores
the bits that belong to no field.
-/

namespace LinkBridge.Tlp

/-! ## Headers -/

/-- The fields of a memory request. -/
structure Request where
  /-- Length in dwords. -/
  length : UInt16
  requester : UInt16
  tag : UInt8
  firstEnable : UInt8
  lastEnable : UInt8
  /-- Byte address. -/
  address : UInt32
  deriving DecidableEq, Inhabited

/-- The fields of a completion. -/
structure Completion where
  /-- Length in dwords. -/
  length : UInt16
  completer : UInt16
  status : UInt8
  bcm : Bool
  byteCount : UInt16
  requester : UInt16
  tag : UInt8
  lowerAddress : UInt8
  deriving DecidableEq, Inhabited

/-- A TLP header. -/
inductive Header where
  | memRead (request : Request)
  | memWrite (request : Request)
  | completion (completion : Completion)
  | completionWithData (completion : Completion)
  deriving DecidableEq, Inhabited

/-- Why a run of dwords is no TLP. -/
inductive Fault where
  /-- Fewer dwords than a header has. -/
  | shortHeader (got : Nat)
  /-- A kind of TLP the bridge does not know. -/
  | unsupported (fmt type : Nat)
  /-- The number of dwords differs from what the header announces. -/
  | wrongLength (name : String) (expected got : Nat)
  deriving DecidableEq, Inhabited

/-- What is wrong, in words. -/
def Fault.message : Fault → String
  | .shortHeader got => s!"header needs 3 dwords, got {got}"
  | .unsupported fmt type => s!"unsupported fmt={Text.binary fmt} type={Text.binary type 5}"
  | .wrongLength name expected got => s!"{name} expects {expected} dwords, got {got}"

namespace Header

/-- Dwords in a header. -/
def size : Nat := 3

/-- The mnemonic of a kind of TLP. -/
def name : Header → String
  | .memRead _ => "RD32"
  | .memWrite _ => "WR32"
  | .completion _ => "CPL"
  | .completionWithData _ => "CPLD"

/-- The length field. -/
def length : Header → UInt16
  | .memRead r | .memWrite r => r.length
  | .completion c | .completionWithData c => c.length

/-- The number of dwords a length field stands for. -/
def dwordCount (length : UInt16) : Nat :=
  if length.toNat % 1024 = 0 then 1024 else length.toNat % 1024

/-- Data dwords that follow the header. -/
def dataDwords (h : Header) : Nat :=
  match h with
  | .memWrite _ | .completionWithData _ => dwordCount h.length
  | .memRead _ | .completion _ => 0

/-! ## Encoding -/

/-- The format and type numbers of a kind of TLP. -/
def format : Header → Nat × Nat
  | .memRead _ => (0b00, 0b00000)
  | .memWrite _ => (0b10, 0b00000)
  | .completion _ => (0b00, 0b01010)
  | .completionWithData _ => (0b10, 0b01010)

/-- The second and third dword of a request. -/
def encodeRequest (r : Request) : List Word :=
  [UInt32.ofNat (r.requester.toNat <<< 16 + r.tag.toNat <<< 8
      + (r.lastEnable.toNat % 16) <<< 4 + r.firstEnable.toNat % 16),
    UInt32.ofNat (r.address.toNat / 4 * 4)]

/-- The second and third dword of a completion. -/
def encodeCompletion (c : Completion) : List Word :=
  [UInt32.ofNat (c.completer.toNat <<< 16 + (c.status.toNat % 8) <<< 13 + c.bcm.toNat <<< 12
      + c.byteCount.toNat % 4096),
    UInt32.ofNat (c.requester.toNat <<< 16 + c.tag.toNat <<< 8 + c.lowerAddress.toNat % 128)]

/-- The three dwords of a header. -/
def encode (h : Header) : List Word :=
  let (fmt, type) := h.format
  UInt32.ofNat (fmt <<< 29 + type <<< 24 + h.length.toNat % 1024) ::
    match h with
    | .memRead r | .memWrite r => encodeRequest r
    | .completion c | .completionWithData c => encodeCompletion c

/-! ## Decoding -/

/-- The request with the given dwords. -/
def decodeRequest (dw0 dw1 dw2 : Word) : Request where
  length := UInt16.ofNat (Word.field dw0 0 10)
  requester := UInt16.ofNat (Word.field dw1 16 16)
  tag := UInt8.ofNat (Word.field dw1 8 8)
  firstEnable := UInt8.ofNat (Word.field dw1 0 4)
  lastEnable := UInt8.ofNat (Word.field dw1 4 4)
  address := UInt32.ofNat (dw2.toNat / 4 * 4)

/-- The completion with the given dwords. -/
def decodeCompletion (dw0 dw1 dw2 : Word) : Completion where
  length := UInt16.ofNat (Word.field dw0 0 10)
  completer := UInt16.ofNat (Word.field dw1 16 16)
  status := UInt8.ofNat (Word.field dw1 13 3)
  bcm := Word.field dw1 12 1 != 0
  byteCount := UInt16.ofNat (Word.field dw1 0 12)
  requester := UInt16.ofNat (Word.field dw2 16 16)
  tag := UInt8.ofNat (Word.field dw2 8 8)
  lowerAddress := UInt8.ofNat (Word.field dw2 0 7)

/-- The header at the front of a run of dwords. -/
def decode : List Word → Except Fault Header
  | dw0 :: dw1 :: dw2 :: _ =>
    match Word.field dw0 29 2, Word.field dw0 24 5 with
    | 0b00, 0b00000 => .ok (.memRead (decodeRequest dw0 dw1 dw2))
    | 0b10, 0b00000 => .ok (.memWrite (decodeRequest dw0 dw1 dw2))
    | 0b00, 0b01010 => .ok (.completion (decodeCompletion dw0 dw1 dw2))
    | 0b10, 0b01010 => .ok (.completionWithData (decodeCompletion dw0 dw1 dw2))
    | fmt, type => .error (.unsupported fmt type)
  | short => .error (.shortHeader short.length)

@[simp] theorem length_encode (h : Header) : h.encode.length = size := by
  cases h <;> rfl

end Header

end LinkBridge.Tlp
