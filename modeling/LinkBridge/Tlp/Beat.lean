import LinkBridge.Word

/-!
# LinkBridge.Tlp.Beat

The 64-bit beats of a TLP stream. A beat holds two dwords, the first in the low half; its byte
enables say whether the high half counts. A beat always carries its low dword.

Main statement: packing dwords into beats and reading them back gives the dwords
(`flatMap_dwords_ofDwords`).
-/

namespace LinkBridge.Tlp

/-- One beat of a TLP stream. -/
structure Beat where
  /-- Two dwords, the first in bits 31–0. -/
  data : UInt64 := 0
  /-- Byte enables, one bit per byte of `data`. -/
  enable : UInt8 := 0
  /-- Marks the final beat of the TLP. -/
  last : Bool := false
  deriving DecidableEq, Inhabited

namespace Beat

/-- The dword in bits 31–0. -/
def low (b : Beat) : Word :=
  b.data.toUInt32

/-- The dword in bits 63–32. -/
def high (b : Beat) : Word :=
  UInt32.ofNat (b.data.toNat >>> 32)

/-- Whether some byte of the high dword is enabled. -/
def hasHigh (b : Beat) : Bool :=
  decide (16 ≤ b.enable.toNat)

/-- The dwords a beat carries. -/
def dwords (b : Beat) : List Word :=
  if b.hasHigh then [b.low, b.high] else [b.low]

/-- A beat with both dwords. -/
def pair (low high : Word) (last : Bool) : Beat :=
  { data := UInt64.ofNat (low.toNat + high.toNat <<< 32), enable := 0xFF, last }

/-- The final beat of a TLP with an odd number of dwords. -/
def lone (low : Word) : Beat :=
  { data := low.toUInt64, enable := 0x0F, last := true }

/-- Dwords packed two per beat; the final beat is marked. -/
def ofDwords : List Word → List Beat
  | [] => []
  | [a] => [lone a]
  | a :: b :: rest => pair a b rest.isEmpty :: ofDwords rest

@[simp] theorem low_pair (a b : Word) (last : Bool) : (pair a b last).low = a := by
  apply UInt32.toNat_inj.mp
  have ha := a.toNat_lt
  have hb := b.toNat_lt
  simp only [low, pair, UInt64.toNat_toUInt32, UInt64.toNat_ofNat']
  omega

@[simp] theorem high_pair (a b : Word) (last : Bool) : (pair a b last).high = b := by
  apply UInt32.toNat_inj.mp
  have ha := a.toNat_lt
  have hb := b.toNat_lt
  simp only [high, pair, UInt32.toNat_ofNat', UInt64.toNat_ofNat']
  omega

@[simp] theorem hasHigh_pair (a b : Word) (last : Bool) : (pair a b last).hasHigh = true := rfl

@[simp] theorem hasHigh_lone (a : Word) : (lone a).hasHigh = false := rfl

@[simp] theorem dwords_pair (a b : Word) (last : Bool) : (pair a b last).dwords = [a, b] := by
  simp [dwords]

@[simp] theorem dwords_lone (a : Word) : (lone a).dwords = [a] := by
  rw [dwords, hasHigh_lone]
  simp [low, lone]

/-- Packed dwords read back unchanged. -/
theorem flatMap_dwords_ofDwords (ws : List Word) : (ofDwords ws).flatMap dwords = ws := by
  fun_induction ofDwords ws with
  | case1 => rfl
  | case2 a => simp
  | case3 a b rest ih => simp [ih]

end Beat

end LinkBridge.Tlp
