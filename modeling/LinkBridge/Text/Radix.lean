/-!
# LinkBridge.Text.Radix

Numbers written in base 2 and 16, bare or behind the marker of their base, and filled up with zeros
to a given number of digits; hexadecimal digits read back.
-/

namespace LinkBridge.Text

/-- `n` in the given base, filled up with leading zeros to `width` digits. -/
def digits (base width n : Nat) : String :=
  let ds := Nat.toDigits base n
  String.ofList (List.replicate (width - ds.length) '0' ++ ds)

/-- Hexadecimal digits, at least `width` of them. -/
def hexDigits (width n : Nat) : String :=
  digits 16 width n

/-- A hexadecimal number with its marker and at least `width` digits. -/
def hex (n : Nat) (width : Nat := 1) : String :=
  "0x" ++ hexDigits width n

/-- A binary number with its marker and at least `width` digits. -/
def binary (n : Nat) (width : Nat := 1) : String :=
  "0b" ++ digits 2 width n

/-- The value of a hexadecimal digit, in either case. -/
def hexDigit? (c : Char) : Option Nat :=
  if '0' ≤ c ∧ c ≤ '9' then some (c.toNat - '0'.toNat)
  else if 'a' ≤ c ∧ c ≤ 'f' then some (c.toNat - 'a'.toNat + 10)
  else if 'A' ≤ c ∧ c ≤ 'F' then some (c.toNat - 'A'.toNat + 10)
  else none

/-- The number that hexadecimal digits stand for; no digits stand for zero. -/
def ofHexDigits? (cs : List Char) : Option Nat :=
  cs.foldlM (fun n c => (hexDigit? c).map (n * 16 + ·)) 0

/-- Bytes as two digits each. -/
def hexBytes (bs : List UInt8) : String :=
  String.join (bs.map fun b => hexDigits 2 b.toNat)

/-- The bytes written as two digits each. -/
def ofHexBytes? : List Char → Option (List UInt8)
  | [] => some []
  | a :: b :: rest => do
    let n ← ofHexDigits? [a, b]
    return UInt8.ofNat n :: (← ofHexBytes? rest)
  | [_] => none

end LinkBridge.Text
