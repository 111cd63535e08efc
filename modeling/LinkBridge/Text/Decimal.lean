/-!
# LinkBridge.Text.Decimal

Binary64 numbers written with a fixed number of places. The exact value is rounded; a value half-way
between two neighbours goes to the even one.
-/

namespace LinkBridge.Text

/-- The quotient rounded to the nearest whole number; half-way goes to the even neighbour. -/
def roundDiv (num den : Nat) : Nat :=
  let q := num / den
  let r := num % den
  if den < 2 * r ∨ (den = 2 * r ∧ q % 2 = 1) then q + 1 else q

/-- The finite, non-negative number with the given binary64 pattern, as a fraction. -/
def binary64Fraction (bits : Nat) : Nat × Nat :=
  let mantissa := bits % 1 <<< 52
  let exponent := bits >>> 52 % 1 <<< 11
  let (m, e) := if exponent = 0 then (mantissa, 1) else (mantissa + 1 <<< 52, exponent)
  if 1075 ≤ e then (m <<< (e - 1075), 1) else (m, 1 <<< (1075 - e))

/-- A finite, non-negative number with the given number of places. -/
def fixed (places : Nat) (x : Float) : String :=
  let (num, den) := binary64Fraction x.toBits.toNat
  let unit := Nat.pow 10 places
  let scaled := roundDiv (num * unit) den
  let fraction := Nat.toDigits 10 (scaled % unit)
  toString (scaled / unit) ++ "." ++
    String.ofList (List.replicate (places - fraction.length) '0' ++ fraction)

end LinkBridge.Text
