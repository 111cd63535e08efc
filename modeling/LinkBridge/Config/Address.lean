import LinkBridge.Text.Radix

/-!
# LinkBridge.Config.Address

Addresses and sizes as they are written in a configuration: hexadecimal digits in either case,
behind any number of `0x` markers and at most one plus sign. The value has to be below `2 ^ 64`.
-/

namespace LinkBridge.Config

/-- Why a text is no address. -/
inductive AddressFault where
  | empty
  | badDigit
  | tooLarge
  deriving DecidableEq, Inhabited

/-- What is wrong, in words. -/
def AddressFault.message : AddressFault → String
  | .empty => "cannot parse integer from empty string"
  | .badDigit => "invalid digit found in string"
  | .tooLarge => "number too large to fit in target type"

namespace Address

/-- Reads digits behind a number; the first fault from the left counts. -/
def readDigits (value : Nat) : List Char → Except AddressFault Nat
  | [] => .ok value
  | c :: rest =>
    match Text.hexDigit? c with
    | none => .error .badDigit
    | some d =>
      if UInt64.size ≤ value * 16 + d then .error .tooLarge else readDigits (value * 16 + d) rest

/-- Removes every `0x` at the front. -/
def dropMarkers : List Char → List Char
  | '0' :: 'x' :: rest => dropMarkers rest
  | cs => cs

/-- Removes a plus sign at the front. A sign with nothing behind it stays, as it is no digit. -/
def dropSign : List Char → List Char
  | '+' :: c :: rest => c :: rest
  | cs => cs

/-- The number a text stands for. -/
def parse (text : String) : Except AddressFault Nat :=
  match dropMarkers text.toList with
  | [] => .error .empty
  | cs => readDigits 0 (dropSign cs)

end Address

end LinkBridge.Config
