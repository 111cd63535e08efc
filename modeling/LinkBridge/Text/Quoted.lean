import LinkBridge.Text.Hidden
import LinkBridge.Text.Radix

/-!
# LinkBridge.Text.Quoted

Text between double quotes, written so that every character can be made out: quotes and backslashes
stand behind a backslash, the common controls have a letter, and other characters that would not
show are written as their number between braces.
-/

namespace LinkBridge.Text

/-- A character as it is written between quotes. -/
def quoteChar (c : Char) : List Char :=
  match c with
  | '\x00' => ['\\', '0']
  | '\t' => ['\\', 't']
  | '\n' => ['\\', 'n']
  | '\r' => ['\\', 'r']
  | '"' => ['\\', '"']
  | '\\' => ['\\', '\\']
  | c =>
    if isHidden c then ['\\', 'u', '\x7b'] ++ Nat.toDigits 16 c.toNat ++ ['\x7d'] else [c]

/-- Text between quotes. -/
def quote (s : String) : String :=
  String.ofList ('"' :: s.toList.flatMap quoteChar ++ ['"'])

end LinkBridge.Text
