import LinkBridge.Text.Radix
import LinkBridge.Toml.Value

/-!
# LinkBridge.Toml.Lexeme

The smallest parts of a TOML document: blanks and line ends, strings, numbers and dates. A reader
takes what it knows from the front of the text and returns it with the rest; it returns nothing when
the text does not start that way.
-/

namespace LinkBridge.Toml

/-- Reads from the front of a text. -/
abbrev Reader (α : Type) := List Char → Option (α × List Char)

namespace Lexeme

/-! ## Blanks and line ends -/

/-- Space or tab. -/
def isBlank (c : Char) : Bool :=
  c = ' ' || c = '\t'

/-- A character that may stand inside a line: no control other than the tab. -/
def isPrintable (c : Char) : Bool :=
  c = '\t' || (decide (' ' ≤ c) && c ≠ '\x7f')

/-- Skips blanks. -/
def skipBlanks (cs : List Char) : List Char :=
  cs.dropWhile isBlank

/-- Skips a comment, if there is one. -/
def skipComment : List Char → List Char
  | '#' :: rest => rest.dropWhile isPrintable
  | cs => cs

/-- Takes one line end. -/
def newline? : List Char → Option (List Char)
  | '\n' :: rest => some rest
  | '\r' :: '\n' :: rest => some rest
  | _ => none

/-- Takes what may stand behind a statement: blanks, a comment, and the end of the line or of the
document. -/
def lineEnd? (cs : List Char) : Option (List Char) :=
  match skipComment (skipBlanks cs) with
  | [] => some []
  | rest => newline? rest

theorem length_skipBlanks_le (cs : List Char) : (skipBlanks cs).length ≤ cs.length :=
  (List.dropWhile_sublist _).length_le

theorem length_skipComment_le (cs : List Char) : (skipComment cs).length ≤ cs.length := by
  unfold skipComment
  split
  · exact Nat.le_succ_of_le (List.dropWhile_sublist _).length_le
  · exact Nat.le_refl _

theorem length_newline?_lt {cs rest : List Char} (h : newline? cs = some rest) :
    rest.length < cs.length := by
  unfold newline? at h
  split at h <;> cases h <;> simp only [List.length_cons] <;> omega

/-- Skips blanks, comments and line ends. -/
def skipLines (cs : List Char) : List Char :=
  match _h : newline? (skipComment (skipBlanks cs)) with
  | some rest => skipLines rest
  | none => skipComment (skipBlanks cs)
termination_by cs.length
decreasing_by
  have := length_newline?_lt ‹_›
  have := length_skipComment_le (skipBlanks cs)
  have := length_skipBlanks_le cs
  omega

/-! ## Strings -/

/-- Reads `n` hexadecimal digits behind a number. -/
def hexNumber (value : Nat) : Nat → Reader Nat
  | 0, cs => some (value, cs)
  | n + 1, c :: rest => (Text.hexDigit? c).bind fun d => hexNumber (value * 16 + d) n rest
  | _ + 1, [] => none

/-- Reads a character given by its number in `n` digits. -/
def numbered (n : Nat) : Reader Char := fun cs => do
  let (code, rest) ← hexNumber 0 n cs
  if code.isValidChar then return (Char.ofNat code, rest) else none

/-- Reads what stands behind a backslash. -/
def escape : Reader Char
  | 'b' :: rest => some ('\x08', rest)
  | 't' :: rest => some ('\t', rest)
  | 'n' :: rest => some ('\n', rest)
  | 'f' :: rest => some ('\x0c', rest)
  | 'r' :: rest => some ('\r', rest)
  | '"' :: rest => some ('"', rest)
  | '\\' :: rest => some ('\\', rest)
  | 'u' :: rest => numbered 4 rest
  | 'U' :: rest => numbered 8 rest
  | _ => none

/-- Reads the rest of a string inside one line, up to the closing `mark`; `acc` is what was read,
last character first. In text between double quotes a backslash starts an escape. -/
def lineBody (mark : Char) (fuel : Nat) (acc : List Char) : Reader String
  | [] => none
  | c :: rest =>
    match fuel with
    | 0 => none
    | fuel + 1 =>
      if c = mark then some (String.ofList acc.reverse, rest)
      else if c = '\\' ∧ mark = '"' then
        (escape rest).bind fun (e, rest) => lineBody mark fuel (e :: acc) rest
      else if isPrintable c then lineBody mark fuel (c :: acc) rest
      else none

/-- Reads a string inside one line. -/
def lineString : Reader String
  | '"' :: rest => lineBody '"' (rest.length + 1) [] rest
  | '\'' :: rest => lineBody '\'' (rest.length + 1) [] rest
  | _ => none

/-- Skips blanks and line ends. -/
def skipBlankLines (cs : List Char) : List Char :=
  match _h : newline? (skipBlanks cs) with
  | some rest => skipBlankLines rest
  | none => skipBlanks cs
termination_by cs.length
decreasing_by
  have := length_newline?_lt ‹_›
  have := length_skipBlanks_le cs
  omega

/-- Takes a backslash's blanks and line end, with all blanks and line ends that follow. -/
def joinedLines? (cs : List Char) : Option (List Char) :=
  (newline? (skipBlanks cs)).map skipBlankLines

/-- Reads the rest of a string over several lines, up to three closing marks. Up to two further
marks may stand in front of those three. -/
def blockBody (mark : Char) (fuel : Nat) (acc : List Char) (cs : List Char) :
    Option (String × List Char) :=
  match fuel, cs with
  | 0, _ => none
  | _, [] => none
  | fuel + 1, c :: rest =>
    if c = mark then
      let marks := (cs.takeWhile (· = mark)).length
      if 3 ≤ marks then
        let own := min (marks - 3) 2
        some (String.ofList (acc.reverse ++ List.replicate own mark), cs.drop (own + 3))
      else blockBody mark fuel (c :: acc) rest
    else
      match newline? cs with
      | some rest => blockBody mark fuel ('\n' :: acc) rest
      | none =>
        if c = '\\' ∧ mark = '"' then
          match joinedLines? rest with
          | some rest => blockBody mark fuel acc rest
          | none => (escape rest).bind fun (e, rest) => blockBody mark fuel (e :: acc) rest
        else if isPrintable c then blockBody mark fuel (c :: acc) rest
        else none

/-- Reads a string over several lines; a line end right behind the opening marks is left out. -/
def blockString (mark : Char) : Reader String := fun cs =>
  let body := (newline? cs).getD cs
  blockBody mark (body.length + 1) [] body

/-- Reads a string of any kind. -/
def anyString : Reader String
  | '"' :: '"' :: '"' :: rest => blockString '"' rest
  | '\'' :: '\'' :: '\'' :: rest => blockString '\'' rest
  | cs => lineString cs

/-! ## Keys -/

/-- A character of a bare key. -/
def isKeyChar (c : Char) : Bool :=
  c.isAlphanum || c = '_' || c = '-'

/-- Reads one key, bare or quoted. -/
def simpleKey : Reader String := fun cs =>
  match cs with
  | '"' :: _ | '\'' :: _ => lineString cs
  | _ =>
    let key := cs.takeWhile isKeyChar
    if key.isEmpty then none else some (String.ofList key, cs.drop key.length)

/-- Keys joined by dots, with blanks around each. -/
def keyPath (fuel : Nat) : Reader (List String) := fun cs => do
  let (key, rest) ← simpleKey (skipBlanks cs)
  match fuel, skipBlanks rest with
  | fuel + 1, '.' :: rest =>
    let (keys, rest) ← keyPath fuel rest
    return (key :: keys, rest)
  | 0, '.' :: _ => none
  | _, rest => return ([key], rest)

/-! ## Numbers -/

/-- Takes the digits at the front, each with an underscore in front of it or not, and drops the
underscores. -/
def moreDigits (isDigit : Char → Bool) : List Char → List Char × List Char
  | '_' :: d :: rest =>
    if isDigit d then
      let (ds, left) := moreDigits isDigit rest
      (d :: ds, left)
    else ([], '_' :: d :: rest)
  | d :: rest =>
    if isDigit d then
      let (ds, left) := moreDigits isDigit rest
      (d :: ds, left)
    else ([], d :: rest)
  | [] => ([], [])

/-- Reads digits, with single underscores between them; the underscores are dropped. -/
def digitRun (isDigit : Char → Bool) : Reader (List Char)
  | d :: rest =>
    if isDigit d then
      let (ds, left) := moreDigits isDigit rest
      some (d :: ds, left)
    else none
  | [] => none

/-- Takes a sign, if there is one, and says whether it is a minus. -/
def sign : List Char → Bool × List Char
  | '-' :: rest => (true, rest)
  | '+' :: rest => (false, rest)
  | cs => (false, cs)

/-- Reads the digits of a decimal number; only zero itself starts with a zero. -/
def decimalDigits : Reader (List Char)
  | '0' :: rest => some (['0'], rest)
  | cs => digitRun Char.isDigit cs

/-- The number that digits stand for. -/
def number (base : Nat) (ds : List Char) : Nat :=
  ds.foldl (fun n d => n * base + (Text.hexDigit? d).getD 0) 0

/-- A whole number, which has to fit 64 bits with a sign. -/
def whole (n : Int) (rest : List Char) : Option (Value × List Char) :=
  if -0x8000000000000000 ≤ n ∧ n < 0x8000000000000000 then some (.integer n, rest) else none

/-- Reads a whole number. -/
def integer : Reader Value
  | '0' :: 'x' :: rest =>
    (digitRun (fun c => (Text.hexDigit? c).isSome) rest).bind fun (ds, rest) =>
      whole (number 16 ds) rest
  | '0' :: 'o' :: rest =>
    (digitRun (fun c => decide ('0' ≤ c ∧ c ≤ '7')) rest).bind fun (ds, rest) =>
      whole (number 8 ds) rest
  | '0' :: 'b' :: rest =>
    (digitRun (fun c => c = '0' || c = '1') rest).bind fun (ds, rest) =>
      whole (number 2 ds) rest
  | cs =>
    let (negative, cs) := sign cs
    (decimalDigits cs).bind fun (ds, rest) =>
      whole (if negative then -(number 10 ds : Int) else number 10 ds) rest

/-- Whether a decimal number `m * 10 ^ e` is too large for a binary64 number. -/
def exceedsBinary64 (m : Nat) (e : Int) : Bool :=
  let size : Int := (Nat.toDigits 10 m).length + e
  if m = 0 ∨ size < 300 then false
  else if 320 < size then true
  else
    let bound := 1 <<< 1024 - 1 <<< 970
    if 0 ≤ e then decide (bound ≤ m * Nat.pow 10 e.toNat)
    else decide (bound * Nat.pow 10 (-e).toNat ≤ m)

/-- Reads the fraction of a float, if there is one. -/
def fraction? : Reader (List Char)
  | '.' :: rest => digitRun Char.isDigit rest
  | _ => none

/-- Reads the exponent of a float, if there is one. -/
def exponent? : Reader Int := fun cs =>
  match cs with
  | 'e' :: rest | 'E' :: rest =>
    let (negative, rest) := sign rest
    (digitRun Char.isDigit rest).map fun (ds, rest) =>
      (if negative then -(number 10 ds : Int) else number 10 ds, rest)
  | _ => none

/-- Reads a number with a fraction or an exponent; one that is too large is none, unless it is
negative. -/
def float : Reader Value := fun cs => do
  let (negative, body) := sign cs
  let (ds, rest) ← decimalDigits body
  let (fs, rest) := (fraction? rest).getD ([], rest)
  let (e, rest) ← match exponent? rest with
    | some found => some found
    | none => if fs.isEmpty then none else some (0, rest)
  if !negative && exceedsBinary64 (number 10 (ds ++ fs)) (e - fs.length) then none
  else return (.float (String.ofList (cs.take (cs.length - rest.length))), rest)

/-- Reads an infinity or a not-a-number. -/
def specialFloat : Reader Value := fun cs =>
  match (sign cs).2 with
  | 'i' :: 'n' :: 'f' :: rest => some (.float "inf", rest)
  | 'n' :: 'a' :: 'n' :: rest => some (.float "nan", rest)
  | _ => none

/-! ## Dates and times -/

/-- Reads a number of exactly `n` digits between two bounds. -/
def bounded (n least greatest : Nat) : Reader Nat := fun cs =>
  let ds := cs.take n
  let value := number 10 ds
  if ds.length = n ∧ ds.all Char.isDigit ∧ least ≤ value ∧ value ≤ greatest then
    some (value, cs.drop n)
  else none

/-- Takes one given character. -/
def char? (c : Char) : List Char → Option (List Char)
  | d :: rest => if d = c then some rest else none
  | [] => none

/-- Takes a date. -/
def date? (cs : List Char) : Option (List Char) := do
  let (_, cs) ← bounded 4 0 9999 cs
  let (_, cs) ← bounded 2 1 12 (← char? '-' cs)
  let (_, cs) ← bounded 2 1 31 (← char? '-' cs)
  return cs

/-- Takes a time of day. -/
def time? (cs : List Char) : Option (List Char) := do
  let (_, cs) ← bounded 2 0 23 cs
  let (_, cs) ← bounded 2 0 59 (← char? ':' cs)
  let (_, cs) ← bounded 2 0 60 (← char? ':' cs)
  match cs with
  | '.' :: c :: rest => if c.isDigit then return rest.dropWhile Char.isDigit else return cs
  | _ => return cs

/-- Takes the distance from universal time, if it is given. -/
def dropOffset (cs : List Char) : List Char :=
  match cs with
  | 'Z' :: rest | 'z' :: rest => rest
  | '+' :: rest | '-' :: rest =>
    let after := do
      let (_, rest) ← bounded 2 0 23 rest
      let (_, rest) ← bounded 2 0 59 (← char? ':' rest)
      return rest
    after.getD cs
  | _ => cs

/-- Takes the time behind a date, if it is given. -/
def dropTime (cs : List Char) : List Char :=
  match cs with
  | 'T' :: rest | 't' :: rest | ' ' :: rest => ((time? rest).map dropOffset).getD cs
  | _ => cs

/-- Reads a date, a time, or both. -/
def datetime : Reader Value := fun cs => do
  let rest ← ((date? cs).map dropTime).or (time? cs)
  return (.datetime (String.ofList (cs.take (cs.length - rest.length))), rest)

/-! ## Scalars -/

/-- Reads a value that holds no other values. -/
def scalar : Reader Value := fun cs =>
  match cs with
  | '"' :: _ | '\'' :: _ => (anyString cs).map fun (s, rest) => (.string s, rest)
  | 't' :: 'r' :: 'u' :: 'e' :: rest => some (.boolean true, rest)
  | 'f' :: 'a' :: 'l' :: 's' :: 'e' :: rest => some (.boolean false, rest)
  | _ => (((datetime cs).or (float cs)).or (specialFloat cs)).or (integer cs)

end Lexeme

end LinkBridge.Toml
