import LinkBridge.Toml.Lexeme
import LinkBridge.Toml.Table

/-!
# LinkBridge.Toml.Document

TOML documents: values with arrays and inline tables, then the lines of a document, then the tables
these lines make up. Arrays and inline tables nest at most `maxDepth` deep, and a key has at most
as many parts.
-/

namespace LinkBridge.Toml

open Lexeme

/-- How deep values nest, and how many parts a key has. -/
def maxDepth : Nat := 127

/-- Reads a key and the equals sign behind it. -/
def pairKey : Reader (List String) := fun cs => do
  let (path, rest) ← keyPath (maxDepth - 1) cs
  return (path, ← char? '=' rest)

/-! ## Values -/

mutual

/-- Reads a value; `depth` more levels of nesting are allowed. -/
def value (fuel depth : Nat) (cs : List Char) : Option (Value × List Char) :=
  match fuel, depth, cs with
  | fuel + 1, depth + 1, '[' :: rest =>
    (arrayItems fuel depth rest).map fun (items, rest) => (.array items, rest)
  | fuel + 1, depth + 1, '{' :: rest =>
    (inlinePairs fuel depth true [] rest).map fun (entries, rest) =>
      (.table .inline entries, rest)
  | _, _, cs => scalar cs

/-- Reads the items of an array up to its closing bracket. -/
def arrayItems (fuel depth : Nat) (cs : List Char) : Option (List Value × List Char) :=
  match fuel with
  | 0 => none
  | fuel + 1 =>
    match skipLines cs with
    | ']' :: rest => some ([], rest)
    | cs =>
      (value fuel depth cs).bind fun (v, rest) =>
        match skipLines rest with
        | ',' :: rest => (arrayItems fuel depth rest).map fun (vs, rest) => (v :: vs, rest)
        | ']' :: rest => some ([v], rest)
        | _ => none

/-- Reads the pairs of an inline table up to its closing brace; `first` says that none was read,
`entries` are those that were. -/
def inlinePairs (fuel depth : Nat) (first : Bool) (entries : Entries) (cs : List Char) :
    Option (Entries × List Char) :=
  match fuel, first, skipBlanks cs with
  | 0, _, _ => none
  | _, true, '}' :: rest => some (entries, rest)
  | fuel + 1, _, cs =>
    (pairKey cs).bind fun (path, rest) =>
      (value fuel depth (skipBlanks rest)).bind fun (v, rest) =>
        (entries.insertInline v path).bind fun entries =>
          match skipBlanks rest with
          | ',' :: rest => inlinePairs fuel depth false entries rest
          | '}' :: rest => some (entries, rest)
          | _ => none

end

/-! ## Lines -/

/-- A line of a document that says something. -/
inductive Statement where
  | heading (h : Heading)
  | pair (path : List String) (v : Value)
  deriving Inhabited

/-- The heading with a path. -/
def headingOf (make : List String → String → Heading) (path : List String) : Statement :=
  .heading (make path.dropLast (path.getLastD ""))

/-- Reads a heading or a pair, without what follows it on the line. -/
def statement : Reader Statement
  | '[' :: '[' :: rest => do
    let (path, rest) ← keyPath (maxDepth - 1) rest
    return (headingOf .arrayItem path, ← char? ']' (← char? ']' rest))
  | '[' :: rest => do
    let (path, rest) ← keyPath (maxDepth - 1) rest
    return (headingOf .table path, ← char? ']' rest)
  | cs => do
    let (path, rest) ← pairKey cs
    let body := skipBlanks rest
    let (v, rest) ← value (2 * body.length + 3) maxDepth body
    return (.pair path v, rest)

/-- Reads all lines of a document. -/
def statements (fuel : Nat) (cs : List Char) : Option (List Statement) :=
  match fuel, skipLines cs with
  | _, [] => some []
  | 0, _ => none
  | fuel + 1, cs => do
    let (s, rest) ← statement cs
    let rest ← lineEnd? rest
    return s :: (← statements fuel rest)

/-- Groups lines into sections; those before the first heading belong to `current`. -/
def sections (current : Section) : List Statement → List Section
  | [] => [current]
  | .heading heading :: rest => current :: sections { heading } rest
  | .pair path v :: rest => sections { current with pairs := current.pairs ++ [(path, v)] } rest

/-- The top-level entries of a document; a byte order mark in front of it does not count. -/
def parse (text : String) : Option Entries :=
  let cs := match text.toList with
    | '\ufeff' :: rest => rest
    | cs => cs
  (statements cs.length cs).bind fun lines => assemble (sections { heading := .root } lines)

end LinkBridge.Toml
