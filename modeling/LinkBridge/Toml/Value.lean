/-!
# LinkBridge.Toml.Value

The values of a TOML document. A table remembers how it came to be, because that decides what may
still be added to it.
-/

namespace LinkBridge.Toml

/-- How a table came to be. -/
inductive Origin where
  /-- Under a heading of its own. -/
  | heading
  /-- As part of the path in another table's heading. -/
  | implied
  /-- As part of a dotted key. -/
  | dotted
  /-- Between braces. -/
  | inline
  deriving DecidableEq, Inhabited

/-- A TOML value. Floats and dates are kept as they were written. -/
inductive Value where
  | string (s : String)
  | integer (n : Int)
  | float (text : String)
  | boolean (b : Bool)
  | datetime (text : String)
  | array (items : List Value)
  | table (origin : Origin) (entries : List (String × Value))
  /-- An array of tables, one for every heading between double brackets. -/
  | tables (items : List (List (String × Value)))
  deriving Inhabited

/-- The entries of a table in the order in which they were added. -/
abbrev Entries := List (String × Value)

namespace Entries

/-- The value of a key. -/
def get? (entries : Entries) (key : String) : Option Value :=
  List.lookup key entries

/-- Sets the value of a key, in place or at the end. -/
def set (entries : Entries) (key : String) (v : Value) : Entries :=
  match entries with
  | [] => [(key, v)]
  | (k, w) :: rest => if k = key then (key, v) :: rest else (k, w) :: set rest key v

end Entries

end LinkBridge.Toml
