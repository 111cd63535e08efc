import LinkBridge.Toml.Value

/-!
# LinkBridge.Toml.Table

How tables grow. A key is set once. A heading opens a table that no heading has opened yet, and a
dotted key reaches into tables that only dotted keys have made. Where a path leads through an array
of tables it means the last of them. Between braces a dotted key reaches into every table, and once
the outermost brace is closed nothing reaches in any more.
-/

namespace LinkBridge.Toml

namespace Entries

/-- Adds a value under a dotted key. `own` says whether a plain key may be added at this place: it
may in the table being filled and in those that dotted keys made. -/
def insert (own : Bool) (v : Value) : List String → Entries → Option Entries
  | [], _ => none
  | [key], entries =>
    if own && (entries.get? key).isNone then some (entries.set key v) else none
  | key :: rest, entries =>
    match entries.get? key with
    | none => (insert true v rest []).map fun es => entries.set key (.table .dotted es)
    | some (.table .dotted es) =>
      (insert true v rest es).map fun es => entries.set key (.table .dotted es)
    | some (.table .implied es) =>
      (insert false v rest es).map fun es => entries.set key (.table .implied es)
    | some (.tables items) =>
      (insert false v rest (items.getLastD [])).map fun es =>
        entries.set key (.tables (items.dropLast ++ [es]))
    | some _ => none

/-- Adds a value under a dotted key between braces, where every table stays open. -/
def insertInline (v : Value) : List String → Entries → Option Entries
  | [], _ => none
  | [key], entries => if (entries.get? key).isNone then some (entries.set key v) else none
  | key :: rest, entries =>
    match entries.get? key with
    | none => (insertInline v rest []).map fun es => entries.set key (.table .inline es)
    | some (.table .inline es) =>
      (insertInline v rest es).map fun es => entries.set key (.table .inline es)
    | some _ => none

/-- Changes the table at the end of a heading's path; tables on the way are made if missing. -/
def descend (f : Entries → Option Entries) : List String → Entries → Option Entries
  | [], entries => f entries
  | key :: rest, entries =>
    match entries.get? key with
    | none => (descend f rest []).map fun es => entries.set key (.table .implied es)
    | some (.table .inline _) => none
    | some (.table origin es) =>
      (descend f rest es).map fun es => entries.set key (.table origin es)
    | some (.tables items) =>
      (descend f rest (items.getLastD [])).map fun es =>
        entries.set key (.tables (items.dropLast ++ [es]))
    | some _ => none

end Entries

/-! ## Sections -/

/-- What a section of a document fills. -/
inductive Heading where
  /-- The document itself. -/
  | root
  /-- The table `parents.key`. -/
  | table (parents : List String) (key : String)
  /-- A further table of the array `parents.key`. -/
  | arrayItem (parents : List String) (key : String)
  deriving DecidableEq, Inhabited

/-- A heading with the keys set below it. -/
structure Section where
  heading : Heading
  pairs : List (List String × Value) := []
  deriving Inhabited

namespace Section

/-- Sets the keys of a section in a table. -/
def fill (s : Section) (entries : Entries) : Option Entries :=
  s.pairs.foldlM (fun es (path, v) => es.insert true v path) entries

/-- Adds a section to a document. -/
def addTo (s : Section) (root : Entries) : Option Entries :=
  match s.heading with
  | .root => s.fill root
  | .table parents key =>
    Entries.descend (fun parent =>
      match parent.get? key with
      | none => (s.fill []).map fun es => parent.set key (.table .heading es)
      | some (.table .implied es) => (s.fill es).map fun es => parent.set key (.table .heading es)
      | some _ => none) parents root
  | .arrayItem parents key =>
    Entries.descend (fun parent =>
      match parent.get? key with
      | none => (s.fill []).map fun es => parent.set key (.tables [es])
      | some (.tables items) =>
        (s.fill []).map fun es => parent.set key (.tables (items ++ [es]))
      | some _ => none) parents root

end Section

/-- The document that sections make up. -/
def assemble (sections : List Section) : Option Entries :=
  sections.foldlM (fun root s => s.addTo root) []

end LinkBridge.Toml
