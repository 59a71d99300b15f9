-- SUMMARY: The table that the statements of a TOML document make, where nothing is defined twice.
import DocLint.Toml.Statement

/-! # Documents

Statements are carried out in order. A header names the table that the entries after
it go to. On the way to a table, names lead through tables and through the last table
of a header in double brackets, and tables that are missing are made. A table is
headed once: a header may only name a table that other headers have implied, which
then counts as new and moves to the end. A dotted key may not reach into a table that
has a header or braces of its own.
-/

namespace DocLint.Toml

abbrev Entries := List (String × Value)

namespace Entries

/-- Replaces the value of a name, or adds it at the end. -/
def set (entries : Entries) (name : String) (value : Value) : Entries :=
  if (entries.lookup name).isSome then
    entries.map fun (n, v) => (n, if n = name then value else v)
  else entries ++ [(name, value)]

/-- Changes the table that a path leads to, given how it came about and its entries.
    Tables that are missing are made, with the given origin. A path of a dotted key
    does not enter tables that have a header or braces of their own. -/
def changeAt (made : Origin) (change : Origin → Entries → Option Entries) :
    Key → Origin → Entries → Option Entries
  | [], origin, entries => change origin entries
  | name :: path, _, entries =>
    match entries.lookup name with
    | none =>
      (changeAt made change path made []).map fun inner =>
        entries.set name (.table made inner)
    | some (.table origin inner) =>
      if origin = .inline ∨ (made = .dotted ∧ !origin.isImplicit) then none
      else
        (changeAt made change path origin inner).map fun inner =>
          entries.set name (.table origin inner)
    | some (.tables elements) =>
      match elements.getLast? with
      | some (.table origin inner) =>
        (changeAt made change path origin inner).map fun inner =>
          entries.set name (.tables (elements.dropLast ++ [.table origin inner]))
      | _ => none
    | some _ => none

/-- Adds an entry under a key. The table that a dotted key ends in was made by one. -/
def add (key : Key) (value : Value) (entries : Entries) : Option Entries :=
  let path := key.dropLast
  changeAt .dotted
    (fun origin entries =>
      let name := key.getLastD ""
      if !path.isEmpty && origin ≠ .dotted then none
      else if (entries.lookup name).isSome then none
      else some (entries.set name value))
    path .explicit entries

/-- Takes out the table that a header is to name: its entries if it was only implied, no
    entries if it is missing. -/
def takeHeaded? (name : String) (entries : Entries) : Option (Entries × Entries) :=
  match entries.lookup name with
  | none => some ([], entries)
  | some (.table .implied inner) => some (inner, entries.filter (·.1 ≠ name))
  | some _ => none

/-- Adds an element to the tables of a header in double brackets. -/
def pushTable (name : String) (entries : Entries) : Option Entries :=
  match entries.lookup name with
  | none => some (entries.set name (.tables [.table .explicit []]))
  | some (.tables elements) => some (entries.set name (.tables (elements ++ [.table .explicit []])))
  | some _ => none

end Entries

/-- Carries out a statement on the document, where `current` is the path of the table
    that entries go to. -/
def Statement.run : Statement → Key × Entries → Option (Key × Entries)
  | .entry key value, (current, doc) => do
    let doc ← Entries.changeAt .implied (fun _ entries => Entries.add key value entries) current
      .explicit doc
    return (current, doc)
  | .header key, (_, doc) => do
    let name := key.getLastD ""
    let doc ← Entries.changeAt .implied
      (fun _ entries => do
        let (inner, rest) ← Entries.takeHeaded? name entries
        return rest.set name (.table .explicit inner))
      key.dropLast .explicit doc
    return (key, doc)
  | .tablesHeader key, (_, doc) => do
    let doc ← Entries.changeAt .implied
      (fun _ entries => Entries.pushTable (key.getLastD "") entries) key.dropLast .explicit doc
    return (key, doc)

/-- The table that statements make. -/
def run? (statements : List Statement) : Option Entries := do
  let (_, doc) ← statements.foldlM (fun state s => s.run state) ([], [])
  return doc

/-- The table that a document holds, if the text is a document. -/
def parse? (text : List Char) : Option Entries :=
  (statements? text).bind run?

end DocLint.Toml
