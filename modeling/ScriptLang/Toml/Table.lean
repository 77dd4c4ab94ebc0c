import ScriptLang.Bindings

/-!
# TOML tables

A document is a tree of tables. A table may be opened by one header only, and
dotted keys reach only tables that dotted keys made, so each entry has one place
in the text that defines it.
-/

namespace ScriptLang

namespace Toml

inductive Value where
  | integer (n : Int)
  | text (s : String)
  /-- A value of another kind: a float, a truth value, a time, an array or an inline
  table. -/
  | other
deriving DecidableEq, Repr

/-- What made a table. -/
inductive Origin where
  | header
  /-- A longer header that passes through it. -/
  | implied
  | dotted
deriving DecidableEq, Repr

inductive Item where
  | value (v : Value)
  | table (origin : Origin) (entries : List (String × Item))
  /-- An array of tables, of which only the last can still grow. -/
  | tables (last : List (String × Item))

abbrev Entries := Bindings Item

namespace Entries

/-- Changes the table that a path leads to. Tables that are missing on the way are
made. Dotted keys do not pass through tables with a header. -/
def within (dotted : Bool) (change : Origin → Entries → Option Entries) :
    List String → Origin → Entries → Option Entries
  | [], origin, entries => change origin entries
  | key :: path, _, entries =>
    match entries.get? key with
    | none =>
      let origin := if dotted then .dotted else .implied
      (within dotted change path origin []).map fun inner => entries.set key (.table origin inner)
    | some (.table origin inner) =>
      if dotted && origin == .header then none
      else
        (within dotted change path origin inner).map fun inner =>
          entries.set key (.table origin inner)
    | some (.tables last) =>
      (within dotted change path .header last).map fun last => entries.set key (.tables last)
    | some (.value _) => none

/-- Adds an entry under a dotted key; `none` if the key is taken or leads to a table
that is not made of dotted keys. -/
def insert? (entries : Entries) (path : List String) (key : String) (v : Value) :
    Option Entries :=
  let add (origin : Origin) (entries : Entries) : Option Entries :=
    if (origin == .dotted) == path.isEmpty || entries.contains key then none
    else some (entries.set key (.value v))
  within true add path .header entries

/-- Opens a table by its header. -/
def openTable? (entries : Entries) (path : List String) (key : String) : Option Entries :=
  let add (_ : Origin) (entries : Entries) : Option Entries :=
    match entries.get? key with
    | none => some (entries.set key (.table .header []))
    | some (.table .implied inner) => some (entries.set key (.table .header inner))
    | _ => none
  within false add path .header entries

/-- Adds a table to an array of tables. -/
def appendTable? (entries : Entries) (path : List String) (key : String) : Option Entries :=
  let add (_ : Origin) (entries : Entries) : Option Entries :=
    match entries.get? key with
    | none => some (entries.set key (.tables []))
    | some (.tables _) => some (entries.set key (.tables []))
    | _ => none
  within false add path .header entries

end Entries

end Toml

end ScriptLang
