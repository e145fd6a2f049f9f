/-!
# Tables

What a TOML document holds. A table may be defined by a header, by dotted keys or in
place, and a header of a table below it implies it. A table is defined once only: a
header may define one that was implied, dotted keys may add to one that dotted keys
made, and a table written in place cannot be added to.
-/

namespace Dialogue.Settings.Toml

/-- How a table came about. -/
inductive Origin where
  /-- It is written in place. -/
  | inline
  /-- It has a header. -/
  | header
  /-- A table below it has a header. -/
  | implied
  /-- It is part of a dotted key. -/
  | dotted
  deriving DecidableEq

/-- What stands under a key. -/
inductive Item where
  /-- A text. -/
  | text (s : String)
  /-- An integer. -/
  | integer (n : Int)
  /-- A number with a fraction or an exponent. -/
  | float (x : Float)
  /-- A truth value. -/
  | boolean (b : Bool)
  /-- A date, a time of day, or both, as it is written. -/
  | moment (written : String)
  /-- A list. -/
  | array (items : List Item)
  /-- A table. -/
  | table (origin : Origin) (entries : List (String × Item))
  /-- Tables that share a header, the last one first. -/
  | tables (all : List (List (String × Item)))
  deriving Inhabited

/-- The items of a table by their keys, in the order of the document. -/
abbrev Table := List (String × Item)

namespace Table

/-- The item under a key. -/
def get? (key : String) : Table → Option Item
  | [] => none
  | (k, item) :: rest => if k = key then some item else get? key rest

/-- Puts an item under a key, in place of what is there. -/
def put (key : String) (item : Item) : Table → Table
  | [] => [(key, item)]
  | (k, old) :: rest => if k = key then (key, item) :: rest else (k, old) :: put key item rest

/-- Changes the table at a path. Tables on the way that are not there come about, as parts
    of a dotted key or implied. Refuses what may not be added to. -/
def change (dotted : Bool) (f : Origin → Table → Option Table) :
    (path : List String) → Origin → Table → Option Table
  | [], origin, t => f origin t
  | key :: path, _, t =>
    match t.get? key with
    | none => do
      let origin := if dotted then .dotted else .implied
      let inner ← change dotted f path origin []
      return t.put key (.table origin inner)
    | some (.table origin inner) =>
      -- A table in place is complete, and so is one with a header for dotted keys.
      if origin = .inline || (dotted && origin = .header) then none
      else do
        let inner ← change dotted f path origin inner
        return t.put key (.table origin inner)
    | some (.tables (last :: others)) => do
      let last ← change dotted f path .header last
      return t.put key (.tables (last :: others))
    | some _ => none

/-- Adds an item under a dotted key. -/
def addPair (path : List String) (item : Item) (origin : Origin) (t : Table) : Option Table :=
  match path.getLast? with
  | none => none
  | some key =>
    let above := path.dropLast
    let add (origin : Origin) (t : Table) : Option Table :=
      if (above.isEmpty || origin = .dotted) && (t.get? key).isNone then some (t.put key item)
      else none
    change true add above origin t

/-- Defines a table by a header. -/
def addHeader (path : List String) (t : Table) : Option Table :=
  match path.getLast? with
  | none => none
  | some key =>
    change false (fun _ t =>
      match t.get? key with
      | none => some (t.put key (.table .header []))
      | some (.table .implied inner) => some (t.put key (.table .header inner))
      | some _ => none) path.dropLast .header t

/-- Adds one more of the tables that share a header. -/
def addTables (path : List String) (t : Table) : Option Table :=
  match path.getLast? with
  | none => none
  | some key =>
    change false (fun _ t =>
      match t.get? key with
      | none => some (t.put key (.tables [[]]))
      | some (.tables all) => some (t.put key (.tables ([] :: all)))
      | some _ => none) path.dropLast .header t

end Table

/-- A line of a document that says something. -/
inductive Line where
  /-- A key and what stands under it. -/
  | pair (path : List String) (item : Item)
  /-- The header of a table. -/
  | header (path : List String)
  /-- The header of one of several tables. -/
  | tables (path : List String)

/-- Adds lines to a table, those without a path of their own below `under`. -/
def Table.addLines : (under : List String) → List Line → Table → Option Table
  | _, [], t => some t
  | under, .pair path item :: lines, t => do
    addLines under lines (← change false (addPair path item) under .header t)
  | _, .header path :: lines, t => do addLines path lines (← t.addHeader path)
  | _, .tables path :: lines, t => do addLines path lines (← t.addTables path)

end Dialogue.Settings.Toml
