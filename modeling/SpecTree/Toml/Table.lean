import SpecTree.Toml

/-!
# TOML tables

How the lines of a document fill its tables. A table is defined once: by a header, by the
dotted keys that lead into it, or by a value in braces; and what may be added to it later
depends on which.
-/

namespace SpecTree.Toml

/-- How a table came to be. -/
inductive Standing where
  /-- By its own header. -/
  | defined
  /-- By the header of a table below it. -/
  | implied
  /-- By dotted keys. -/
  | dotted
deriving DecidableEq

/-- What stands under a key while a document is read. -/
inductive Entry where
  | value (v : Toml)
  | table (standing : Standing) (entries : List (String × Entry))
  /-- An array of tables, each of which has a header of its own. -/
  | tables (items : List (List (String × Entry)))

abbrev Entries := List (String × Entry)

namespace Entries

/-- The entry under a key. -/
def find? (key : String) (entries : Entries) : Option Entry :=
  (List.find? (·.1 == key) entries).map (·.2)

/-- Replace the entry under a key, or add it. -/
def put (key : String) (entry : Entry) (entries : Entries) : Entries :=
  if (entries.find? key).isSome then
    entries.map fun (k, e) => (k, if k = key then entry else e)
  else entries ++ [(key, entry)]

/-- Fill the last of several tables. -/
def fillLast (fill : Entries → Option Entries) (items : List Entries) : Option (List Entries) :=
  match items.getLast? with
  | some last => (fill last).map fun filled => items.dropLast ++ [filled]
  | none => none

/-- Give a value to a dotted key. The tables that the key leads through must have come to be
by dotted keys, or be led through to one that has. -/
def assign (value : Toml) : List String → Entries → Option Entries
  | [], _ => none
  | [key], entries =>
    match entries.find? key with
    | none => some (entries.put key (.value value))
    | some _ => none
  | key :: rest, entries =>
    match entries.find? key with
    | none => do
      let inner ← assign value rest []
      return entries.put key (.table .dotted inner)
    | some (.table .dotted inner) => do
      let inner ← assign value rest inner
      return entries.put key (.table .dotted inner)
    | some (.table .implied inner) =>
      if rest.length = 1 then none
      else do
        let inner ← assign value rest inner
        return entries.put key (.table .implied inner)
    | some (.tables items) =>
      if rest.length = 1 then none
      else do
        let items ← fillLast (assign value rest) items
        return entries.put key (.tables items)
    | some _ => none

/-- Open the table that a header names, or with `several` a further table of an array, and
fill it. -/
def openTable (several : Bool) (fill : Entries → Option Entries) :
    List String → Entries → Option Entries
  | [], _ => none
  | [key], entries =>
    match several, entries.find? key with
    | false, none => do return entries.put key (.table .defined (← fill []))
    | false, some (.table .implied inner) => do
      return entries.put key (.table .defined (← fill inner))
    | true, none => do return entries.put key (.tables [← fill []])
    | true, some (.tables items) => do return entries.put key (.tables (items ++ [← fill []]))
    | _, _ => none
  | key :: rest, entries =>
    match entries.find? key with
    | none => do return entries.put key (.table .implied (← openTable several fill rest []))
    | some (.table standing inner) => do
      return entries.put key (.table standing (← openTable several fill rest inner))
    | some (.tables items) => do
      return entries.put key (.tables (← fillLast (openTable several fill rest) items))
    | some (.value _) => none

/-- Give values to dotted keys, one after the other. -/
def assignAll (assignments : List (List String × Toml)) (entries : Entries) : Option Entries :=
  assignments.foldlM (fun entries (path, value) => entries.assign value path) entries

end Entries

mutual

/-- The value that an entry stands for when the document is read. -/
def Entry.finish : Entry → Toml
  | .value v => v
  | .table _ entries => table (Entries.finish entries)
  | .tables items => array (Entries.finishAll items)

/-- The members of a table whose document is read. -/
def Entries.finish : List (String × Entry) → List (String × Toml)
  | [] => []
  | (key, entry) :: rest => (key, entry.finish) :: Entries.finish rest

/-- The tables of an array whose document is read. -/
def Entries.finishAll : List (List (String × Entry)) → List Toml
  | [] => []
  | entries :: rest => table (Entries.finish entries) :: Entries.finishAll rest

end

end SpecTree.Toml
