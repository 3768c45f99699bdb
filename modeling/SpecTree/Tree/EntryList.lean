import SpecTree.Tree.Parameter

/-!
# Lists of entries

Entries of one type under names of the user's choice, in the order in which they were
appended.
-/

namespace SpecTree

/-- Named entries of one type. -/
structure EntryList (ν : Type) where
  element : TypeRef
  entries : List (Parameter ν)
  emptyIsComplete : Bool

namespace EntryList

variable {ν μ α : Type}

/-- A list without entries. -/
def ofElement (element : TypeRef) : EntryList ν := ⟨element, [], false⟩

variable (l : EntryList ν)

/-- The name of the list's type. -/
def typeName : String := l.element.name ++ "-list"

/-- The entry of a name. -/
def parameter? (name : String) : Option (Parameter ν) := Parameter.find? l.entries name

def contains (name : String) : Bool := (l.parameter? name).isSome

def names : List String := l.entries.map (·.name)

/-- The value of an entry. -/
def get? (name : String) : Option Value := (l.parameter? name).bind Parameter.get?

/-- A fresh entry, with a sub-spec that `make` builds if the elements are specs. -/
def newEntry (make : String → Except TreeError ν) (name : String) :
    Except TreeError (Parameter ν) :=
  match l.element with
  | .primitive p => .ok (Parameter.primitive name p)
  | .spec s => (make s).map fun node => Parameter.derived name s node

/-- Append an empty entry; there must be none of the name. -/
def append (make : String → Except TreeError ν) (name : String) : Edit (EntryList ν) Unit :=
  Edit.replace fun l =>
    if l.contains name then .error (.duplicateEntry name)
    else (l.newEntry make name).map fun p => { l with entries := l.entries ++ [p] }

/-- Set the value of an entry. -/
def set (name : String) (value : Value) : Except TreeError (EntryList ν) :=
  match l.parameter? name with
  | some p => (p.set value).map fun p => { l with entries := p.put l.entries }
  | none => .error (.unknownKey name l.typeName)

/-- Edit the sub-spec of an entry. -/
def within (name : String) (act : Edit ν α) : Edit (EntryList ν) α :=
  Edit.zoom
    (fun l => match l.parameter? name with
      | some p => .ok p
      | none => .error (.unknownKey name l.typeName))
    (fun p l => { l with entries := p.put l.entries })
    (Parameter.within act)

section Queries

variable [Judged ν]

/-- Is there nothing more to be filled? -/
def isComplete : Bool :=
  if l.entries.isEmpty then l.emptyIsComplete else l.entries.all Parameter.isComplete

def hasValue : Bool := l.entries.any Parameter.hasValue

def isOptional : Bool := l.entries.all Parameter.isOptional

def complete : List (Parameter ν) := l.entries.filter Parameter.isComplete

def valued : List (Parameter ν) := l.entries.filter Parameter.hasValue

def unfilled : List (Parameter ν) := l.entries.filter (!·.isComplete)

def optional : List (Parameter ν) := l.entries.filter Parameter.isOptional

end Queries

/-- The list with something else in place of sub-specs. -/
def map (f : ν → μ) (l : EntryList ν) : EntryList μ :=
  ⟨l.element, l.entries.map (Parameter.map f), l.emptyIsComplete⟩

end EntryList

end SpecTree
