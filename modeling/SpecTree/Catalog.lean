import SpecTree.Expansion
import SpecTree.Naming

/-!
# Catalogs

What trees are built from: the expanded definitions, and the variants of every choice. A
variant of the field `f` is a registered spec `<f>-<type>-spec`.
-/

namespace SpecTree

/-- The types of a field and the specs that they stand for, in ascending order of types. -/
abbrev Variants := List (String × String)

namespace Variants

/-- Put a type in its place; the same type is replaced. -/
def insert (type spec : String) : Variants → Variants
  | [] => [(type, spec)]
  | (t, s) :: rest =>
    if type < t then (type, spec) :: (t, s) :: rest
    else if type = t then (type, spec) :: rest
    else (t, s) :: Variants.insert type spec rest

/-- The spec that a type stands for. -/
def find? (variants : Variants) (type : String) : Option String :=
  (List.find? (·.1 = type) variants).map (·.2)

/-- The types, in ascending order. -/
def types (variants : Variants) : List String := variants.map (·.1)

/-- The type that a registered name is a variant for, if it is one of the choice `typed`. -/
def typeOf? (typed field name : String) : Option String :=
  if name = typed ∨ SpecForm.ofName name ≠ .plain then none
  else do
    let rest ← Text.withoutPrefix? (Naming.hyphenate field ++ "-") name
    let type ← Text.withoutSuffix? Naming.specSuffix rest
    if type ≠ "" ∧ Naming.variantName field type = name then some type else none

/-- The variants among registered names. -/
def among (typed field : String) (names : List String) : Variants :=
  names.foldl (fun found name =>
    match typeOf? typed field name with
    | some type => Variants.insert type name found
    | none => found) []

end Variants

/-- Expanded definitions, and the variants of the choices that they mention. -/
structure Catalog where
  index : Index
  variants : List (String × Variants)
deriving DecidableEq

namespace Catalog

def empty : Catalog := ⟨.empty, []⟩

/-- The definition that is registered under a name. -/
def find? (catalog : Catalog) (name : String) : Option Definition :=
  catalog.index.find? name

def contains (catalog : Catalog) (name : String) : Bool :=
  catalog.index.contains name

/-- The registered names, in ascending order. -/
def names (catalog : Catalog) : List String :=
  catalog.index.names.mergeSort (· ≤ ·)

/-- Can a spec of this name be built? -/
def resolvable (catalog : Catalog) (name : String) : Bool :=
  Naming.resolvable catalog.contains name

/-- The variants of a choice: those found when the catalog was made, or else those among its
names. -/
def validTypes (catalog : Catalog) (typed field : String) : Variants :=
  match catalog.variants.find? (·.1 = typed) with
  | some (_, found) => found
  | none => Variants.among typed field catalog.index.names

end Catalog

namespace Naming

/-- The innermost element of a list of lists, or the name itself. -/
def innermost (name : String) : String :=
  match _h : Text.withoutSuffix? listSuffix name with
  | some element => innermost element
  | none => name
termination_by name.length
decreasing_by
  have := length_of_withoutSuffix? _h
  have : listSuffix.length = 5 := by decide
  omega

end Naming

namespace Index

/-- The choices that are registered or referred to, each once. -/
def typedNames (index : Index) : List (String × String) :=
  let mentioned := index.definitions.flatMap fun d => d.name :: d.references.map (·.1)
  (mentioned.map Naming.innermost).foldl (fun found name =>
    match SpecForm.ofName name with
    | .typed field _ => if found.any (·.1 = name) then found else found ++ [(name, field)]
    | _ => found) []

/-- The catalog of an index. -/
def catalog (index : Index) : Catalog :=
  { index := index.expanded
    variants := index.typedNames.map fun (typed, field) =>
      (typed, Variants.among typed field index.names) }

end Index

end SpecTree
