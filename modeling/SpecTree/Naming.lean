import SpecTree.Primitive
import SpecTree.Text.Cut
import SpecTree.Text.Letter

/-!
# Names of specs

The name of a spec says how it is built: `list` takes any key, `<element>-list` is a list of
elements, `<field>-typed-spec` and its relatives are choices among variants, and every other
name is looked up. The name of a spec that a source file leaves unnamed comes from the file's
name.
-/

namespace SpecTree

/-- Where a choice among variants puts the parameters of the chosen one. -/
inductive Placement where
  /-- Under a parameter `<type> parameters`. -/
  | standard
  /-- Among the parameters of the choice itself. -/
  | inline
  /-- Under `<field>: <type>`; the type is no parameter of its own. -/
  | sublist
  /-- Under `<field>-<type>`, hyphenated; the type is no parameter of its own. -/
  | sublistDash
deriving DecidableEq

namespace Placement

/-- What a name of this placement ends with. -/
def suffix : Placement → String
  | standard => "-typed-spec"
  | inline => "-typedinline-spec"
  | sublist => "-typedsublist-spec"
  | sublistDash => "-typedsublistdash-spec"

def all : List Placement := [standard, inline, sublist, sublistDash]

/-- Is the chosen type a parameter of the spec? -/
def hasTypeParameter : Placement → Bool
  | standard | inline => true
  | sublist | sublistDash => false

end Placement

/-- How the spec of a name is built. -/
inductive SpecForm where
  /-- The free list `list`. -/
  | generic
  /-- `<element>-list`, a list of elements. -/
  | list (element : String)
  /-- A choice among the variants of a field. -/
  | typed (field : String) (placement : Placement)
  /-- A registered definition. -/
  | plain
deriving DecidableEq

namespace Naming

/-- The suffix of the names of lists. -/
def listSuffix : String := "-list"

/-- The name of the list that takes any key. -/
def genericList : String := "list"

/-- The suffix of the names of definitions. -/
def specSuffix : String := "-spec"

/-- Trim, and write a hyphen for every space. -/
def hyphenate (s : String) : String :=
  String.ofList ((Text.trim s.toList).map fun c => if c = ' ' then '-' else c)

/-- The element of a list's name. -/
def listElement? (name : String) : Option String :=
  (Text.withoutSuffix? listSuffix name).filter (· ≠ "")

/-- The field of a choice, if its name has the suffix of the placement. -/
def typedField? (name : String) (placement : Placement) : Option String :=
  ((Text.withoutSuffix? placement.suffix name).filter (· ≠ "")).map fun stem =>
    String.ofList (stem.toList.map fun c => if c = '-' then ' ' else c)

/-- The definition that the variant `type` of a field is registered under. -/
def variantName (field type : String) : String :=
  hyphenate field ++ "-" ++ hyphenate type ++ specSuffix

/-- Drop every hyphen that follows a hyphen. -/
def singleHyphens : List Char → List Char
  | '-' :: '-' :: rest => singleHyphens ('-' :: rest)
  | c :: rest => c :: singleHyphens rest
  | [] => []

/-- The letters of a file's stem in lower case. A capital other than the first character gets
a hyphen before it if a neighbour is lower case. -/
def lowerWords (previous : Option Char) : List Char → List Char
  | [] => []
  | c :: rest =>
    let newWord := Text.isUppercase c &&
      previous.any fun p => Text.isLowercase p || rest.head?.any Text.isLowercase
    (if newWord then ['-'] else []) ++ Text.lowerCase c ++ lowerWords (some c) rest

/-- The name of the spec that a source file describes without naming it. -/
def ofStem (stem : String) : String :=
  let joined := stem.toList.map fun c => if c = '_' ∨ c = ' ' then '-' else c
  String.ofList (singleHyphens (lowerWords none joined ++ specSuffix.toList))

theorem length_of_withoutSuffix? {suffix s rest : String}
    (h : Text.withoutSuffix? suffix s = some rest) :
    rest.length + suffix.length = s.length := by
  simp only [Text.withoutSuffix?, Text.beforeSuffix?, Option.map_map, Option.map_eq_some_iff] at h
  obtain ⟨r, hr, rfl⟩ := h
  have hlen := congrArg List.length (Text.eq_of_afterPrefix? hr)
  simp only [List.length_reverse, List.length_append, String.length_toList] at hlen
  simp only [Function.comp, String.length_ofList, List.length_reverse]
  omega

/-- The element's name is shorter than the list's. -/
theorem length_of_listElement? {name element : String} (h : listElement? name = some element) :
    element.length < name.length := by
  simp only [listElement?, Option.filter_eq_some_iff] at h
  have hlen := length_of_withoutSuffix? h.1
  have : listSuffix.length = 5 := by decide
  omega

end Naming

namespace SpecForm

open Naming

/-- The form that a name asks for. -/
def ofName (name : String) : SpecForm :=
  if name = genericList then generic
  else match listElement? name with
    | some element => list element
    | none =>
      match Placement.all.findSome? fun p => (typedField? name p).map (·, p) with
      | some (field, placement) => typed field placement
      | none => plain

theorem length_of_ofName_list {name element : String} (h : ofName name = list element) :
    element.length < name.length := by
  unfold ofName at h
  split at h
  · contradiction
  · split at h
    · next found => exact length_of_listElement? (list.inj h ▸ found)
    · split at h <;> contradiction

end SpecForm

namespace Naming

/-- Can a spec of this name be built, given which plain names are registered? The free list
and choices always can; a list can if its elements can. -/
def resolvable (registered : String → Bool) (name : String) : Bool :=
  match _h : SpecForm.ofName name with
  | .generic | .typed .. => true
  | .list element => (Primitive.ofName? element).isSome || resolvable registered element
  | .plain => registered name
termination_by name.length
decreasing_by exact SpecForm.length_of_ofName_list _h

end Naming

end SpecTree
