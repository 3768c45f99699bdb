import SpecTree.Index
import SpecTree.Text.Cut

/-!
# Expansion

From a definition as written to one that a tree is built from: a key may also be given by
its suffix alone, and everything that the included definitions say is said here too.
-/

namespace SpecTree

namespace Declaration

/-- The start of a key that is filled in when the program runs. -/
def domainPrefix : String := "DOMAIN-"

/-- The name of the parameter that may stand for the key `<x> key`. -/
def suffixName? (d : Declaration) : Option String :=
  ((Text.withoutSuffix? " key" d.name).filter (· ≠ "")).map (· ++ " suffix")

/-- The parameter that may stand for a key. Its default is that of the key without the
domain. -/
def suffixParameter (d : Declaration) (name : String) : Declaration :=
  let default := (d.default.bind Value.asString?).map fun text =>
    Value.string ((Text.withoutPrefix? domainPrefix text).getD text)
  { name
    type := .primitive (.scalar .string)
    default
    isOptional := default.isSome
    doc := d.doc
    origin := d.origin }

/-- The alternative between a key and its suffix, unless the suffix is declared already. -/
def keyOrSuffix? (declared : List String) (d : Declaration) : Option Part :=
  (d.suffixName?.filter (· ∉ declared)).map fun name =>
    .oneOf [[d], [d.suffixParameter name]]

end Declaration

namespace Definition

/-- Each plain parameter `<x> key` becomes an alternative between the key and its suffix. The
alternatives stand at the end, and parts that are left empty are dropped. -/
def withSuffixes (d : Definition) : Definition :=
  let declared := d.declarations.map (·.name)
  let kept := d.parts.map fun
    | .parameters ds => .parameters (ds.filter fun p => (p.keyOrSuffix? declared).isNone)
    | part => part
  let alternatives := d.parts.flatMap fun
    | .parameters ds => ds.filterMap (·.keyOrSuffix? declared)
    | _ => []
  { d with parts := kept.filter (!·.isEmptyGroup) ++ alternatives }

/-- A part of a definition with suffixes is one of the parts, what is kept of plain parameters, or
the alternative between a key and its suffix. -/
theorem cases_of_mem_withSuffixes {d : Definition} {part : Part}
    (h : part ∈ d.withSuffixes.parts) :
    part ∈ d.parts ∨
    (∃ ds kept, .parameters ds ∈ d.parts ∧ part = .parameters kept ∧ kept ≠ [] ∧
      ∀ p ∈ kept, p ∈ ds) ∨
    ∃ ds key name, .parameters ds ∈ d.parts ∧ key ∈ ds ∧
      part = .oneOf [[key], [key.suffixParameter name]] := by
  simp only [withSuffixes, List.mem_append, List.mem_filter, List.mem_map, List.mem_flatMap] at h
  rcases h with ⟨⟨given, hgiven, rfl⟩, hgroup⟩ | ⟨given, hgiven, hpart⟩
  · cases given with
    | parameters ds =>
      have hkept : ∀ kept : List Declaration,
          (!(Part.parameters kept).isEmptyGroup) = true → kept ≠ [] := by
        rintro kept hnot rfl
        cases hnot
      exact .inr (.inl ⟨ds, _, hgiven, rfl, hkept _ hgroup, fun p hp => (List.mem_filter.1 hp).1⟩)
    | oneOf branches => exact .inl hgiven
    | conditional condition yes no => exact .inl hgiven
  · cases given with
    | parameters ds =>
      obtain ⟨key, hkey, hsome⟩ := List.mem_filterMap.1 hpart
      obtain ⟨name, -, rfl⟩ := Option.map_eq_some_iff.1 hsome
      exact .inr (.inr ⟨ds, key, name, hgiven, hkey, rfl⟩)
    | oneOf branches => cases hpart
    | conditional condition yes no => cases hpart

/-- A list with the items of another that it does not have yet. -/
def union (into other : List String) : List String :=
  other.foldl (fun into s => if s ∈ into then into else into ++ [s]) into

/-- A definition that also says what an included one says. -/
def absorb (d included : Definition) : Definition :=
  { d with
    parts := d.parts ++ included.parts
    evaluators := union d.evaluators included.evaluators
    keys := union d.keys included.keys
    dependencies := union d.dependencies included.dependencies }

end Definition

namespace Index

/-- A definition with everything that it includes, directly or not. `path` leads to it; an
include of a spec on the path is skipped, and so is one of an unknown spec. -/
def expand (index : Index) (path : List String) (d : Definition) : Definition :=
  d.includes.foldl
    (fun expanded name =>
      if _hpath : name ∈ path then expanded
      else match _h : index.find? name with
        | some included => expanded.absorb (expand index (path ++ [name]) included)
        | none => expanded)
    d
termination_by remaining index.names path
decreasing_by exact remaining_append_lt (name_of_find? _h).2 _hpath

/-- The index with suffixes for keys. -/
def withSuffixes (index : Index) : Index :=
  ⟨index.definitions.map (·.withSuffixes)⟩

/-- Every definition of the index, with suffixes for keys and with what it includes. -/
def expanded (index : Index) : Index :=
  let keyed := index.withSuffixes
  ⟨keyed.definitions.map fun d => keyed.expand [d.name] d⟩

end Index

end SpecTree
