import SpecTree.Tree.Collection

/-!
# Conditionals

A case parameter whose value chooses one of several groups of parameters. A parameter of a
group can be written only while the group is chosen; what it holds is kept while it is not.
-/

namespace SpecTree

/-- Groups of parameters, each for one value of the case parameter. -/
structure Conditional (ν : Type) where
  case : Parameter ν
  branches : List (Value × Collection ν)

namespace Conditional

variable {ν μ α : Type}

/-- The groups with their values as values of the case parameter, which is a truth value or a
string. -/
def ofBranches (case : Parameter ν) (branches : List (Value × Collection ν)) :
    Except TreeError (Conditional ν) :=
  if case.type = .primitive (.scalar .bool) ∨ case.type = .primitive (.scalar .string) then do
    let checked ← branches.mapM fun (value, group) => do return (← case.check value, group)
    return ⟨case, checked⟩
  else .error (.notPrimitive case.name)

/-- A group for true and a group for false. Either may be empty, and is then complete. -/
def ifThenElse (condition : Parameter ν) (whenTrue whenFalse : Collection ν) :
    Except TreeError (Conditional ν) :=
  ofBranches condition
    [(.bool true, { whenTrue with emptyIsComplete := true }),
      (.bool false, { whenFalse with emptyIsComplete := true })]

variable (s : Conditional ν)

/-- The place of the group for the value of the case parameter, or else for its default. -/
def selectedIndex? : Option Nat :=
  s.case.get?.bind fun current => s.branches.findIdx? (·.1 == current)

/-- The chosen group. -/
def selected? : Option (Collection ν) :=
  s.selectedIndex?.bind fun i => s.branches[i]?.map (·.2)

def contains (key : String) : Bool :=
  key = s.case.name || s.branches.any (·.2.contains key)

/-- Why a key is in no chosen group. -/
def caseError (key : String) : TreeError :=
  match s.case.get? with
  | none => .caseNotSet key s.case.name
  | some v => .branchMismatch key s.case.name v.toText

/-- Where a key is written: in the group of the given place, or `none` for the case
parameter. A value must be accepted there, and one for the case must choose a group. -/
def plan (key : String) (value : Option Value) : Except TreeError (Option Nat) :=
  if key = s.case.name then
    match value with
    | none => .ok none
    | some v => do
      let v ← s.case.check v
      if s.branches.any (·.1 == v) then return none
      else .error (.invalidCase key v.toText)
  else
    match s.selectedIndex?, s.selected? with
    | some i, some group =>
      if group.contains key then
        match value with
        | none => .ok (some i)
        | some v => (group.checkSet key v).map fun _ => some i
      else .error (s.caseError key)
    | _, _ => .error (s.caseError key)

/-- Put a group in its place. -/
def setGroup (i : Nat) (group : Collection ν) : Conditional ν :=
  { s with branches := s.branches.modify i fun (value, _) => (value, group) }

/-- Set the case parameter, or a parameter of the chosen group. -/
def set (key : String) (value : Value) : Except TreeError (Conditional ν) := do
  match ← s.plan key (some value) with
  | none => return { s with case := ← s.case.set value }
  | some i =>
    match s.branches[i]? with
    | some (_, group) => return s.setGroup i (← group.set key value)
    | none => return s

/-- The case parameter, or a parameter of the chosen group. -/
def parameter? (key : String) : Option (Parameter ν) :=
  if key = s.case.name then some s.case else s.selected?.bind (·.parameter? key)

/-- The value of a parameter, or else its default. -/
def get? (key : String) : Option Value := (s.parameter? key).bind Parameter.get?

/-- Is the case parameter without a value and a default? -/
def isOpen : Bool := s.case.get?.isNone

/-- The case parameter and those of all groups, the first of each name. -/
def parameters : List (Parameter ν) :=
  Parameter.distinct (s.case :: s.branches.flatMap (·.2.parameters))

/-- The group that holds the sub-spec under a key, with its place. -/
def place (key : String) : Except TreeError (Nat × Collection ν) := do
  match ← s.plan key none with
  | none => .error (.notDerived key)
  | some i =>
    match s.branches[i]? with
    | some (_, group) => .ok (i, group)
    | none => .error (.notDerived key)

/-- Edit the sub-spec under a key of the chosen group. -/
def within (key : String) (act : Edit ν α) : Edit (Conditional ν) α :=
  Edit.zoom (·.place key) (fun (i, group) s => s.setGroup i group)
    (Edit.zoom (fun (_, group) => .ok group) (fun group (i, _) => (i, group))
      (Collection.within key act))

section Queries

variable [Judged ν]

def isComplete : Bool := s.case.isComplete && s.selected?.any Collection.isComplete

def hasValue : Bool :=
  s.case.hasValue || (s.case.isComplete && s.selected?.any Collection.hasValue)

def isOptional : Bool := s.case.isOptional && s.selected?.any Collection.isOptional

/-- The case parameter, if it is wanted, and parameters of the chosen group. -/
def withCase (wanted : Bool) (ofGroup : Collection ν → List (Parameter ν)) :
    List (Parameter ν) :=
  (if wanted then [s.case] else []) ++ (s.selected?.map ofGroup).getD []

def complete : List (Parameter ν) := s.withCase s.case.isComplete Collection.complete

def valued : List (Parameter ν) := s.withCase s.case.hasValue Collection.valued

def unfilled : List (Parameter ν) := s.withCase (!s.case.isComplete) Collection.unfilled

def optional : List (Parameter ν) := s.withCase s.case.isOptional Collection.optional

end Queries

/-- The conditional with something else in place of sub-specs. -/
def map (f : ν → μ) (s : Conditional ν) : Conditional μ :=
  ⟨s.case.map f, s.branches.map fun (value, group) => (value, group.map f)⟩

end Conditional

end SpecTree
