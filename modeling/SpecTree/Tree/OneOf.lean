import SpecTree.Tree.Collection

/-!
# Alternatives

Groups of parameters of which one is to be filled. Every write leaves open only the branches
that declare the key, and a write that would leave none fails.

A sub-spec that is handed out lives in one branch, its owner. In every other open branch that
declares the key with the same type it is shown in place of that branch's own, and as soon as
it holds a value those branches are the open ones. With the next write it is copied to them.
-/

namespace SpecTree

/-- Alternative groups of parameters. -/
structure OneOf (ν : Type) where
  branches : List (Collection ν)
  /-- The branches left open by the writes so far, if there were any. -/
  active : Option (List Nat)
  /-- The sub-spec that was handed out last: its key, and the branch it lives in. -/
  live : Option (String × Nat)

namespace OneOf

variable {ν μ α : Type}

/-- Alternatives, of which there are two at least, and none empty. -/
def ofBranches (branches : List (Collection ν)) : Except TreeError (OneOf ν) :=
  if branches.length < 2 ∨ branches.any Collection.isEmpty then .error .malformedOneOf
  else .ok ⟨branches, none, none⟩

variable (o : OneOf ν)

/-- The indices of all branches. -/
def indices : List Nat := List.range o.branches.length

/-- The parameter that a branch declares under a key. -/
def declared? (i : Nat) (key : String) : Option (Parameter ν) :=
  o.branches[i]?.bind (·.parameter? key)

/-- The parameter that the handed-out sub-spec lives in, with its owner. -/
def liveParameter? : Option (Nat × Parameter ν) :=
  o.live.bind fun (key, owner) => (o.declared? owner key).map (owner, ·)

/-- The branches that the writes so far have left open. -/
def committed : List Nat := o.active.getD o.indices

/-- The committed branches that declare a key with the type it has in the owner. -/
def sharing (key : String) (owner : Nat) : List Nat :=
  let type := (o.declared? owner key).map (·.type)
  o.committed.filter fun i => (o.declared? i key).map (·.type) = type

section Queries

variable [Judged ν]

/-- The branches that are still open, once something has been written. -/
def openBranches? : Option (List Nat) :=
  match o.liveParameter? with
  | some (owner, p) => if p.hasValue then some (o.sharing p.name owner) else o.active
  | none => o.active

/-- The only branch that is still open. -/
def selected? : Option Nat :=
  match o.openBranches? with
  | some [i] => some i
  | _ => none

/-- Is the choice between branches still to be made? -/
def isOpen : Bool :=
  match o.openBranches? with
  | some is => 1 < is.length
  | none => true

/-- The branches that are still open. -/
def visible : List Nat := o.openBranches?.getD o.indices

end Queries

/-- The parameters of a branch, with the handed-out sub-spec in place of its copies. -/
def branchParameters (i : Nat) : List (Parameter ν) :=
  let own := (o.branches[i]?.map (·.parameters)).getD []
  match o.liveParameter? with
  | some (owner, l) =>
    if owner = i then own
    else own.map fun p => if l.name = p.name ∧ l.type = p.type then l else p
  | none => own

/-- Is the key declared in some branch? -/
def contains (key : String) : Bool := o.branches.any (·.contains key)

/-- Every declared parameter, the first of each name. -/
def parameters : List (Parameter ν) :=
  Parameter.distinct (o.branches.flatMap (·.parameters))

/-- Change a branch. -/
def modifyBranch (i : Nat) (f : Collection ν → Collection ν) : OneOf ν :=
  { o with branches := o.branches.modify i f }

section Queries

variable [Judged ν]

/-- The parameters of each open branch. -/
def visibleParameters : List (List (Parameter ν)) :=
  o.visible.map o.branchParameters

/-- Copy the handed-out sub-spec to the branches that share it and let them be the open ones.
If it holds no value, nothing is copied and no branch chosen. -/
def settle : OneOf ν :=
  match o.liveParameter? with
  | some (owner, p) =>
    if p.hasValue then
      let next := o.sharing p.name owner
      let copied := next.foldl
        (fun o i => if i = owner then o else o.modifyBranch i (·.insert p)) o
      { copied with active := some next, live := none }
    else { o with live := none }
  | none => { o with live := none }

/-- The branches that a write to a key would leave open. Each must take the value. -/
def plan (key : String) (value : Option Value) : Except TreeError (List Nat) := do
  let next := o.visible.filter fun i => (o.declared? i key).isSome
  if next = [] then .error (.prunedBranch key)
  match value with
  | none => pure ()
  | some v =>
    for i in next do
      match o.branches[i]? with
      | some branch => branch.checkSet key v
      | none => pure ()
  return next

/-- The parameter that the open branches show under a key. -/
def parameter? (key : String) : Option (Parameter ν) :=
  o.visibleParameters.findSome? (Parameter.find? · key)

/-- The value of a parameter, or else its default. -/
def get? (key : String) : Option Value :=
  (o.parameter? key).bind Parameter.get?

/-- Is some open branch complete? -/
def isComplete : Bool := o.visibleParameters.any (·.all Parameter.isComplete)

def hasValue : Bool := o.visibleParameters.any (·.any Parameter.hasValue)

/-- Does some open branch need nothing? -/
def isOptional : Bool := o.visibleParameters.any (·.all Parameter.isOptional)

/-- The parameters of open branches with a property, the first of each name. -/
def visibleWhere (keep : Parameter ν → Bool) : List (Parameter ν) :=
  Parameter.distinct (o.visibleParameters.flatten.filter keep)

def complete : List (Parameter ν) := o.visibleWhere Parameter.isComplete

def valued : List (Parameter ν) := o.visibleWhere Parameter.hasValue

def unfilled : List (Parameter ν) := o.visibleWhere (!·.isComplete)

def optional : List (Parameter ν) := o.visibleWhere Parameter.isOptional

/-- The names in each open branch. -/
def openNames : List (List String) :=
  o.visibleParameters.map fun ps => ps.map (·.name)

/-! ## Edits -/

/-- Leave open only the branches that a write to a key would. -/
def select (key : String) : Edit (OneOf ν) Unit := do
  modify fun o => o.settle
  let next ← Edit.inspect fun o => o.plan key none
  modify fun o => { o with active := some next }

/-- Set a key in one branch. -/
def setBranch (key : String) (value : Value) (i : Nat) : Edit (OneOf ν) Unit :=
  Edit.replace fun o =>
    match o.branches[i]? with
    | some branch => (branch.set key value).map fun b => o.modifyBranch i fun _ => b
    | none => .ok o

/-- Set a key in every open branch that declares it; only those stay open. -/
def set (key : String) (value : Value) : Edit (OneOf ν) Unit := do
  modify fun o => o.settle
  let next ← Edit.inspect fun o => o.plan key (some value)
  for i in next do setBranch key value i
  modify fun o => { o with active := some next }

/-- The first open branch that declares a key. -/
def owner (key : String) : Except TreeError Nat :=
  match o.plan key none with
  | .ok (i :: _) => .ok i
  | .ok [] => .error (.prunedBranch key)
  | .error e => .error e

/-- Edit the sub-spec under a key in the first open branch that declares it. The branches stay
open until something is written into it. -/
def within (key : String) (act : Edit ν α) : Edit (OneOf ν) α := do
  modify fun o => o.settle
  let i ← Edit.inspect fun o => o.owner key
  modify fun o =>
    if (o.declared? i key).any (!·.isPrimitive) then { o with live := some (key, i) } else o
  Edit.zoom
    (fun o => match o.declared? i key with
      | some p => .ok p
      | none => .error (.prunedBranch key))
    (fun p o => o.modifyBranch i (·.insert p))
    (Parameter.within act)

end Queries

/-- The alternatives with something else in place of sub-specs. -/
def map (f : ν → μ) (o : OneOf ν) : OneOf μ :=
  ⟨o.branches.map (Collection.map f), o.active, o.live⟩

end OneOf

end SpecTree
