import SpecTree.Tree.Build

/-!
# Trees for readers

A line for each parameter, with its type and its value or what else is to be said of it. The
parameters of a sub-spec are indented below it, and alternatives and conditionals that are
not decided yet are shown with all their branches.
-/

namespace SpecTree.Explain

/-- A text with its lines indented. -/
def indent (text : String) : String :=
  "\n".intercalate ((Text.lines text.toList).map fun line => "  " ++ String.ofList line)

/-- Texts below one another; empty ones are left out. -/
def sections (texts : List String) : String :=
  "\n".intercalate (texts.filter (· ≠ ""))

/-- What is said of a slot for a value. -/
def valueText (value default : Option Value) (isOptional : Bool) : String :=
  match value, default with
  | some v, _ => v.toText
  | none, some d => d.toText ++ " (default)"
  | none, none => if isOptional then "[optional]" else "[unset]"

section Levels

variable {ν : Type} [Judged ν] (text : ν → String)

/-- What is said of a slot for a sub-spec. -/
def status (p : Parameter ν) : String :=
  if !p.isComplete then "[incomplete]"
  else if !p.hasValue && p.isOptional then "[optional]"
  else "[complete]"

/-- A parameter, and below it the sub-spec that it holds. -/
def ofParameter (p : Parameter ν) : String :=
  let head := p.name ++ " [" ++ p.type.name ++ "] : "
  match p.type with
  | .primitive _ => head ++ valueText p.value p.default p.isOptional
  | .spec _ =>
    let body := (p.node.map text).getD ""
    head ++ status p ++ (if body = "" then "" else "\n" ++ indent body)

def ofCollection (c : Collection ν) : String :=
  sections (c.parameters.map (ofParameter text))

/-- The chosen branch of alternatives, or all that are open. -/
def ofOneOf (o : OneOf ν) : String :=
  let lines := fun i => (o.branchParameters i).map (ofParameter text)
  match o.selected? with
  | some i => sections (lines i)
  | none =>
    let branches := o.visible.map fun i => indent ("\n".intercalate (lines i))
    "ONE OF:\n" ++ "\nOR:\n".intercalate branches ++ "\nEND"

/-- The word before the branch for a value. -/
def branchLabel : Value → String
  | .bool true => "THEN:"
  | .bool false => "ELSE:"
  | value => "WHEN " ++ value.toText ++ ":"

/-- The chosen branch of a conditional, or all that are not empty. -/
def ofConditional (s : Conditional ν) : String :=
  match s.selected? with
  | some group => sections [ofParameter text s.case, ofCollection text group]
  | none =>
    let branches := s.branches.flatMap fun (value, group) =>
      if group.isEmpty then [] else [branchLabel value, indent (ofCollection text group)]
    "\n".intercalate (["IF:", indent (ofParameter text s.case)] ++ branches ++ ["END"])

def ofComponent : Component ν → String
  | .collection c => ofCollection text c
  | .oneOf o => ofOneOf text o
  | .conditional s => ofConditional text s

def ofSpec (s : Spec ν) : String := sections (s.components.map (ofComponent text))

def ofList (l : EntryList ν) : String :=
  if l.entries.isEmpty then "(no entries; " ++ l.typeName ++ ")"
  else sections (l.entries.map (ofParameter text))

/-- A choice with its selector, and with the types that may be chosen. -/
def ofChoice (valid : List String) (c : Choice ν) : String :=
  let selector := if c.placement.hasTypeParameter then []
    else [c.selector ++ " [string] : " ++ c.selected.getD "[unset]"]
  let types := if c.selected.isSome then []
    else ["  valid types: " ++ ", ".intercalate valid]
  sections (selector ++ [ofSpec text c.body] ++ types)

end Levels

end SpecTree.Explain

namespace SpecTree.Node

/-- The tree for a reader. -/
def explain (catalog : Catalog) (n : Node) : String :=
  (n.judge
    (Explain.ofSpec Judgement.result)
    (Explain.ofList Judgement.result)
    (fun c => Explain.ofChoice Judgement.result (catalog.validTypes c.name c.field).types c)).result

end SpecTree.Node
