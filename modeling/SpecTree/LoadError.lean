import SpecTree.Comment.Kind
import SpecTree.Definition.Declaration
import SpecTree.File.Error

/-!
# Load errors

What can go wrong between a tree of source files and a catalog of definitions, and where.
Every cause belongs to a stage: reading comments, walking the sources, or checking the
references between definitions.
-/

namespace SpecTree

/-- Why loading failed at some place. -/
inductive LoadProblem where
  /-- A word that belongs inside a block stands outside. -/
  | strayKeyword (k : Keyword)
  | includeInBlock
  | nestedBlock (k : Keyword)
  | listInBlock (k : Keyword)
  | badDeclaration (fault : DeclarationFault) (text : String)
  | unclosedOneOf (start : Nat)
  | unclosedConditional (start : Nat)
  | fewBranches
  | notOneCondition
  | conditionNotBool (name : String)
  | unlistable (error : FileError)
  | unreadable (error : FileError)
  | noSpecs
  | unknownReference (name : String)
  | cycle (names : List String)
deriving DecidableEq

namespace LoadProblem

/-- The stage of loading at which the problem arises. -/
def stage : LoadProblem → Nat
  | unlistable _ | unreadable _ | noSpecs => 1
  | unknownReference _ | cycle _ => 3
  | _ => 0

/-- The names of a cycle, joined by arrows. -/
def cycleText (names : List String) : String :=
  " → ".intercalate names

/-- The problem in words. -/
def message : LoadProblem → String
  | strayKeyword k => "unexpected " ++ k.name ++ " outside a ONE OF or IF block"
  | includeInBlock => "includes are not allowed inside a block"
  | nestedBlock k => "nested " ++ k.name ++ " blocks are not supported"
  | listInBlock k => k.name ++ " lists are not allowed inside a block"
  | badDeclaration fault text => fault.message ++ ": " ++ text
  | unclosedOneOf start =>
    "ONE OF block opened at line " ++ toString start ++ " is not closed by OR or END"
  | unclosedConditional start =>
    "IF block opened at line " ++ toString start ++ " is not closed by END"
  | fewBranches => "ONE OF block needs at least two non-empty branches"
  | notOneCondition => "IF condition must be exactly one bool parameter"
  | conditionNotBool name => "IF condition '" ++ name ++ "' must be of type bool"
  | unlistable error => "cannot list sources: " ++ error.message
  | unreadable error => "cannot read file: " ++ error.message
  | noSpecs => "no specs found in file"
  | unknownReference name => "reference to unknown spec '" ++ name ++ "'"
  | cycle names => "spec reference cycle: " ++ cycleText names

end LoadProblem

/-- A problem, the file and line it is found at, and the spec that is described there. -/
structure LoadError where
  spec : Option String
  file : String
  line : Nat
  problem : LoadProblem
deriving DecidableEq

namespace LoadError

def stage (e : LoadError) : Nat := e.problem.stage

def message (e : LoadError) : String := e.problem.message

/-- The error on one line. -/
def display (e : LoadError) : String :=
  let spec := match e.spec with
    | some s => "[" ++ s ++ "] "
    | none => ""
  e.file ++ ":" ++ toString e.line ++ ": " ++ spec ++ e.message

end LoadError

end SpecTree
