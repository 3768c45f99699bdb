import SpecTree.LoadError

/-!
# Tree errors

Why a tree could not be built, or a change of it was refused.
-/

namespace SpecTree

/-- Why a tree operation failed. -/
inductive TreeError where
  /-- No parameter of this name is declared. -/
  | unknownKey (key owner : String)
  /-- The branches that are still open do not declare the key. -/
  | prunedBranch (key : String)
  /-- The condition has no value yet. -/
  | caseNotSet (key case : String)
  /-- The branch that the condition chooses does not declare the key. -/
  | branchMismatch (key case value : String)
  /-- No branch has this value of the condition. -/
  | invalidCase (case value : String)
  | notPrimitive (key : String)
  | notDerived (key : String)
  | duplicateEntry (key : String)
  | unknownType (field type : String) (valid : List String)
  | typeAlreadySet (field current : String)
  | notAList (owner : String)
  | malformedOneOf
  /-- The value of a parameter is not of its type. -/
  | badValue (key : String) (error : ValueError)
  | unknownSpec (name : String)
  | cycle (names : List String)
  /-- Definitions were loaded that the catalog does not have yet. -/
  | notFinished
deriving DecidableEq

/-- The error in words. -/
def TreeError.message : TreeError → String
  | unknownKey key owner => "'" ++ key ++ "' is not a parameter of " ++ owner
  | prunedBranch key =>
    "setting '" ++ key ++ "' conflicts with a previously selected ONE OF branch"
  | caseNotSet key case =>
    "cannot set '" ++ key ++ "' before the case parameter '" ++ case ++ "' is set"
  | branchMismatch key case value =>
    "'" ++ key ++ "' is not in the branch selected by '" ++ case ++ "' = " ++ value
  | invalidCase case value =>
    value ++ " does not select a branch of case parameter '" ++ case ++ "'"
  | notPrimitive key => "'" ++ key ++ "' holds a sub-spec, not a primitive value"
  | notDerived key => "'" ++ key ++ "' is a primitive parameter and holds no sub-spec"
  | duplicateEntry key => "'" ++ key ++ "' already exists; cannot append an entry of this name"
  | unknownType field type valid =>
    "'" ++ type ++ "' is not a valid type for '" ++ field ++ "' (valid: " ++
      ", ".intercalate valid ++ ")"
  | typeAlreadySet field current =>
    "type of '" ++ field ++ "' is already set to '" ++ current ++ "'"
  | notAList owner => owner ++ " is not a list"
  | malformedOneOf => "ONE OF requires at least two non-empty branches"
  | badValue key error => "parameter '" ++ key ++ "': " ++ error.message
  | unknownSpec name => "unknown spec '" ++ name ++ "'"
  | cycle names => "spec reference cycle: " ++ LoadProblem.cycleText names
  | notFinished => "registry has pending loads; call finish_load() first"

end SpecTree
