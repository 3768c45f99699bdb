import SpecTree.Definition
import SpecTree.Text.Cut
import SpecTree.Value.Text

/-!
# Reading declarations

The text of a declaration is a quoted name, a bracketed type, a marker between double
asterisks and a comment; without a name it includes another spec. The text of a list item is
a quoted name, a marker and a comment.
-/

namespace SpecTree

/-- What is wrong with the text of a declaration or an item. -/
inductive DeclarationFault where
  | noAsterisk
  | noHyphen
  | unterminatedName
  | missingName
  | missingItemName
  | missingType
  | unterminatedType
  | unterminatedMarker
  | includeWithDefault
  | primitiveWithoutName
  | invalidDefault (error : ValueError)
  | defaultOfSpec (type : String)
deriving DecidableEq

/-- The fault in words. -/
def DeclarationFault.message : DeclarationFault → String
  | noAsterisk => "parameter declaration must start with '*'"
  | noHyphen => "list item must start with '-'"
  | unterminatedName => "unterminated parameter name quoting"
  | missingName => "missing parameter name quoting"
  | missingItemName => "missing item name quoting"
  | missingType => "missing type brackets"
  | unterminatedType => "malformed type brackets"
  | unterminatedMarker => "malformed **default** marker"
  | includeWithDefault => "defaults are not allowed on includes"
  | primitiveWithoutName => "primitive parameter has no name"
  | invalidDefault error => "invalid default (" ++ error.message ++ ")"
  | defaultOfSpec type => "default given for non-primitive type '" ++ type ++ "'"

/-- A declaration: a parameter, or the spec that it includes. -/
inductive Declared where
  | parameter (p : Declaration)
  | include (spec : String)

/-- An item of a list of names. -/
structure Item where
  name : String
  default : Option String
  doc : String

/-- The marker and the comment at the end of a declaration. -/
structure Tail where
  default : Option String
  isOptional : Bool
  doc : String

namespace Declaration

/-- A trimmed text up to a closing token, and the text behind it. -/
def takeUntil? (closing rest : List Char) : Option (String × List Char) :=
  (Text.cutAt? closing rest).map fun (inside, behind) =>
    (String.ofList (Text.trim inside), Text.trimStart behind)

/-- The text after the first of several opening tokens that `s` starts with, and the closing
token that goes with it. -/
def takeOpening? (s : List Char) : List (List Char × List Char) → Option (List Char × List Char)
  | [] => none
  | (opening, closing) :: pairs =>
    match Text.afterPrefix? opening s with
    | some rest => some (closing, rest)
    | none => takeOpening? s pairs

/-- The ways to quote a name. -/
def nameQuotes : List (List Char × List Char) :=
  [("`\"".toList, "`\"".toList), (['"'], ['"'])]

/-- The ways to bracket a type. -/
def typeBrackets : List (List Char × List Char) :=
  [("``[".toList, "]``".toList), (['['], [']'])]

/-- The quoted name at the front of a text; `none` if there is no quote. -/
def takeName (s : List Char) : Except DeclarationFault (Option (String × List Char)) :=
  match takeOpening? s nameQuotes with
  | none => .ok none
  | some (closing, rest) =>
    match takeUntil? closing rest with
    | some named => .ok (some named)
    | none => .error .unterminatedName

/-- The bracketed type at the front of a text. -/
def takeType (s : List Char) : Except DeclarationFault (String × List Char) :=
  match takeOpening? s typeBrackets with
  | none => .error .missingType
  | some (closing, rest) =>
    match takeUntil? closing rest with
    | some typed => .ok typed
    | none => .error .unterminatedType

/-- The end of a declaration: `**default** doc`, `**optional** doc`, or a comment alone. -/
def readTail (s : List Char) : Except DeclarationFault Tail :=
  let s := Text.trim s
  if Text.startsWith ['*', '*'] s then
    match Text.pieces ['*', '*'] s with
    | _ :: marker :: doc :: docs =>
      let doc := String.ofList (Text.trim (['*', '*'].intercalate (doc :: docs)))
      if marker = "optional".toList then .ok ⟨none, true, doc⟩
      else .ok ⟨some (String.ofList marker), false, doc⟩
    | _ => .error .unterminatedMarker
  else .ok ⟨none, false, String.ofList s⟩

/-- The default of a parameter, read by its type. -/
def readDefault (type : TypeRef) : Option String → Except DeclarationFault (Option Value)
  | none => .ok none
  | some text =>
    match type with
    | .spec name => .error (.defaultOfSpec name)
    | .primitive p =>
      match Value.parse p text with
      | .ok value => .ok (some value)
      | .error e => .error (.invalidDefault e)

/-- Read the text of a declaration. -/
def read (origin : Origin) (text : String) : Except DeclarationFault Declared := do
  let some body := Text.afterPrefix? ['*'] (Text.trim text.toList) | .error .noAsterisk
  let body := Text.trimStart body
  let (name, rest) ← match ← takeName body with
    | some (name, rest) => pure (some name, rest)
    | none => if (takeOpening? body typeBrackets).isSome then pure (none, body) else .error .missingName
  let (typeText, rest) ← takeType rest
  let tail ← readTail rest
  let type := TypeRef.ofText typeText
  match name with
  | none =>
    match type with
    | .primitive _ => .error .primitiveWithoutName
    | .spec spec => if tail.default.isSome then .error .includeWithDefault else .ok (.include spec)
  | some name =>
    let default ← readDefault type tail.default
    .ok (.parameter
      { name, type, default, isOptional := tail.isOptional || default.isSome, doc := tail.doc, origin })

end Declaration

/-- Read the text of a list item. -/
def Item.read (text : String) : Except DeclarationFault Item := do
  let some body := Text.afterPrefix? ['-'] (Text.trim text.toList) | .error .noHyphen
  let some (name, rest) ← Declaration.takeName (Text.trimStart body) | .error .missingItemName
  let tail ← Declaration.readTail rest
  .ok ⟨name, tail.default, tail.doc⟩

end SpecTree
