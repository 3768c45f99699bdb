import SpecTree.Number.Fixed
import SpecTree.Number.Literal
import SpecTree.Text.Cut
import SpecTree.Text.Quoted
import SpecTree.Value

/-!
# Values as text

Every value has a text form, and the text of a value is read by its type. Arrays stand in
braces with commas between the items, which are not escaped.
-/

namespace SpecTree

/-- Why a value could not be read or converted. -/
inductive ValueError where
  /-- The text is not that of a value of the type. -/
  | uninterpretable (text : String) (target : Primitive)
  /-- No primitive type has this name. -/
  | unknownType (name : String)
deriving DecidableEq

/-- The error in words. -/
def ValueError.message : ValueError → String
  | uninterpretable text target =>
    "cannot interpret " ++ Text.quoted text ++ " as " ++ target.name
  | unknownType name => "unknown primitive type '" ++ name ++ "'"

/-- The primitive type of the given name. -/
def Primitive.parse (name : String) : Except ValueError Primitive :=
  match Primitive.ofName? name with
  | some p => .ok p
  | none => .error (.unknownType name)

namespace Value

/-- Doubles are written with eight decimal places. -/
def doubleText (x : Float) : String := Number.fixed 8 x

def intText (n : Int64) : String := toString n.toInt

def boolText (b : Bool) : String := if b then "true" else "false"

/-- The text of an array. -/
def arrayText (items : List String) : String :=
  "\x7b" ++ ",".intercalate items ++ "\x7d"

/-- The text form of a value. -/
def toText : Value → String
  | double x => doubleText x
  | int n => intText n
  | string s => s
  | bool b => boolText b
  | doubles xs => arrayText (xs.map doubleText)
  | ints ns => arrayText (ns.map intText)
  | strings ss => arrayText ss
  | bools bs => arrayText (bs.map boolText)

/-- The two truth values, each in four spellings. -/
def parseBool? (text : String) : Option Bool :=
  let word := Text.trimmed text
  if word ∈ ["true", "True", "TRUE", "1"] then some true
  else if word ∈ ["false", "False", "FALSE", "0"] then some false
  else none

def parseInt? (text : String) : Option Int64 :=
  Number.int? text.toList

def parseDouble? (text : String) : Option Float :=
  Number.double? (Text.trim text.toList)

/-- The items of an array's text. An array of blanks is empty. -/
def splitArray? (text : String) : Option (List String) := do
  let opened ← Text.afterPrefix? ['\x7b'] (Text.trim text.toList)
  let inner ← Text.beforeSuffix? ['\x7d'] opened
  if Text.trim inner = [] then some []
  else some ((Text.splitOnChar ',' inner).map String.ofList)

/-- Read every item, or name the first that is not of the type. -/
def parseItems {α : Type} (target : Scalar) (read : String → Option α) (items : List String) :
    Except ValueError (List α) :=
  items.mapM fun item =>
    match read item with
    | some a => .ok a
    | none => .error (.uninterpretable item (.scalar target))

/-- Read the items of an array of the given element type. -/
def ofItems (element : Scalar) (items : List String) : Except ValueError Value :=
  match element with
  | .double => doubles <$> parseItems .double parseDouble? items
  | .int => ints <$> parseItems .int parseInt? items
  | .string => .ok (strings items)
  | .bool => bools <$> parseItems .bool parseBool? items

/-- Read a value of the given type. -/
def parse (target : Primitive) (text : String) : Except ValueError Value :=
  let orFail := fun (v : Option Value) =>
    match v with
    | some v => .ok v
    | none => .error (.uninterpretable text target)
  match target with
  | .scalar .double => orFail ((parseDouble? text).map double)
  | .scalar .int => orFail ((parseInt? text).map int)
  | .scalar .string => .ok (string text)
  | .scalar .bool => orFail ((parseBool? text).map bool)
  | .array element =>
    match splitArray? text with
    | some items => ofItems element items
    | none => .error (.uninterpretable text target)

end Value

end SpecTree
