import SpecTree.Number.Power

/-!
# JSON values

Documents that fill trees and that report about them. Whole numbers of 64 bits are kept
apart from doubles, and the members of an object are in ascending order of their names.
-/

namespace SpecTree

/-- A JSON number: an integer between `-2 ^ 63` and `2 ^ 64`, or a finite double. -/
inductive JsonNumber where
  | integer (n : Int)
  | float (x : Float)

/-- A JSON value. -/
inductive Json where
  | null
  | bool (b : Bool)
  | number (n : JsonNumber)
  | string (s : String)
  | array (items : List Json)
  | object (members : List (String × Json))
deriving Inhabited

namespace JsonNumber

/-- The number as a 64-bit integer. -/
def asInt? : JsonNumber → Option Int64
  | integer n => if n < Number.powerOfTwo 63 then some (Int64.ofInt n) else none
  | float _ => none

/-- The double nearest to the number. -/
def toFloat : JsonNumber → Float
  | integer n => Float.ofInt n
  | float x => x

end JsonNumber

namespace Json

/-- Put a member in its place; one of the same name is replaced. -/
def insertMember (name : String) (value : Json) :
    List (String × Json) → List (String × Json)
  | [] => [(name, value)]
  | (n, v) :: rest =>
    if name < n then (name, value) :: (n, v) :: rest
    else if name = n then (name, value) :: rest
    else (n, v) :: insertMember name value rest

/-- The object with the given members. Of members with one name the last counts. -/
def ofMembers (members : List (String × Json)) : Json :=
  object (members.foldl (fun sorted (name, value) => insertMember name value sorted) [])

/-- A whole number. -/
def ofNat (n : Nat) : Json := number (.integer n)

def ofStrings (items : List String) : Json := array (items.map string)

/-- A string, or null. -/
def ofString? : Option String → Json
  | some s => string s
  | none => null

def isBool : Json → Bool
  | bool _ => true
  | _ => false

def isNumber : Json → Bool
  | number _ => true
  | _ => false

def isString : Json → Bool
  | string _ => true
  | _ => false

def asBool? : Json → Option Bool
  | bool b => some b
  | _ => none

def asInt? : Json → Option Int64
  | number n => n.asInt?
  | _ => none

def asFloat? : Json → Option Float
  | number n => some n.toFloat
  | _ => none

def asString? : Json → Option String
  | string s => some s
  | _ => none

/-- The value of a member. -/
def member? (name : String) : Json → Option Json
  | object members => (members.find? (·.1 == name)).map (·.2)
  | _ => none

end Json

end SpecTree
