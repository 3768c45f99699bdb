import SpecTree.Primitive

/-!
# Values

The values that parameters hold. Equality `==` of values is that of their contents; on
doubles it is equality of numbers, so that no NaN equals itself.
-/

namespace SpecTree

/-- A value of a primitive type. -/
inductive Value where
  | double (x : Float)
  | int (n : Int64)
  | string (s : String)
  | bool (b : Bool)
  | doubles (xs : List Float)
  | ints (ns : List Int64)
  | strings (ss : List String)
  | bools (bs : List Bool)
deriving DecidableEq

namespace Value

/-- The type of a value. -/
def type : Value → Primitive
  | double _ => .scalar .double
  | int _ => .scalar .int
  | string _ => .scalar .string
  | bool _ => .scalar .bool
  | doubles _ => .array .double
  | ints _ => .array .int
  | strings _ => .array .string
  | bools _ => .array .bool

/-- Equality of contents; doubles are compared as numbers. -/
protected def beq : Value → Value → Bool
  | double x, double y => x == y
  | doubles xs, doubles ys => xs == ys
  | v, w => decide (v = w)

instance : BEq Value := ⟨Value.beq⟩

def asString? : Value → Option String
  | string s => some s
  | _ => none

def asBool? : Value → Option Bool
  | bool b => some b
  | _ => none

def asInt? : Value → Option Int64
  | int n => some n
  | _ => none

/-- The double nearest to an integer. -/
def doubleOfInt (n : Int64) : Float :=
  Float.ofInt n.toInt

/-- A double, or the double nearest to an integer. -/
def asDouble? : Value → Option Float
  | double x => some x
  | int n => some (doubleOfInt n)
  | _ => none

end Value

end SpecTree
