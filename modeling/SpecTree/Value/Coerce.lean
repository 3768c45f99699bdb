import SpecTree.Value.Text

/-!
# Coercion

A value is stored under a declared type only after it has been made a value of that type.
Text is read, integers widen to doubles, and 0 and 1 stand for truth values; nothing else
changes its type.
-/

namespace SpecTree.Value

/-- The truth value of 0 or 1. -/
def boolOfInt (n : Int64) : Except ValueError Bool :=
  if n = 0 then .ok false
  else if n = 1 then .ok true
  else .error (.uninterpretable (intText n) (.scalar .bool))

/-- The value as one of type `target`. -/
def coerce (target : Primitive) (value : Value) : Except ValueError Value :=
  if value.type = target then .ok value
  else match target, value with
    | target, string s => parse target s
    | .scalar .double, int n => .ok (double (doubleOfInt n))
    | .scalar .bool, int n => bool <$> boolOfInt n
    | .array .double, ints ns => .ok (doubles (ns.map doubleOfInt))
    | .array .bool, ints ns => bools <$> ns.mapM boolOfInt
    | .array element, strings ss => ofItems element ss
    | target, value => .error (.uninterpretable value.toText target)

end SpecTree.Value
