/-!
# Powers

The powers of the two bases that numbers are written in.
-/

namespace SpecTree.Number

/-- The `k`-th power of two. -/
def powerOfTwo (k : Nat) : Nat := Nat.pow 2 k

/-- The `k`-th power of ten. -/
def powerOfTen (k : Nat) : Nat := Nat.pow 10 k

end SpecTree.Number
