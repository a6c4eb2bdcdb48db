/-!
Powers of two and of ten, and how far words of 64 bits reach.
-/

namespace PullFlow.Decimal

/-- The power of two with an exponent. -/
def twoToThe (k : Nat) : Nat := Nat.pow 2 k

/-- The power of ten with an exponent. -/
def tenToThe (k : Nat) : Nat := Nat.pow 10 k

/-- Words of 64 bits without a sign stay below it. -/
def wordLimit : Nat := 18446744073709551616

/-- Words of 64 bits with a sign stay below it and reach down to minus it. -/
def signedLimit : Nat := 9223372036854775808

example : wordLimit = twoToThe 64 ∧ signedLimit = twoToThe 63 := by decide

/-- Whether an integer is a word of 64 bits with a sign. -/
def fitsSigned (n : Int) : Bool := -(signedLimit : Int) ≤ n && n < signedLimit

end PullFlow.Decimal
