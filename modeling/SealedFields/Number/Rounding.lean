/-!
Rounding a quotient of naturals to the nearest natural, ties to the even neighbour.
-/

namespace SealedFields.Number

/-- The natural nearest to `num / den`; halfway between two, the even one. -/
def roundDiv (num den : Nat) : Nat :=
  let q := num / den
  let r := num % den
  if 2 * r > den ∨ (2 * r = den ∧ q % 2 = 1) then q + 1 else q

end SealedFields.Number
