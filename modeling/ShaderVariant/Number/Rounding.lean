/-!
# Rounding

Rounding of quotients of whole numbers, which all rounding of numbers here comes down to.
-/

namespace ShaderVariant

/-- `n / d` rounded to a whole number, a tie to the even one. -/
def roundQuotient (n d : Nat) : Nat :=
  let q := n / d
  let r := n % d
  if 2 * r < d then q else if d < 2 * r then q + 1 else if q % 2 = 0 then q else q + 1

end ShaderVariant
