import ShaderVariant.Number.Numeral
import ShaderVariant.Number.Rounding

/-!
# Scaled numbers

A numeral is valued quickly by a significand of 64 bits and a power of ten, which are then multiplied in double
precision. The significand is written by the first digits, as many as fit; whole digits behind them only raise the
exponent, and fractional ones are left out.

* `Scaled.ofParts` : the significand and the exponent of a numeral;
* `Scaled.overflows` : whether the product is beyond the doubles. Significand and power are rounded to doubles first,
  so this may differ from whether the numeral itself is.
-/

namespace ShaderVariant

structure Scaled where
  significand : Nat
  exponent : Int
  deriving DecidableEq, Repr

namespace Scaled

def significandBound : Nat := 0x10000000000000000

/-- Appends digits to a significand while it fits: the significand, and how many digits were left over. -/
def takeDigits (n : Nat) : Text → Nat × Nat
  | [] => (n, 0)
  | c :: ds =>
    let m := 10 * n + Numeral.digitValue c
    if m < significandBound then takeDigits m ds else (n, ds.length + 1)

/-- The numeral with digits before and after the point and an exponent. A fractional digit may fit although a whole
one before it did not. -/
def ofParts (whole fraction : Text) (exponent : Int) : Scaled :=
  let (n, raised) := takeDigits 0 whole
  let (n, unused) := takeDigits n fraction
  ⟨n, exponent + raised - (fraction.length - unused : Nat)⟩

/-- A whole number rounded to the 53 significant bits of a double. -/
def roundDouble (n : Nat) : Nat :=
  let shift := n.log2 - 52
  roundQuotient n (1 <<< shift) <<< shift

/-- The least number that rounds beyond the doubles: halfway from the greatest double to the next power of two. -/
def doubleBound : Nat := (1 <<< 1024) - (1 <<< 970)

/-- The greatest power of ten that is a double. -/
def greatestPower : Nat := 308

/-- Whether the value in double precision is infinite. A negative exponent divides, and that never is. -/
def overflows (x : Scaled) : Bool :=
  if x.significand = 0 ∨ x.exponent < 0 then false
  else if greatestPower < x.exponent.toNat then true
  else doubleBound ≤ roundDouble x.significand * roundDouble (Nat.pow 10 x.exponent.toNat)

end Scaled

end ShaderVariant
