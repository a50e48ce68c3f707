import ShaderVariant.Number.Numeral
import ShaderVariant.Number.Rounding

/-!
# Single-precision numbers

A `Binary32` is the 32 bits of an IEEE single. Decimal numerals are read with correct rounding, in exact
arithmetic: the nearest single, a tie to the one with an even significand.

* `Binary32.ofQuotient n d` : the single nearest to `n / d`;
* `Binary32.ofDecimal` : the single nearest to a decimal numeral;
* `Binary32.parse?` : a numeral, `nan`, `inf` or `infinity` in any case, each with an optional sign.
-/

namespace ShaderVariant

/-- An IEEE single, by its bits. -/
structure Binary32 where
  bits : UInt32
  deriving DecidableEq, Repr, Inhabited

namespace Binary32

def zero : Binary32 := ⟨0⟩

def infinityBits : Nat := 0x7F800000

/-- The bits of the positive quiet NaN. -/
def nanBits : Nat := 0x7FC00000

/-- The weight of the leading bit of a normal significand. -/
def leadingBit : Nat := 0x800000

def signed (negative : Bool) (magnitude : Nat) : Binary32 :=
  ⟨UInt32.ofNat (magnitude + if negative then 0x80000000 else 0)⟩

def isNegative (x : Binary32) : Bool := x.bits.toNat ≥ 0x80000000

def magnitude (x : Binary32) : Nat := x.bits.toNat % 0x80000000

def isNaN (x : Binary32) : Bool := x.magnitude > infinityBits

def isInfinite (x : Binary32) : Bool := x.magnitude == infinityBits

/-- `n / d / 2^q` as a quotient of whole numbers. -/
def scaleQuotient (n d : Nat) (q : Int) : Nat × Nat :=
  if 0 ≤ q then (n, d <<< q.toNat) else (n <<< (-q).toNat, d)

/-- The bits of the single nearest to `n / d`, for positive `n` and `d`. A significand of 24 bits is chosen, or fewer
where the value is below the normal range; adding it to the exponent field carries over when rounding reaches the
next power of two. -/
def ofQuotient (n d : Nat) : Nat :=
  let guess : Int := max ((n.log2 : Int) - d.log2 - 24) (-149)
  let (a, b) := scaleQuotient n d guess
  let q := if a / b < 2 * leadingBit then guess else guess + 1
  let (a, b) := scaleQuotient n d q
  min ((q + 149).toNat * leadingBit + roundQuotient a b) infinityBits

def decimalDigits (n : Nat) : Nat := (Nat.toDigits 10 n).length

/-- The single nearest to a decimal numeral. Numerals far outside the range are settled by their size alone. -/
def ofDecimal (x : Numeral.Decimal) : Binary32 :=
  let size := (decimalDigits x.mantissa : Int) + x.exponent
  if x.mantissa = 0 ∨ size < -50 then signed x.negative 0
  else if 50 < size then signed x.negative infinityBits
  else if 0 ≤ x.exponent then signed x.negative (ofQuotient (x.mantissa * Nat.pow 10 x.exponent.toNat) 1)
  else signed x.negative (ofQuotient x.mantissa (Nat.pow 10 (-x.exponent).toNat))

/-- Reads a single. A sign in front of `nan` is kept. -/
def parse? (t : Text) : Option Binary32 :=
  let (negative, body) := Numeral.splitSign t
  let word := String.ofList (body.map Char.toLower)
  if word = "nan" then some (signed negative nanBits)
  else if word = "inf" ∨ word = "infinity" then some (signed negative infinityBits)
  else (Numeral.unsigned? negative body).map ofDecimal

end Binary32

end ShaderVariant
