import ShaderVariant.Text.Basic

/-!
# Numerals

Reading whole numbers and decimal numerals from text.

* `Numeral.digitsValue` : the value of a run of digits;
* `Numeral.int64?` : an optional sign and at least one digit, within 64 bits;
* `Numeral.splitSign` : takes an optional sign off;
* `Numeral.unsigned?` : behind the sign, digits with an optional point and an optional exponent: the numeral
  `(-1)^negative * mantissa * 10^exponent`.
-/

namespace ShaderVariant.Numeral

def digitValue (c : Char) : Nat := c.toNat - '0'.toNat

/-- The value of a run of digits, most significant first. -/
def digitsValue (ds : Text) : Nat := ds.foldl (fun n c => 10 * n + digitValue c) 0

/-- Takes the sign off: whether it is a minus, and the rest. -/
def splitSign : Text → Bool × Text
  | '-' :: t => (true, t)
  | '+' :: t => (false, t)
  | t => (false, t)

theorem length_splitSign_le (t : Text) : (splitSign t).2.length ≤ t.length := by
  unfold splitSign
  split <;> simp

/-- A whole number of 64 bits: an optional sign, then digits only, at least one. -/
def int64? (t : Text) : Option Int :=
  let (negative, ds) := splitSign t
  if ds.isEmpty || !ds.all Text.isDigit then none
  else
    let n : Int := if negative then -(digitsValue ds : Int) else digitsValue ds
    if -0x8000000000000000 ≤ n ∧ n < 0x8000000000000000 then some n else none

/-- A decimal numeral, `(-1)^negative * mantissa * 10^exponent`. -/
structure Decimal where
  negative : Bool
  mantissa : Nat
  exponent : Int
  deriving DecidableEq, Repr

/-- The exponent part of a numeral: nothing, or `e`, an optional sign and digits. -/
def exponent? : Text → Option Int
  | [] => some 0
  | c :: t =>
    if c = 'e' ∨ c = 'E' then
      let (negative, ds) := splitSign t
      if ds.isEmpty || !ds.all Text.isDigit then none
      else some (if negative then -(digitsValue ds : Int) else digitsValue ds)
    else none

/-- The digits before and after the point, and what follows them. -/
def splitPoint (t : Text) : Text × Text × Text :=
  let (whole, rest) := t.span Text.isDigit
  match rest with
  | '.' :: rest =>
    let (fraction, rest) := rest.span Text.isDigit
    (whole, fraction, rest)
  | rest => (whole, [], rest)

/-- A decimal numeral without its sign; it has a digit before or after the point. -/
def unsigned? (negative : Bool) (t : Text) : Option Decimal :=
  let (whole, fraction, rest) := splitPoint t
  if whole.isEmpty && fraction.isEmpty then none
  else (exponent? rest).map fun e => ⟨negative, digitsValue (whole ++ fraction), e - fraction.length⟩

end ShaderVariant.Numeral
