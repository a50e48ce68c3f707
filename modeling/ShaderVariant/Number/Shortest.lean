import ShaderVariant.Number.Binary32

/-!
# Shortest decimals

The text of a single is the shortest decimal that reads back as it: the fewest digits, and of the decimals with so
many digits the nearest, the larger one on a tie.

* `Scaled.readsBack` : the decimals that round to a single, as a test in exact arithmetic;
* `Scaled.shortest?` : the digits and the power of ten of the shortest decimal;
* `Binary32.render` : positional with at least one decimal place for magnitudes from `10^-4` up to `10^16`, with an
  exponent outside of that, and `NaN`, `inf`, `-inf`.
-/

namespace ShaderVariant.Binary32

/-- `significand * 2^exponent` for a finite magnitude. -/
structure Scaled where
  significand : Nat
  exponent : Int

def scaled (x : Binary32) : Scaled :=
  let field : Nat := x.magnitude / leadingBit
  let fraction := x.magnitude % leadingBit
  if field = 0 then ⟨fraction, -149⟩ else ⟨leadingBit + fraction, Int.ofNat field - 150⟩

/-- The sign of `a * 10^i - n * 2^j`. -/
def compareScaled (a : Nat) (i : Int) (n : Nat) (j : Int) : Ordering :=
  compare ((a * Nat.pow 10 i.toNat) <<< (-j).toNat) ((n * Nat.pow 10 (-i).toNat) <<< j.toNat)

/-- Whether `a * 10^i` rounds to `x`: it lies between the halves of the gaps to the neighbours, ends included when
the significand is even. The gap below a power of two is half the gap above it. -/
def Scaled.readsBack (x : Scaled) (a : Nat) (i : Int) : Bool :=
  let low := if x.significand = leadingBit then 4 * x.significand - 1 else 4 * x.significand - 2
  let high := 4 * x.significand + 2
  let closed := x.significand % 2 == 0
  let below := compareScaled a i low (x.exponent - 2)
  let above := compareScaled a i high (x.exponent - 2)
  (below == .gt || (closed && below == .eq)) && (above == .lt || (closed && above == .eq))

/-- The least `k` in a list with `x < 10^k`. -/
def Scaled.scale? (x : Scaled) (ks : List Int) : Option Int :=
  ks.find? fun k => compareScaled 1 k x.significand x.exponent == .gt

def Scaled.floorOn (x : Scaled) (i : Int) : Nat :=
  ((x.significand * Nat.pow 10 (-i).toNat) <<< x.exponent.toNat) / (Nat.pow 10 i.toNat <<< (-x.exponent).toNat)

/-- The decimal `a * 10^i` on the grid of `10^i` that reads back, if there is one: of the two neighbours of the
value the nearer, the upper one on a tie. -/
def Scaled.onGrid? (x : Scaled) (i : Int) : Option (Nat × Int) :=
  let down := x.floorOn i
  let up := down + 1
  match x.readsBack down i, x.readsBack up i with
  | true, false => some (down, i)
  | false, true => some (up, i)
  | true, true =>
    if compareScaled (down + up) i (2 * x.significand) x.exponent == .gt then some (down, i) else some (up, i)
  | false, false => none

/-- The shortest decimal of a positive finite magnitude. Nine digits always read back. Zero has no scale. -/
def Scaled.shortest? (x : Scaled) : Option (Nat × Int) :=
  if x.significand = 0 then none
  else (x.scale? ((List.range 90).map fun (n : Nat) => (n : Int) - 46)).bind fun k =>
    (List.range 9).findSome? fun (n : Nat) => x.onGrid? (k - (n + 1 : Nat))

/-- The digits of a decimal without the zeros at their end, which go into the power of ten. -/
def stripZeros (digits : Text) (i : Int) : Text × Int :=
  let kept := (digits.reverse.dropWhile (· == '0')).reverse
  (kept, i + (digits.length - kept.length : Nat))

/-- The decimal `0.ds * 10^point` without an exponent. -/
def positional (ds : Text) (point : Int) : String :=
  if point ≤ 0 then "0." ++ String.ofList (List.replicate (-point).toNat '0' ++ ds)
  else if (ds.length : Int) ≤ point then
    String.ofList (ds ++ List.replicate (point.toNat - ds.length) '0') ++ ".0"
  else String.ofList (ds.take point.toNat) ++ "." ++ String.ofList (ds.drop point.toNat)

/-- The decimal `0.ds * 10^point` with one digit before the point and an exponent. -/
def exponential (ds : Text) (point : Int) : String :=
  let mark := "e" ++ toString (point - 1)
  match ds with
  | [] => "0" ++ mark
  | [d] => String.singleton d ++ mark
  | d :: ds => String.singleton d ++ "." ++ String.ofList ds ++ mark

def renderMagnitude (x : Binary32) : String :=
  match x.scaled.shortest? with
  | none => "0.0"
  | some (a, i) =>
    let (ds, i) := stripZeros (Nat.toDigits 10 a) i
    let point := i + ds.length
    if -4 < point ∧ point ≤ 16 then positional ds point else exponential ds point

def render (x : Binary32) : String :=
  if x.isNaN then "NaN"
  else
    let sign := if x.isNegative then "-" else ""
    if x.isInfinite then sign ++ "inf" else sign ++ x.renderMagnitude

end ShaderVariant.Binary32
