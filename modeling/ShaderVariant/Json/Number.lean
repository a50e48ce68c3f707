import ShaderVariant.Json.Basic
import ShaderVariant.Number.Scaled

/-!
# JSON: numbers

No number is ever wanted here, but their faults count.

* `Json.skipNumber` : the text behind a number, whose form alone is checked;
* `Json.numberFault` : what is wrong with a number in the place of another value.
-/

namespace ShaderVariant.Json

def startsDigit (t : Text) : Bool := (t.head?.map Text.isDigit).getD false

def skipDigits (t : Text) : Text := t.dropWhile Text.isDigit

theorem length_skipDigits_le (t : Text) : (skipDigits t).length ≤ t.length := (List.dropWhile_sublist _).length_le

/-! ## Skipping -/

/-- The text behind the digits of an exponent, which has at least one. -/
def skipExponent (t : Text) : Except Fault Text :=
  let t := (Numeral.splitSign t).2
  if startsDigit t then .ok (skipDigits t) else .error .badSyntax

theorem length_skipExponent_le {t rest : Text} (h : skipExponent t = .ok rest) : rest.length ≤ t.length := by
  simp only [skipExponent] at h
  split at h
  · cases h
    exact Nat.le_trans (length_skipDigits_le _) (Numeral.length_splitSign_le t)
  · cases h

/-- The text behind an exponent part, if there is one. -/
def skipExponentPart : Text → Except Fault Text
  | 'e' :: t => skipExponent t
  | 'E' :: t => skipExponent t
  | t => .ok t

theorem length_skipExponentPart_le {t rest : Text} (h : skipExponentPart t = .ok rest) : rest.length ≤ t.length := by
  unfold skipExponentPart at h
  split at h
  · exact Nat.le_succ_of_le (length_skipExponent_le h)
  · exact Nat.le_succ_of_le (length_skipExponent_le h)
  · cases h
    exact Nat.le_refl _

/-- The text behind a fraction and an exponent, if there are any. -/
def skipFraction : Text → Except Fault Text
  | '.' :: t => if startsDigit t then skipExponentPart (skipDigits t) else .error .badSyntax
  | t => skipExponentPart t

theorem length_skipFraction_le {t rest : Text} (h : skipFraction t = .ok rest) : rest.length ≤ t.length := by
  unfold skipFraction at h
  split at h
  · split at h
    · exact Nat.le_succ_of_le (Nat.le_trans (length_skipExponentPart_le h) (length_skipDigits_le _))
    · cases h
  · exact length_skipExponentPart_le h

/-- The text behind a number that is not wanted, from behind its minus sign. -/
def skipNumber : Text → Except Fault Text
  | [] => .error .badSyntax
  | c :: t =>
    if c = '0' then if startsDigit t then .error .badSyntax else skipFraction t
    else if Text.isDigit c then skipFraction (skipDigits t)
    else .error .badSyntax

theorem length_skipNumber_lt {t rest : Text} (h : skipNumber t = .ok rest) : rest.length < t.length := by
  unfold skipNumber at h
  split at h
  · cases h
  · split at h
    · split at h
      · cases h
      · exact Nat.lt_succ_of_le (length_skipFraction_le h)
    · split at h
      · exact Nat.lt_succ_of_le (Nat.le_trans (length_skipFraction_le h) (length_skipDigits_le _))
      · cases h

/-! ## Faults -/

/-- The fault of a well-formed number in the place of another value: its type, unless it is out of range. -/
def valueFault (x : Scaled) : Fault := if x.overflows then .badSyntax else .wrongData

/-- The fault of a number whose exponent part is `t`, behind its letter. -/
def numberFaultExponent (whole fraction t : Text) : Fault :=
  let (negative, t) := Numeral.splitSign t
  match t with
  | [] => .endOfText
  | c :: _ =>
    if Text.isDigit c then
      let e : Int := Numeral.digitsValue (t.takeWhile Text.isDigit)
      valueFault (.ofParts whole fraction (if negative then -e else e))
    else .badSyntax

def numberFaultFraction (whole : Text) : Text → Fault
  | '.' :: t =>
    let fraction := t.takeWhile Text.isDigit
    match fraction, skipDigits t with
    | [], [] => .endOfText
    | [], _ => .badSyntax
    | _, 'e' :: t => numberFaultExponent whole fraction t
    | _, 'E' :: t => numberFaultExponent whole fraction t
    | _, _ => valueFault (.ofParts whole fraction 0)
  | 'e' :: t => numberFaultExponent whole [] t
  | 'E' :: t => numberFaultExponent whole [] t
  | _ => valueFault (.ofParts whole [] 0)

/-- The fault of a number, from behind its minus sign. -/
def numberFault : Text → Fault
  | [] => .endOfText
  | c :: t =>
    if c = '0' then if startsDigit t then .badSyntax else numberFaultFraction ['0'] t
    else if Text.isDigit c then numberFaultFraction (c :: t.takeWhile Text.isDigit) (skipDigits t)
    else .badSyntax

end ShaderVariant.Json
