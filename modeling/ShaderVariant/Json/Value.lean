import ShaderVariant.Json.Number
import ShaderVariant.Json.Quoted

/-!
# JSON: values

* `Json.readBool`, `Json.readText` : a truth value and a string;
* `Json.wrongType` : what is wrong with a value of another type;
* `Json.skipValue` : the text behind any value that is not wanted, at any depth, whose form alone is checked.
-/

namespace ShaderVariant.Json

/-! ## Values of the wrong type -/

/-- The fault of a reading that should not have worked out. -/
def faultOf {α : Type} : Except Fault α → Fault
  | .error e => e
  | .ok _ => .wrongData

/-- What is wrong with a value that is not of the type asked for. A value that is not well formed itself has that
fault; arrays and objects are not looked into. -/
def wrongType : Text → Fault
  | [] => .endOfText
  | 'n' :: t => faultOf (skipWord "ull".toList t)
  | 't' :: t => faultOf (skipWord "rue".toList t)
  | 'f' :: t => faultOf (skipWord "alse".toList t)
  | '-' :: t => numberFault t
  | '"' :: t => faultOf (readString t)
  | '[' :: _ => .wrongData
  | '\x7b' :: _ => .wrongData
  | c :: t => if Text.isDigit c then numberFault (c :: t) else .badSyntax

def readWord {α : Type} (w : Text) (a : α) : ReaderOf α := fun t =>
  match skipWord w t with
  | .error e => .error e
  | .ok rest => .ok (a, rest)

theorem length_readWord_le {α : Type} {w t rest : Text} {a b : α} (h : readWord w a t = .ok (b, rest)) :
    rest.length ≤ t.length := by
  simp only [readWord] at h
  split at h
  · cases h
  · rename_i hw
    cases h
    exact length_skipWord_le hw

def readBool : ReaderOf Bool := fun t =>
  match skipSpace t with
  | 't' :: t => readWord "rue".toList true t
  | 'f' :: t => readWord "alse".toList false t
  | t => .error (wrongType t)

theorem shortens_readBool : Shortens readBool := by
  intro t b rest h
  simp only [readBool] at h
  split at h
  · rename_i hs
    exact Nat.lt_of_le_of_lt (length_readWord_le h) (length_lt_of_skipSpace hs)
  · rename_i hs
    exact Nat.lt_of_le_of_lt (length_readWord_le h) (length_lt_of_skipSpace hs)
  · cases h

def readText : ReaderOf Text := fun t =>
  match skipSpace t with
  | '"' :: t => readString t
  | t => .error (wrongType t)

theorem shortens_readText : Shortens readText := by
  intro t s rest h
  simp only [readText] at h
  split at h
  · rename_i hs
    exact Nat.lt_trans (shortens_readString _ _ _ h) (length_lt_of_skipSpace hs)
  · cases h

/-! ## Values that are not wanted -/

/-- What a skipped value is inside of. -/
inductive Enclosing where
  | array
  | object
  deriving DecidableEq, Repr

/-- What comes next when values are skipped: a value, or what may stand behind one. -/
inductive Skip where
  | value
  | behind
  deriving DecidableEq, Repr

/-- What comes next, and what it is inside of, the innermost first. -/
abbrev SkipState := Skip × List Enclosing

def goOn (s : SkipState) : Except Fault Text → Except Fault (SkipState × Text)
  | .error e => .error e
  | .ok rest => .ok (s, rest)

theorem eq_ok_of_goOn {s s' : SkipState} {r : Except Fault Text} {rest : Text} (h : goOn s r = .ok (s', rest)) :
    r = .ok rest := by
  cases r <;> cases h
  rfl

def skipKey (t : Text) : Except Fault Text :=
  match skipSpace t with
  | '"' :: t =>
    match skipString t with
    | .error e => .error e
    | .ok t => skipColon t
  | [] => .error .endOfText
  | _ => .error .badSyntax

theorem length_skipKey_lt {t rest : Text} (h : skipKey t = .ok rest) : rest.length < t.length := by
  unfold skipKey at h
  split at h
  · rename_i hs
    split at h
    · cases h
    · rename_i hk
      exact Nat.lt_trans (length_skipColon_lt h) (Nat.lt_trans (length_skipString_lt hk) (length_lt_of_skipSpace hs))
  · cases h
  · cases h

/-- The text behind a value that is neither array nor object. -/
def skipScalar : Text → Except Fault Text
  | [] => .error .endOfText
  | 'n' :: t => skipWord "ull".toList t
  | 't' :: t => skipWord "rue".toList t
  | 'f' :: t => skipWord "alse".toList t
  | '-' :: t => skipNumber t
  | '"' :: t => skipString t
  | c :: t => if Text.isDigit c then skipNumber (c :: t) else .error .badSyntax

theorem length_skipScalar_lt {t rest : Text} (h : skipScalar t = .ok rest) : rest.length < t.length := by
  unfold skipScalar at h
  split at h
  · cases h
  · exact Nat.lt_succ_of_le (length_skipWord_le h)
  · exact Nat.lt_succ_of_le (length_skipWord_le h)
  · exact Nat.lt_succ_of_le (length_skipWord_le h)
  · exact Nat.lt_succ_of_lt (length_skipNumber_lt h)
  · exact Nat.lt_succ_of_lt (length_skipString_lt h)
  · split at h
    · exact length_skipNumber_lt h
    · cases h

/-- Skips the start of a value, or the whole of it; then says what comes next. -/
def skipStart (outer : List Enclosing) : ReaderOf SkipState := fun t =>
  match skipSpace t with
  | '[' :: t =>
    match skipSpace t with
    | ']' :: t => .ok ((.behind, outer), t)
    | [] => .error .endOfText
    | t => .ok ((.value, .array :: outer), t)
  | '\x7b' :: t =>
    match skipSpace t with
    | '\x7d' :: t => .ok ((.behind, outer), t)
    | t => goOn (.value, .object :: outer) (skipKey t)
  | t => goOn (.behind, outer) (skipScalar t)

theorem shortens_skipStart (outer : List Enclosing) : Shortens (skipStart outer) := by
  intro t s rest h
  simp only [skipStart] at h
  split at h
  · rename_i t' hs
    have hlt := length_lt_of_skipSpace hs
    have hle := length_skipSpace_le t'
    split at h
    · rename_i hs'
      cases h
      exact Nat.lt_trans (length_lt_of_skipSpace hs') hlt
    · cases h
    · cases h
      omega
  · rename_i t' hs
    have hlt := length_lt_of_skipSpace hs
    have hle := length_skipSpace_le t'
    split at h
    · rename_i hs'
      cases h
      exact Nat.lt_trans (length_lt_of_skipSpace hs') hlt
    · have := length_skipKey_lt (eq_ok_of_goOn h)
      omega
  · exact Nat.lt_of_lt_of_le (length_skipScalar_lt (eq_ok_of_goOn h)) (length_skipSpace_le t)

/-- Skips what stands behind a value inside an array or an object. -/
def skipBehind (inner : Enclosing) (outer : List Enclosing) : ReaderOf SkipState := fun t =>
  match inner, skipSpace t with
  | _, [] => .error .endOfText
  | .array, ',' :: t => .ok ((.value, .array :: outer), t)
  | .array, ']' :: t => .ok ((.behind, outer), t)
  | .object, ',' :: t => goOn (.value, .object :: outer) (skipKey t)
  | .object, '\x7d' :: t => .ok ((.behind, outer), t)
  | _, _ => .error .badSyntax

theorem shortens_skipBehind (inner : Enclosing) (outer : List Enclosing) : Shortens (skipBehind inner outer) := by
  intro t s rest h
  simp only [skipBehind] at h
  split at h
  · cases h
  · rename_i hs
    cases h
    exact length_lt_of_skipSpace hs
  · rename_i hs
    cases h
    exact length_lt_of_skipSpace hs
  · rename_i hs
    exact Nat.lt_trans (length_skipKey_lt (eq_ok_of_goOn h)) (length_lt_of_skipSpace hs)
  · rename_i hs
    cases h
    exact length_lt_of_skipSpace hs
  · cases h

/-- Skips piece after piece, until nothing encloses what comes next. -/
def skipPieces : SkipState → Text → Except Fault Text
  | (.behind, []), t => .ok t
  | (.value, outer), t =>
    match _h : skipStart outer t with
    | .error e => .error e
    | .ok (s, rest) => skipPieces s rest
  | (.behind, inner :: outer), t =>
    match _h : skipBehind inner outer t with
    | .error e => .error e
    | .ok (s, rest) => skipPieces s rest
termination_by _ t => t.length
decreasing_by
  · exact shortens_skipStart _ _ _ _ _h
  · exact shortens_skipBehind _ _ _ _ _ _h

theorem length_skipPieces_le {s : SkipState} {t rest : Text} (h : skipPieces s t = .ok rest) :
    rest.length ≤ t.length := by
  fun_induction skipPieces s t with
  | case1 =>
    cases h
    exact Nat.le_refl _
  | case2 => cases h
  | case3 outer t s r hx ih => exact Nat.le_of_lt (Nat.lt_of_le_of_lt (ih h) (shortens_skipStart _ _ _ _ hx))
  | case4 => cases h
  | case5 inner outer t s r hx ih =>
    exact Nat.le_of_lt (Nat.lt_of_le_of_lt (ih h) (shortens_skipBehind _ _ _ _ _ hx))

def skipValue (t : Text) : Except Fault Text := skipPieces (.value, []) t

end ShaderVariant.Json
