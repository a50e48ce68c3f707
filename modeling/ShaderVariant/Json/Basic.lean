import ShaderVariant.Text.Basic

/-!
# JSON: reading

What reading JSON may fail with, and the smallest pieces of it.

* `Json.Fault` : a fault is one of three kinds, and the first one from the left counts;
* `Json.Shortens` : a reader leaves less of a text than it was given;
* `Json.skipSpace`, `skipWord`, `skipColon` : the text behind white space, a word, a colon.
-/

namespace ShaderVariant.Json

/-- What is wrong with a JSON text: it ends too early, a value has the wrong type or a field comes twice, or it is not
JSON. -/
inductive Fault where
  | endOfText
  | wrongData
  | badSyntax
  deriving DecidableEq, Repr

/-- A reader of values from the front of a text. -/
abbrev ReaderOf (α : Type) := Text → Except Fault (α × Text)

/-- Every value that is read takes at least one character. -/
def Shortens {α : Type} (read : ReaderOf α) : Prop := ∀ t a rest, read t = .ok (a, rest) → rest.length < t.length

def ReaderOf.map {α β : Type} (f : α → β) (read : ReaderOf α) : ReaderOf β := fun t =>
  match read t with
  | .error e => .error e
  | .ok (a, rest) => .ok (f a, rest)

theorem Shortens.map {α β : Type} {read : ReaderOf α} (h : Shortens read) (f : α → β) : Shortens (read.map f) := by
  intro t b rest hr
  simp only [ReaderOf.map] at hr
  split at hr
  · cases hr
  · rename_i a r hok
    cases hr
    exact h t a rest hok

def isSpace (c : Char) : Bool := c == ' ' || c == '\n' || c == '\t' || c == '\r'

def skipSpace (t : Text) : Text := t.dropWhile isSpace

theorem length_skipSpace_le (t : Text) : (skipSpace t).length ≤ t.length := (List.dropWhile_sublist _).length_le

theorem length_lt_of_skipSpace {t rest : Text} {c : Char} (h : skipSpace t = c :: rest) : rest.length < t.length := by
  have := length_skipSpace_le t
  simp only [h, List.length_cons] at this
  omega

def skipWord : Text → Text → Except Fault Text
  | [], t => .ok t
  | _ :: _, [] => .error .endOfText
  | c :: w, d :: t => if c = d then skipWord w t else .error .badSyntax

theorem length_skipWord_le {w t rest : Text} (h : skipWord w t = .ok rest) : rest.length ≤ t.length := by
  induction w generalizing t with
  | nil =>
    cases h
    exact Nat.le_refl _
  | cons c w ih =>
    cases t with
    | nil => simp [skipWord] at h
    | cons d t =>
      simp only [skipWord] at h
      split at h
      · exact Nat.le_succ_of_le (ih h)
      · cases h

def skipColon (t : Text) : Except Fault Text :=
  match skipSpace t with
  | ':' :: t => .ok t
  | [] => .error .endOfText
  | _ => .error .badSyntax

theorem length_skipColon_lt {t rest : Text} (h : skipColon t = .ok rest) : rest.length < t.length := by
  unfold skipColon at h
  split at h
  · rename_i hs
    cases h
    exact length_lt_of_skipSpace hs
  · cases h
  · cases h

end ShaderVariant.Json
