import Mathlib.Tactic.SplitIfs
import ShaderVariant.Json.Quoted

/-!
# Strings in JSON

A character of a string has several spellings: itself, a short escape, four hexadecimal digits, or two times four of
them for the halves of a surrogate pair.

* `Json.CharText`, `Json.StringText` : the spellings of a character, and of a string from behind its opening quote;
* `readString_append` : every spelling is read as what it spells, whatever stands behind it;
* `stringText_quote` : what is written is a spelling, so it is read back;
* `Json.SkippedText` : the strings that are skipped, in which half a surrogate pair may stand (`skipString_append`).
-/

namespace ShaderVariant.Json

/-! ## Spellings -/

/-- The spellings of a character inside quotes. -/
inductive CharText : Char → Text → Prop
  | plain {c : Char} (hquote : c ≠ '"') (hslash : c ≠ '\\') (hcontrol : 0x20 ≤ c.toNat) : CharText c [c]
  | short {c e : Char} (h : shortEscape? e = some c) : CharText c ['\\', e]
  | hex {c w x y z : Char} (h : hexNumber? w x y z = some c.toNat) : CharText c ['\\', 'u', w, x, y, z]
  | pair {c w x y z w' x' y' z' : Char} {n m : Nat} (h : hexNumber? w x y z = some n)
      (h' : hexNumber? w' x' y' z' = some m) (hn : isLeading n = true) (hm : isTrailing m = true)
      (hc : c.toNat = (n - 0xD800) * 1024 + (m - 0xDC00) + 0x10000) :
      CharText c ['\\', 'u', w, x, y, z, '\\', 'u', w', x', y', z']

/-- The spellings of a string, with the quote that ends them. -/
inductive StringText : Text → Text → Prop
  | nil : StringText [] ['"']
  | cons {c : Char} {s w t : Text} (hc : CharText c w) (h : StringText s t) : StringText (c :: s) (w ++ t)

/-! ## Reading -/

theorem readHex_cons {w x y z : Char} {n : Nat} (h : hexNumber? w x y z = some n) (rest : Text) :
    readHex (w :: x :: y :: z :: rest) = .ok (n, rest) := by
  simp only [readHex, h]

/-- No character is half a surrogate pair. -/
theorem not_surrogate (c : Char) : isLeading c.toNat = false ∧ isTrailing c.toNat = false := by
  have h : c.toNat < 0xD800 ∨ 0xDFFF < c.toNat ∧ c.toNat < 0x110000 := c.valid
  simp only [isLeading, isTrailing, Bool.and_eq_false_iff, decide_eq_false_iff_not]
  omega

theorem readEscape_short {c e : Char} (h : shortEscape? e = some c) (rest : Text) :
    readEscape (e :: rest) = .ok (c, rest) := by
  have hu : e ≠ 'u' := by
    rintro rfl
    cases h
  rw [readEscape, if_neg hu, h]

theorem readEscape_hex {c w x y z : Char} (h : hexNumber? w x y z = some c.toNat) (rest : Text) :
    readEscape ('u' :: w :: x :: y :: z :: rest) = .ok (c, rest) := by
  obtain ⟨hleading, htrailing⟩ := not_surrogate c
  simp only [readEscape, readHex_cons h, hleading, htrailing, if_true, Bool.false_eq_true, if_false, Char.ofNat_toNat]

theorem readEscape_pair {c w x y z w' x' y' z' : Char} {n m : Nat} (h : hexNumber? w x y z = some n)
    (h' : hexNumber? w' x' y' z' = some m) (hn : isLeading n = true) (hm : isTrailing m = true)
    (hc : c.toNat = (n - 0xD800) * 1024 + (m - 0xDC00) + 0x10000) (rest : Text) :
    readEscape ('u' :: w :: x :: y :: z :: '\\' :: 'u' :: w' :: x' :: y' :: z' :: rest) = .ok (c, rest) := by
  have hpair : ofSurrogates n m = c := by
    rw [ofSurrogates, ← hc, Char.ofNat_toNat]
  simp only [readEscape, readTrailing, readHex_cons h, readHex_cons h', hn, hm, if_true, hpair]

theorem readChar_append {c : Char} {w : Text} (h : CharText c w) (rest : Text) :
    readChar (w ++ rest) = .ok (some c, rest) := by
  have hescape : ∀ t, readChar ('\\' :: t) = (readEscape t).map fun p => (some p.1, p.2) := by
    intro t
    rw [readChar, if_neg (by decide), if_pos rfl]
    cases readEscape t <;> rfl
  cases h with
  | plain hquote hslash hcontrol =>
    show readChar (c :: rest) = _
    rw [readChar, if_neg hquote, if_neg hslash, if_neg (Nat.not_lt.2 hcontrol)]
  | short h =>
    show readChar ('\\' :: _ :: rest) = _
    rw [hescape, readEscape_short h]
    rfl
  | hex h =>
    show readChar ('\\' :: 'u' :: _ :: _ :: _ :: _ :: rest) = _
    rw [hescape, readEscape_hex h]
    rfl
  | pair h h' hn hm hc =>
    show readChar ('\\' :: 'u' :: _ :: _ :: _ :: _ :: '\\' :: 'u' :: _ :: _ :: _ :: _ :: rest) = _
    rw [hescape, readEscape_pair h h' hn hm hc]
    rfl

theorem readStringFrom_append {s t : Text} (h : StringText s t) (seen rest : Text) :
    readStringFrom seen (t ++ rest) = .ok (seen.reverse ++ s, rest) := by
  induction h generalizing seen with
  | nil =>
    rw [readStringFrom, show readChar (['"'] ++ rest) = .ok (none, rest) from rfl, List.append_nil]
  | @cons c s w t hc _ ih =>
    rw [List.append_assoc, readStringFrom, readChar_append hc]
    simp only [ih (c :: seen), List.reverse_cons, List.append_assoc, List.singleton_append]

/-- Every spelling of a string is read as the string. -/
theorem readString_append {s t : Text} (h : StringText s t) (rest : Text) : readString (t ++ rest) = .ok (s, rest) :=
  readStringFrom_append h [] rest

/-! ## Writing -/

theorem hexNumber?_hexChar : ∀ n < 0x20, hexNumber? '0' '0' (hexChar (n / 16)) (hexChar (n % 16)) = some n := by
  decide

theorem charText_escapeChar (c : Char) : CharText c (escapeChar c) := by
  unfold escapeChar
  split_ifs with hquote hslash _ _ _ _ _ hcontrol
  iterate 7
    · subst c
      exact .short rfl
  · exact .hex (hexNumber?_hexChar c.toNat hcontrol)
  · exact .plain hquote hslash (Nat.not_lt.1 hcontrol)

theorem stringText_quote (s : Text) : StringText s (s.flatMap escapeChar ++ ['"']) := by
  induction s with
  | nil => exact .nil
  | cons c s ih =>
    rw [List.flatMap_cons, List.append_assoc]
    exact .cons (charText_escapeChar c) ih

/-! ## Skipping -/

/-- A character of a string that is skipped. What its digits say does not matter. -/
inductive SkippedChar : Text → Prop
  | plain {c : Char} (hquote : c ≠ '"') (hslash : c ≠ '\\') (hcontrol : 0x20 ≤ c.toNat) : SkippedChar [c]
  | short {e : Char} (h : (shortEscape? e).isSome) : SkippedChar ['\\', e]
  | hex {w x y z : Char} (h : (hexNumber? w x y z).isSome) : SkippedChar ['\\', 'u', w, x, y, z]

inductive SkippedText : Text → Prop
  | nil : SkippedText ['"']
  | cons {w t : Text} (hc : SkippedChar w) (h : SkippedText t) : SkippedText (w ++ t)

theorem skipChar_append {w : Text} (h : SkippedChar w) (rest : Text) : skipChar (w ++ rest) = .ok (true, rest) := by
  cases h with
  | @plain c hquote hslash hcontrol =>
    show skipChar (c :: rest) = _
    simp only [skipChar, hquote, hslash, if_false, Nat.not_lt.2 hcontrol]
  | @short e h =>
    have hu : e ≠ 'u' := by
      rintro rfl
      cases h
    show skipChar ('\\' :: e :: rest) = _
    simp [skipChar, h]
  | hex h =>
    obtain ⟨n, h⟩ := Option.isSome_iff_exists.1 h
    show skipChar ('\\' :: 'u' :: _ :: _ :: _ :: _ :: rest) = _
    simp only [skipChar, ReaderOf.map, readHex_cons h]
    rfl

theorem skipString_append {t : Text} (h : SkippedText t) (rest : Text) : skipString (t ++ rest) = .ok rest := by
  induction h with
  | nil => rw [skipString, show skipChar (['"'] ++ rest) = .ok (false, rest) from rfl]
  | cons hc _ ih =>
    rw [List.append_assoc, skipString, skipChar_append hc]
    exact ih

end ShaderVariant.Json
