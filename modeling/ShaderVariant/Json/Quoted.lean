import ShaderVariant.Json.Basic

/-!
# JSON: strings

* `Json.readString` : the characters of a string, with escapes and paired surrogates; `Json.quote` writes one;
* `Json.skipString` : the text behind a string that is not wanted.

Both start behind the opening quote, and every character that they pass shortens the text.
-/

namespace ShaderVariant.Json

/-! ## Escapes -/

def hexValue? (c : Char) : Option Nat :=
  if '0' ≤ c ∧ c ≤ '9' then some (c.toNat - 48)
  else if 'a' ≤ c ∧ c ≤ 'f' then some (c.toNat - 87)
  else if 'A' ≤ c ∧ c ≤ 'F' then some (c.toNat - 55)
  else none

/-- The number that four hexadecimal digits write. -/
def hexNumber? (a b c d : Char) : Option Nat :=
  match hexValue? a, hexValue? b, hexValue? c, hexValue? d with
  | some a, some b, some c, some d => some (((a * 16 + b) * 16 + c) * 16 + d)
  | _, _, _, _ => none

/-- The number of four hexadecimal digits. Less than four bytes are too few, whatever they are. -/
def readHex : ReaderOf Nat
  | a :: b :: c :: d :: t =>
    match hexNumber? a b c d with
    | some n => .ok (n, t)
    | none => .error .badSyntax
  | t => if t.byteLength < 4 then .error .endOfText else .error .badSyntax

theorem shortens_readHex : Shortens readHex := by
  intro t n rest h
  unfold readHex at h
  split at h
  · split at h
    · cases h
      simp only [List.length_cons]
      omega
    · cases h
  · split at h <;> cases h

/-- Whether a number is the first half of a surrogate pair. -/
def isLeading (n : Nat) : Bool := 0xD800 ≤ n && n ≤ 0xDBFF

/-- Whether a number is the second half of a surrogate pair. -/
def isTrailing (n : Nat) : Bool := 0xDC00 ≤ n && n ≤ 0xDFFF

def ofSurrogates (n m : Nat) : Char := Char.ofNat ((n - 0xD800) * 1024 + (m - 0xDC00) + 0x10000)

/-- The character of a surrogate pair whose first half was `n`: the second half has to follow. -/
def readTrailing (n : Nat) : ReaderOf Char
  | '\\' :: 'u' :: t =>
    match readHex t with
    | .error e => .error e
    | .ok (m, t) => if isTrailing m then .ok (ofSurrogates n m, t) else .error .badSyntax
  | ['\\'] => .error .endOfText
  | [] => .error .endOfText
  | _ => .error .badSyntax

theorem shortens_readTrailing (n : Nat) : Shortens (readTrailing n) := by
  intro t c rest h
  unfold readTrailing at h
  split at h
  · split at h
    · cases h
    · rename_i hx
      split at h
      · simp only [Except.ok.injEq, Prod.mk.injEq] at h
        obtain ⟨-, rfl⟩ := h
        have := shortens_readHex _ _ _ hx
        simp only [List.length_cons]
        omega
      · cases h
  all_goals cases h

def shortEscape? : Char → Option Char
  | '"' => some '"'
  | '\\' => some '\\'
  | '/' => some '/'
  | 'b' => some '\x08'
  | 'f' => some '\x0c'
  | 'n' => some '\n'
  | 'r' => some '\r'
  | 't' => some '\t'
  | _ => none

/-- The character of an escape, behind its backslash. -/
def readEscape : ReaderOf Char
  | [] => .error .endOfText
  | c :: t =>
    if c = 'u' then
      match readHex t with
      | .error e => .error e
      | .ok (n, t) =>
        if isLeading n then readTrailing n t else if isTrailing n then .error .badSyntax else .ok (Char.ofNat n, t)
    else
      match shortEscape? c with
      | some d => .ok (d, t)
      | none => .error .badSyntax

theorem shortens_readEscape : Shortens readEscape := by
  intro t c rest h
  unfold readEscape at h
  split at h
  · cases h
  · split at h
    · split at h
      · cases h
      · rename_i hx
        have hlt := shortens_readHex _ _ _ hx
        split at h
        · have := shortens_readTrailing _ _ _ _ h
          simp only [List.length_cons]
          omega
        · split at h
          · cases h
          · cases h
            simp only [List.length_cons]
            omega
    · split at h
      · cases h
        simp
      · cases h

/-! ## Reading -/

/-- The next character of a string, or nothing at the closing quote. Control characters have to be escaped. -/
def readChar : ReaderOf (Option Char)
  | [] => .error .endOfText
  | c :: t =>
    if c = '"' then .ok (none, t)
    else if c = '\\' then
      match readEscape t with
      | .error e => .error e
      | .ok (d, t) => .ok (some d, t)
    else if c.toNat < 0x20 then .error .badSyntax
    else .ok (some c, t)

theorem shortens_readChar : Shortens readChar := by
  intro t c rest h
  unfold readChar at h
  split at h
  · cases h
  · split at h
    · cases h
      simp
    · split at h
      · split at h
        · cases h
        · rename_i hx
          cases h
          have := shortens_readEscape _ _ _ hx
          simp only [List.length_cons]
          omega
      · split at h
        · cases h
        · cases h
          simp

/-- The worker of `readString`; `seen` is the string so far, last character first. -/
def readStringFrom (seen : Text) (t : Text) : Except Fault (Text × Text) :=
  match _h : readChar t with
  | .error e => .error e
  | .ok (none, rest) => .ok (seen.reverse, rest)
  | .ok (some c, rest) => readStringFrom (c :: seen) rest
termination_by t.length
decreasing_by exact shortens_readChar _ _ _ _h

/-- The characters of a string, behind its opening quote. -/
def readString : ReaderOf Text := readStringFrom []

theorem shortens_readStringFrom (seen : Text) : Shortens (readStringFrom seen) := by
  intro t s rest h
  fun_induction readStringFrom seen t with
  | case1 => cases h
  | case2 seen t r hx =>
    cases h
    exact shortens_readChar _ _ _ hx
  | case3 seen t c r hx ih => exact Nat.lt_trans (ih h) (shortens_readChar _ _ _ hx)

theorem shortens_readString : Shortens readString := shortens_readStringFrom []

/-! ## Skipping -/

/-- Whether a string goes on behind its next character, when the string is not wanted. Half a surrogate pair is fine
here. -/
def skipChar : ReaderOf Bool
  | [] => .error .endOfText
  | c :: t =>
    if c = '"' then .ok (false, t)
    else if c = '\\' then
      match t with
      | [] => .error .endOfText
      | 'u' :: t => readHex.map (fun _ => true) t
      | d :: t => if (shortEscape? d).isSome then .ok (true, t) else .error .badSyntax
    else if c.toNat < 0x20 then .error .badSyntax
    else .ok (true, t)

theorem shortens_skipChar : Shortens skipChar := by
  intro t b rest h
  unfold skipChar at h
  split at h
  · cases h
  · split at h
    · cases h
      simp
    · split at h
      · split at h
        · cases h
        · have := shortens_readHex.map _ _ _ _ h
          simp only [List.length_cons]
          omega
        · split at h
          · cases h
            simp only [List.length_cons]
            omega
          · cases h
      · split at h
        · cases h
        · cases h
          simp

/-- The text behind a string that is not wanted, from behind its opening quote. -/
def skipString (t : Text) : Except Fault Text :=
  match _h : skipChar t with
  | .error e => .error e
  | .ok (false, rest) => .ok rest
  | .ok (true, rest) => skipString rest
termination_by t.length
decreasing_by exact shortens_skipChar _ _ _ _h

theorem length_skipString_lt {t rest : Text} (h : skipString t = .ok rest) : rest.length < t.length := by
  fun_induction skipString t with
  | case1 => cases h
  | case2 t r hx =>
    cases h
    exact shortens_skipChar _ _ _ hx
  | case3 t r hx ih => exact Nat.lt_trans (ih h) (shortens_skipChar _ _ _ hx)

/-! ## Writing -/

def hexChar (n : Nat) : Char := "0123456789abcdef".toList.getD n '0'

/-- A character inside quotes: the quote, the backslash and control characters are escaped, the latter in their short
form if they have one. -/
def escapeChar (c : Char) : Text :=
  if c = '"' then ['\\', '"']
  else if c = '\\' then ['\\', '\\']
  else if c = '\x08' then ['\\', 'b']
  else if c = '\t' then ['\\', 't']
  else if c = '\n' then ['\\', 'n']
  else if c = '\x0c' then ['\\', 'f']
  else if c = '\r' then ['\\', 'r']
  else if c.toNat < 0x20 then ['\\', 'u', '0', '0', hexChar (c.toNat / 16), hexChar (c.toNat % 16)]
  else [c]

def quote (t : Text) : Text := '"' :: (t.flatMap escapeChar ++ ['"'])

end ShaderVariant.Json
