/-!
# Text

Source text is a list of characters; positions in it are byte offsets of its UTF-8 encoding.

* `Text.byteLength` : the length in bytes; `byteLength_append`;
* `Text.splitBytes n t` : cuts `t` at the last character boundary not after byte `n`
  (`splitBytes_append` : nothing is lost, `byteLength_splitBytes_le` : the first part is at most `n` bytes long);
* `Text.isBlank`, `trimStart`, `trimEnd`, `trim` : white space as Unicode's `White_Space` has it;
* `Text.splitLines`, `Text.lines` : lines with and without their terminators (`flatten_splitLines`);
* `Text.newlines` : how many line feeds a text holds;
* `Text.splitWhere` : the pieces between separators.
-/

namespace ShaderVariant

/-- Source text, character by character. -/
abbrev Text := List Char

namespace Text

/-! ## Byte offsets -/

/-- The number of bytes of the UTF-8 encoding. -/
def byteLength : Text → Nat
  | [] => 0
  | c :: t => c.utf8Size + byteLength t

@[simp] theorem byteLength_nil : byteLength [] = 0 := rfl

@[simp] theorem byteLength_cons (c : Char) (t : Text) : byteLength (c :: t) = c.utf8Size + byteLength t :=
  rfl

@[simp] theorem byteLength_append (s t : Text) : byteLength (s ++ t) = byteLength s + byteLength t := by
  induction s with
  | nil => simp
  | cons c s ih => simp [ih, Nat.add_assoc]

/-- The worker of `splitBytes`; `seen` is the part already passed, last character first. -/
def splitBytesFrom (seen : Text) : Nat → Text → Text × Text
  | _, [] => (seen.reverse, [])
  | n, c :: t =>
    if c.utf8Size ≤ n then splitBytesFrom (c :: seen) (n - c.utf8Size) t else (seen.reverse, c :: t)

/-- The longest part at the front of `t` that takes at most `n` bytes, and the rest. -/
def splitBytes (n : Nat) (t : Text) : Text × Text := splitBytesFrom [] n t

theorem splitBytesFrom_eq (seen : Text) (n : Nat) (t : Text) :
    splitBytesFrom seen n t = (seen.reverse ++ (splitBytes n t).1, (splitBytes n t).2) := by
  induction t generalizing seen n with
  | nil => simp [splitBytesFrom, splitBytes]
  | cons c t ih =>
    by_cases h : c.utf8Size ≤ n
    · simp [splitBytes, splitBytesFrom, h, ih (c :: seen), ih [c]]
    · simp [splitBytes, splitBytesFrom, h]

@[simp] theorem splitBytes_nil (n : Nat) : splitBytes n [] = ([], []) := rfl

theorem splitBytes_cons (n : Nat) (c : Char) (t : Text) :
    splitBytes n (c :: t) =
      if c.utf8Size ≤ n then (c :: (splitBytes (n - c.utf8Size) t).1, (splitBytes (n - c.utf8Size) t).2)
      else ([], c :: t) := by
  by_cases h : c.utf8Size ≤ n <;> simp [splitBytes, splitBytesFrom, h]
  simpa [splitBytes] using splitBytesFrom_eq [c] (n - c.utf8Size) t

/-- A cut loses nothing. -/
theorem splitBytes_append (n : Nat) (t : Text) : (splitBytes n t).1 ++ (splitBytes n t).2 = t := by
  induction t generalizing n with
  | nil => rfl
  | cons c t ih => by_cases h : c.utf8Size ≤ n <;> simp [splitBytes_cons, h, ih]

theorem byteLength_splitBytes_le (n : Nat) (t : Text) : byteLength (splitBytes n t).1 ≤ n := by
  induction t generalizing n with
  | nil => simp
  | cons c t ih =>
    by_cases h : c.utf8Size ≤ n
    · have := ih (n - c.utf8Size)
      simp only [splitBytes_cons, h, if_true, byteLength_cons]
      omega
    · simp [splitBytes_cons, h]

/-- The last character boundary of `t` that is not after byte `n`. -/
def floorBoundary (n : Nat) (t : Text) : Nat := byteLength (splitBytes n t).1

/-! ## White space -/

/-- Unicode's `White_Space`. -/
def isBlank (c : Char) : Bool :=
  let n := c.toNat
  (0x09 ≤ n && n ≤ 0x0D) || n == 0x20 || n == 0x85 || n == 0xA0 || n == 0x1680 || (0x2000 ≤ n && n ≤ 0x200A) ||
    n == 0x2028 || n == 0x2029 || n == 0x202F || n == 0x205F || n == 0x3000

def trimStart (t : Text) : Text := t.dropWhile isBlank

def trimEnd (t : Text) : Text := (t.reverse.dropWhile isBlank).reverse

def trim (t : Text) : Text := (t.trimStart).trimEnd

/-! ## Letters and digits -/

def isLetter (c : Char) : Bool := c.isAlpha

def isDigit (c : Char) : Bool := c.isDigit

/-- An unaccented letter or a digit. -/
def isAlphanumeric (c : Char) : Bool := isLetter c || isDigit c

def isIdentifierChar (c : Char) : Bool := isAlphanumeric c || c == '_'

def isIdentifierStart (c : Char) : Bool := isLetter c || c == '_'

/-- An identifier: it starts with a letter or `_` and goes on with letters, digits and `_`. -/
def isIdentifier : Text → Bool
  | [] => false
  | c :: t => isIdentifierStart c && t.all isIdentifierChar

/-! ## Lines -/

/-- Puts a character before the lines that follow it; a line feed ends its line. -/
def consLine (c : Char) (ls : List Text) : List Text :=
  if c = '\n' then [c] :: ls
  else match ls with
    | [] => [[c]]
    | l :: ls => (c :: l) :: ls

/-- The lines of a text, each with the line feed that ends it. -/
def splitLines (t : Text) : List Text := t.foldr consLine []

@[simp] theorem splitLines_nil : splitLines [] = [] := rfl

@[simp] theorem splitLines_cons (c : Char) (t : Text) : splitLines (c :: t) = consLine c (splitLines t) := rfl

theorem flatten_consLine (c : Char) (ls : List Text) : (consLine c ls).flatten = c :: ls.flatten := by
  unfold consLine
  split
  · simp
  · cases ls <;> simp

theorem flatten_splitLines (t : Text) : (splitLines t).flatten = t := by
  induction t with
  | nil => rfl
  | cons c t ih => rw [splitLines_cons, flatten_consLine, ih]

theorem length_consLine_le (c : Char) (ls : List Text) : (consLine c ls).length ≤ ls.length + 1 := by
  unfold consLine
  split
  · exact Nat.le_refl _
  · cases ls <;> simp

theorem length_splitLines_le (t : Text) : (splitLines t).length ≤ t.length := by
  induction t with
  | nil => exact Nat.le_refl _
  | cons c t ih => exact Nat.le_trans (length_consLine_le c _) (Nat.succ_le_succ ih)

/-- A line without its terminator, a line feed or a carriage return and a line feed. -/
def stripTerminator (line : Text) : Text :=
  match line.reverse with
  | '\n' :: '\r' :: r => r.reverse
  | '\n' :: r => r.reverse
  | _ => line

def lines (t : Text) : List Text := t.splitLines.map stripTerminator

def newlines (t : Text) : Nat := t.count '\n'

def endsLine (t : Text) : Bool := t.getLast? == some '\n'

/-! ## Parts -/

/-- Puts a character before the pieces that follow it; a separator starts a new piece. -/
def consPiece (separates : Char → Bool) (c : Char) (pieces : List Text) : List Text :=
  if separates c then [] :: pieces
  else match pieces with
    | [] => [[c]]
    | p :: ps => (c :: p) :: ps

/-- The pieces of a text between separators, empty ones among them. -/
def splitWhere (separates : Char → Bool) (t : Text) : List Text := t.foldr (consPiece separates) [[]]

/-- The rest of `t` after `mark`, if `t` starts with it. -/
def stripFront? (mark t : Text) : Option Text := if mark.isPrefixOf t then some (t.drop mark.length) else none

def stripBack? (mark t : Text) : Option Text := if mark.isSuffixOf t then some (t.take (t.length - mark.length)) else none

end Text

end ShaderVariant
