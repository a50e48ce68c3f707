import ShaderVariant.Text.Basic

/-!
# Tokens

Declarations are read as words, quoted strings and single punctuation marks. Between them stand white space, comments
from `//` to the end of the line, and comments from `/*` to `*/` or, unclosed, to the end.

* `Token.skipTrivia` : passes over what stands between tokens, counting lines;
* `Token.read?` : the token at the start of a text and what follows it;
* `Token.lex` : the tokens of a text, each with its line, and the line of the end.
-/

namespace ShaderVariant

/-- A token: a word, the inside of a quoted string, or a punctuation mark. -/
inductive Token where
  | word (text : String)
  | quoted (text : String)
  | punct (mark : Char)
  deriving DecidableEq, Repr

namespace Token

def spelling : Token → String
  | word t => t
  | quoted t => t
  | punct c => String.singleton c

/-- Whether the token spells `text`, of whatever kind it is. -/
def spells (t : Token) (text : String) : Bool := t.spelling == text

/-- The text of a token in messages: quoted strings keep their quotes. -/
def display : Token → String
  | word t => t
  | quoted t => "\"" ++ t ++ "\""
  | punct c => String.singleton c

/-- A character of a word: a letter, a digit, or one of `_`, `.`, `-` and `+`. -/
def isWordChar (c : Char) : Bool := Text.isAlphanumeric c || c == '_' || c == '.' || c == '-' || c == '+'

/-! ## Between tokens -/

inductive Trivia where
  | blank
  | lineComment
  | blockComment
  deriving DecidableEq, Repr

def lineAfter (c : Char) (line : UInt32) : UInt32 := if c = '\n' then line + 1 else line

/-- Passes over white space and comments: what is left, and its line. -/
def skipTrivia : Trivia → Text → UInt32 → Text × UInt32
  | .blank, '/' :: '/' :: t, line => skipTrivia .lineComment t line
  | .blank, '/' :: '*' :: t, line => skipTrivia .blockComment t line
  | .blank, c :: t, line => if Text.isBlank c then skipTrivia .blank t (lineAfter c line) else (c :: t, line)
  | .lineComment, c :: t, line =>
    if c = '\n' then skipTrivia .blank t (line + 1) else skipTrivia .lineComment t line
  | .blockComment, '*' :: '/' :: t, line => skipTrivia .blank t line
  | .blockComment, c :: t, line => skipTrivia .blockComment t (lineAfter c line)
  | _, [], line => ([], line)

theorem length_skipTrivia_le (k : Trivia) (t : Text) (line : UInt32) : (skipTrivia k t line).1.length ≤ t.length := by
  fun_induction skipTrivia k t line <;> simp_all <;> omega

/-! ## One token -/

/-- A character inside a quoted string. Strings end at the end of their line at the latest. -/
def isQuotedChar (c : Char) : Bool := c != '"' && c != '\n'

def dropQuote : Text → Text
  | '"' :: t => t
  | t => t

theorem length_dropQuote_le (t : Text) : (dropQuote t).length ≤ t.length := by
  unfold dropQuote
  split <;> simp

def read? : Text → Option (Token × Text)
  | [] => none
  | c :: t =>
    if c = '"' then some (quoted (String.ofList (t.takeWhile isQuotedChar)), dropQuote (t.dropWhile isQuotedChar))
    else if isWordChar c then
      some (word (String.ofList (c :: t.takeWhile isWordChar)), t.dropWhile isWordChar)
    else some (punct c, t)

theorem length_lt_of_read? {t rest : Text} {tok : Token} (h : read? t = some (tok, rest)) : rest.length < t.length := by
  cases t with
  | nil => simp [read?] at h
  | cons c t =>
    have hd : ∀ p : Char → Bool, (t.dropWhile p).length ≤ t.length := fun p => (List.dropWhile_sublist p).length_le
    simp only [read?] at h
    split at h
    · simp only [Option.some.injEq, Prod.mk.injEq] at h
      obtain ⟨-, rfl⟩ := h
      exact Nat.lt_succ_of_le (Nat.le_trans (length_dropQuote_le _) (hd _))
    · split at h
      · simp only [Option.some.injEq, Prod.mk.injEq] at h
        obtain ⟨-, rfl⟩ := h
        exact Nat.lt_succ_of_le (hd _)
      · simp only [Option.some.injEq, Prod.mk.injEq] at h
        obtain ⟨-, rfl⟩ := h
        exact Nat.lt_succ_self _

/-! ## All tokens -/

structure Placed where
  token : Token
  line : UInt32
  deriving DecidableEq, Repr

/-- The tokens of a text that starts on line `line`, and the line at which it ends. -/
def lex (t : Text) (line : UInt32) : List Placed × UInt32 :=
  match _h : read? (skipTrivia .blank t line).1 with
  | none => ([], (skipTrivia .blank t line).2)
  | some (tok, rest) =>
    let (toks, last) := lex rest (skipTrivia .blank t line).2
    (⟨tok, (skipTrivia .blank t line).2⟩ :: toks, last)
termination_by t.length
decreasing_by exact Nat.lt_of_lt_of_le (length_lt_of_read? _h) (length_skipTrivia_le _ _ _)

end Token

end ShaderVariant
