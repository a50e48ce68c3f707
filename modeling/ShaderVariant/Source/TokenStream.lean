import ShaderVariant.Error
import ShaderVariant.Number.Binary32

/-!
# Reading tokens

A `TokenStream` is what is left of a text's tokens and the line reached so far. A `Reader` takes tokens off a stream
and gives a value or a fault; the tokens taken before a fault stay taken.

* `TokenStream.next`, `peek?`, `atEnd` : the next token, taken or not, and the end;
* `Reader.check`, `expect` : a given spelling; `ident`, `string`, `int`, `float`, `boolean` : values;
* `Reader.skipPast` : everything up to a mark;
* `Reader.repeatStep` : a step again and again until it is done.

A fault carries the line of the token taken last, or the line of the end when no token is left.
-/

namespace ShaderVariant

/-- The tokens that are left, and the line reached. -/
structure TokenStream where
  source : String
  tokens : List Token.Placed
  line : UInt32
  endLine : UInt32
  deriving DecidableEq, Repr

namespace TokenStream

def ofText (source : String) (t : Text) (firstLine : UInt32) : TokenStream :=
  let (tokens, endLine) := Token.lex t firstLine
  { source, tokens, line := firstLine, endLine }

/-- The next token, left in place. -/
def peek? (s : TokenStream) : Option Token := s.tokens.head?.map (·.token)

/-- The next token, and the stream behind it. At the end the line moves to the end. -/
def next (s : TokenStream) : Option Token × TokenStream :=
  match s.tokens with
  | [] => (none, { s with line := s.endLine })
  | p :: ps => (some p.token, { s with tokens := ps, line := p.line })

/-- Whether no token is left; the line moves to the next token or to the end. -/
def atEnd (s : TokenStream) : Bool × TokenStream :=
  match s.tokens with
  | [] => (true, { s with line := s.endLine })
  | p :: _ => (false, { s with line := p.line })

def error (s : TokenStream) (fault : ParseFault) : ParseError := ⟨s.source, s.line, fault⟩

end TokenStream

/-- Takes tokens and gives a value or a fault. -/
abbrev Reader := EStateM ParseError TokenStream

namespace Reader

def fail {α : Type} (fault : ParseFault) : Reader α := fun s => .error (s.error fault) s

def failAt {α : Type} (line : UInt32) (fault : ParseFault) : Reader α := fun s => .error ⟨s.source, line, fault⟩ s

def line : Reader UInt32 := fun s => .ok s.line s

def sourceName : Reader String := fun s => .ok s.source s

def atEnd : Reader Bool := fun s => .ok s.atEnd.1 s.atEnd.2

/-- Takes the next token and makes a value of it, or a fault. -/
def take {α : Type} (value : Token → Option α) (fault : Option Token → ParseFault) : Reader α := fun s =>
  match s.next with
  | (none, s) => .error (s.error (fault none)) s
  | (some t, s) =>
    match value t with
    | some a => .ok a s
    | none => .error (s.error (fault (some t))) s

def check (text : String) : Reader Bool := fun s =>
  match s.tokens with
  | [] => .ok false s
  | p :: ps => if p.token.spells text then .ok true { s with tokens := ps, line := p.line } else .ok false s

def expect (text : String) : Reader Unit :=
  take (fun t => if t.spells text then some () else none) (.expected text)

def identOf? : Token → Option String
  | .word w => if Text.isIdentifier w.toList then some w else none
  | _ => none

def ident : Reader String := take identOf? .expectedIdentifier

def stringOf? : Token → Option String
  | .quoted t => some t
  | _ => none

def string : Reader String := take stringOf? .expectedString

def intOf? : Token → Option Int
  | .word w => Numeral.int64? w.toList
  | _ => none

def int : Reader Int := take intOf? .expectedInteger

/-- A text without the letters `f` and `F` at its end. -/
def dropFloatSuffix (t : Text) : Text := (t.reverse.dropWhile fun c => c == 'f' || c == 'F').reverse

def floatOf? : Token → Option Binary32
  | .word w => Binary32.parse? (dropFloatSuffix w.toList)
  | _ => none

def float : Reader Binary32 := take floatOf? .expectedNumber

def booleanOf? : Token → Option Bool
  | .word "true" => some true
  | .word "false" => some false
  | _ => none

def boolean : Reader Bool := take booleanOf? .expectedBoolean

/-- Takes tokens up to and including the mark `close`. Its absence is reported at the line where the search began. -/
def skipPast (close : Char) : Reader Unit := fun s =>
  match s.tokens.dropWhile (·.token != .punct close) with
  | p :: ps => .ok () { s with tokens := ps, line := p.line }
  | [] => .error (s.error (.missingClose close)) { s with tokens := [], line := s.endLine }

/-- Repeats a step while it asks for it. A step that takes no token is the last one, so the repetition ends. -/
def repeatStep {β : Type} (step : β → Reader (Bool × β)) (b : β) (s : TokenStream) :
    EStateM.Result ParseError TokenStream β :=
  match step b s with
  | .error e s' => .error e s'
  | .ok (again, b') s' =>
    if _h : again = true ∧ s'.tokens.length < s.tokens.length then repeatStep step b' s' else .ok b' s'
termination_by s.tokens.length
decreasing_by exact _h.2

end Reader

end ShaderVariant
