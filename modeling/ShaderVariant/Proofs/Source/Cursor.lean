import ShaderVariant.Proofs.Source.Layout
import ShaderVariant.Source.TokenStream

/-!
# Reading on demand

A stream holds all tokens of a text from the start. A cursor holds a place in the text, and passes over white space and
comments only when a token is asked for. Both answer alike.

* `Cursor` : a place in a text and its line, with `Cursor.next`, `peek?`, `check` and `atEnd`;
* `Tokenizer` : what answers calls; `Tokenizer.ahead`, `Tokenizer.onDemand` : a stream and a cursor;
* `Cursor.Sees` : a stream holds the tokens that a cursor comes to; `Sees.ask` : so it is after every call;
* `lex_exact` : the tokens of a text, their places and lines, and what any calls make of them.
-/

namespace ShaderVariant

open Token (Placed Gap Spells Covers Starts lex skipTrivia)

/-! ## Cursors -/

/-- A place in a text: what is left of it, and the line. -/
structure Cursor where
  rest : Text
  line : UInt32
  deriving DecidableEq, Repr

namespace Cursor

def advance (c : Cursor) (rest : Text) : Cursor :=
  ⟨rest, c.line + UInt32.ofNat (Text.newlines (c.rest.take (c.rest.length - rest.length)))⟩

def skip (c : Cursor) : Cursor := c.advance (skipTrivia .blank c.rest c.line).1

def next (c : Cursor) : Option Token × Cursor :=
  match Token.read? c.skip.rest with
  | none => (none, c.skip)
  | some (tok, rest) => (some tok, c.skip.advance rest)

def peek? (c : Cursor) : Option Token := c.next.1

def check (text : String) (c : Cursor) : Bool × Cursor :=
  if c.peek?.any (·.spells text) then (true, c.next.2) else (false, c)

def atEnd (c : Cursor) : Bool × Cursor := (c.skip.rest.isEmpty, c.skip)

theorem advance_append (g rest : Text) (line : UInt32) :
    advance ⟨g ++ rest, line⟩ rest = ⟨rest, line + UInt32.ofNat g.newlines⟩ := by
  unfold advance
  rw [List.length_append, Nat.add_sub_cancel, List.take_left]

/-- A cursor is in front of a gap and a token, or of the last gap. -/
theorem exists_ahead (c : Cursor) :
    Gap true c.rest ∨
      ∃ g lexeme after tok, Gap false g ∧ Spells [] lexeme after tok ∧ c.rest = g ++ lexeme ++ after := by
  obtain ⟨last, g, rest, ht, hg, ⟨rfl, rfl⟩ | ⟨rfl, hstarts⟩⟩ := Token.exists_gap c.rest
  · rw [ht, List.append_nil]
    exact Or.inl hg
  · obtain ⟨lexeme, after, tok, rfl, hspells⟩ := Token.exists_spells (Token.apart_nil rest) hstarts
    exact Or.inr ⟨g, lexeme, after, tok, hg, hspells, by rw [ht, List.append_assoc]⟩

variable {g lexeme after : Text} {tok : Token}

theorem skip_last (hg : Gap true g) (line : UInt32) : skip ⟨g, line⟩ = ⟨[], line + UInt32.ofNat g.newlines⟩ := by
  have h := advance_append g [] line
  rw [List.append_nil] at h
  unfold skip
  rw [hg.skip_last, h]

theorem skip_token (hg : Gap false g) (h : Spells [] lexeme after tok) (line : UInt32) :
    skip ⟨g ++ lexeme ++ after, line⟩ = ⟨lexeme ++ after, line + UInt32.ofNat g.newlines⟩ := by
  unfold skip
  rw [List.append_assoc, hg.skip_front h.starts, advance_append]

theorem next_last (hg : Gap true g) (line : UInt32) :
    next ⟨g, line⟩ = (none, ⟨[], line + UInt32.ofNat g.newlines⟩) := by
  unfold next
  rw [skip_last hg]
  rfl

theorem next_token (hg : Gap false g) (h : Spells [] lexeme after tok) (line : UInt32) :
    next ⟨g ++ lexeme ++ after, line⟩ = (some tok, ⟨after, line + UInt32.ofNat g.newlines⟩) := by
  unfold next
  rw [skip_token hg h]
  simp only [h.read, advance_append, h.newlines_eq, Text.lineAfter_zero]

end Cursor

/-! ## Calls -/

inductive TokenCall where
  | next
  | peek
  | check (text : String)
  | atEnd
  deriving DecidableEq, Repr

inductive TokenAnswer where
  | token (tok : Option Token)
  | truth (b : Bool)
  deriving DecidableEq, Repr

/-- Something that tokens are read from, with its line. -/
structure Tokenizer (σ : Type) where
  ask : TokenCall → σ → TokenAnswer × σ
  line : σ → UInt32

namespace Tokenizer

/-- Tokens that were read ahead. -/
def ahead : Tokenizer TokenStream where
  ask
    | .next, s => (.token s.next.1, s.next.2)
    | .peek, s => (.token s.peek?, s)
    | .check text, s =>
      match Reader.check text s with
      | .ok b s => (.truth b, s)
      | .error _ s => (.truth false, s)
    | .atEnd, s => (.truth s.atEnd.1, s.atEnd.2)
  line := TokenStream.line

/-- Tokens that are read when they are asked for. -/
def onDemand : Tokenizer Cursor where
  ask
    | .next, c => (.token c.next.1, c.next.2)
    | .peek, c => (.token c.peek?, c)
    | .check text, c => (.truth (c.check text).1, (c.check text).2)
    | .atEnd, c => (.truth c.atEnd.1, c.atEnd.2)
  line := Cursor.line

variable {σ : Type} (z : Tokenizer σ)

def after (calls : List TokenCall) (s : σ) : σ := calls.foldl (fun s call => (z.ask call s).2) s

/-- The answers to calls, each with the line right after it. -/
def heard : List TokenCall → σ → List (TokenAnswer × UInt32)
  | [], _ => []
  | call :: calls, s => ((z.ask call s).1, z.line (z.ask call s).2) :: heard calls (z.ask call s).2

/-- The token that a call takes, with the line right after it. -/
def taken? (call : TokenCall) (s : σ) : Option Placed :=
  match call, (z.ask call s).1, (z.ask .peek s).1 with
  | .next, .token tok, _ => tok.map fun tok => ⟨tok, z.line (z.ask call s).2⟩
  | .check _, .truth true, .token tok => tok.map fun tok => ⟨tok, z.line (z.ask call s).2⟩
  | _, _, _ => none

/-- The tokens that calls take, each with the line right after the call. -/
def taken : List TokenCall → σ → List Placed
  | [], _ => []
  | call :: calls, s => (z.taken? call s).toList ++ taken calls (z.ask call s).2

/-- The answers if the next token is asked for again and again. -/
def dealt (endLine : UInt32) : List Placed → Nat → List (TokenAnswer × UInt32)
  | _, 0 => []
  | [], n + 1 => (.token none, endLine) :: dealt endLine [] n
  | p :: ps, n + 1 => (.token (some p.token), p.line) :: dealt endLine ps n

/-- Calls take tokens in order, and leave the others. -/
theorem taken_append_tokens (calls : List TokenCall) (s : TokenStream) :
    ahead.taken calls s ++ (ahead.after calls s).tokens = s.tokens ∧
      (ahead.after calls s).endLine = s.endLine := by
  induction calls generalizing s with
  | nil => exact ⟨rfl, rfl⟩
  | cons call calls ih =>
    obtain ⟨htokens, hend⟩ := ih (ahead.ask call s).2
    have hcall : (ahead.taken? call s).toList ++ (ahead.ask call s).2.tokens = s.tokens ∧
        (ahead.ask call s).2.endLine = s.endLine := by
      obtain ⟨source, tokens, line, endLine⟩ := s
      match call, tokens with
      | .next, [] => exact ⟨rfl, rfl⟩
      | .next, _ :: _ => exact ⟨rfl, rfl⟩
      | .peek, _ => exact ⟨rfl, rfl⟩
      | .atEnd, [] => exact ⟨rfl, rfl⟩
      | .atEnd, _ :: _ => exact ⟨rfl, rfl⟩
      | .check _, [] => exact ⟨rfl, rfl⟩
      | .check text, p :: ps =>
        cases hspells : p.token.spells text <;> simp [taken?, ahead, Reader.check, hspells, TokenStream.peek?]
    refine ⟨?_, hend.trans hcall.2⟩
    rw [← hcall.1, ← htokens, ← List.append_assoc]
    rfl

theorem heard_next (n : Nat) (s : TokenStream) :
    ahead.heard (List.replicate n .next) s = dealt s.endLine s.tokens n := by
  induction n generalizing s with
  | zero => cases s.tokens <;> rfl
  | succ n ih =>
    rw [List.replicate_succ, heard, ih]
    obtain ⟨source, tokens, line, endLine⟩ := s
    cases tokens <;> rfl

end Tokenizer

/-! ## Streams and cursors -/

/-- A stream holds the tokens that a cursor comes to. -/
structure Cursor.Sees (c : Cursor) (s : TokenStream) : Prop where
  tokens : s.tokens = (lex c.rest c.line).1
  endLine : s.endLine = (lex c.rest c.line).2
  line : s.line = c.line

namespace Cursor.Sees

open Tokenizer (ahead onDemand)

variable {c : Cursor} {s : TokenStream}

/-- Both answer a call alike, and the stream holds what is left behind it. -/
theorem ask (h : c.Sees s) (call : TokenCall) :
    (onDemand.ask call c).1 = (ahead.ask call s).1 ∧ (onDemand.ask call c).2.Sees (ahead.ask call s).2 := by
  obtain ⟨rest, line⟩ := c
  obtain ⟨source, tokens, line', endLine⟩ := s
  obtain ⟨htokens, hend, hline⟩ := h
  simp only at htokens hend hline
  subst hline
  have hsees : Sees ⟨rest, line'⟩ ⟨source, tokens, line', endLine⟩ := ⟨htokens, hend, rfl⟩
  obtain hg | ⟨g, lexeme, after, tok, hg, hspells, rfl⟩ := exists_ahead ⟨rest, line'⟩
  · have hlast : ∀ line, lex [] line = ([], line) := fun line => by
      rw [Token.lex_gap .empty, Text.lineAfter_nil]
    have hnext := next_last hg line'
    have hskip := skip_last hg line'
    rw [Token.lex_gap hg] at htokens hend
    subst htokens hend
    have hdone : Sees ⟨[], line' + UInt32.ofNat rest.newlines⟩
        ⟨source, [], line' + UInt32.ofNat rest.newlines, line' + UInt32.ofNat rest.newlines⟩ :=
      ⟨by rw [hlast], by rw [hlast], rfl⟩
    cases call with
    | next =>
      simp only [onDemand, ahead, hnext]
      exact ⟨rfl, hdone⟩
    | peek =>
      simp only [onDemand, ahead, peek?, hnext]
      exact ⟨rfl, hsees⟩
    | check text =>
      simp only [onDemand, ahead, check, peek?, hnext, Reader.check]
      exact ⟨rfl, hsees⟩
    | atEnd =>
      simp only [onDemand, ahead, atEnd, hskip]
      exact ⟨rfl, hdone⟩
  · have hnext := next_token hg hspells line'
    have hskip := skip_token hg hspells line'
    rw [Token.lex_token hg hspells] at htokens hend
    subst htokens hend
    generalize line' + UInt32.ofNat g.newlines = line at *
    have hbehind : Sees ⟨after, line⟩ ⟨source, (lex after line).1, line, (lex after line).2⟩ := ⟨rfl, rfl, rfl⟩
    cases call with
    | next =>
      simp only [onDemand, ahead, hnext]
      exact ⟨rfl, hbehind⟩
    | peek =>
      simp only [onDemand, ahead, peek?, hnext]
      exact ⟨rfl, hsees⟩
    | check text =>
      simp only [onDemand, ahead, check, peek?, hnext, Reader.check, Option.any_some]
      split
      · exact ⟨rfl, hbehind⟩
      · exact ⟨rfl, hsees⟩
    | atEnd =>
      obtain ⟨c, u, hcons, -⟩ := hspells.starts
      have hfront := Token.lex_token .empty hspells line
      rw [List.nil_append, Text.lineAfter_nil] at hfront
      simp only [onDemand, ahead, atEnd, hskip]
      refine ⟨by rw [hcons]; rfl, ?_, ?_, rfl⟩
      · rw [hfront]
        rfl
      · rw [hfront]
        rfl

/-- So they answer many calls alike, and take the same tokens. -/
theorem run (h : c.Sees s) (calls : List TokenCall) :
    onDemand.heard calls c = ahead.heard calls s ∧ onDemand.taken calls c = ahead.taken calls s ∧
      (onDemand.after calls c).Sees (ahead.after calls s) := by
  induction calls generalizing c s with
  | nil => exact ⟨rfl, rfl, h⟩
  | cons call calls ih =>
    obtain ⟨hanswer, hsees⟩ := h.ask call
    have hline : onDemand.line (onDemand.ask call c).2 = ahead.line (ahead.ask call s).2 := hsees.line.symm
    have htook : onDemand.taken? call c = ahead.taken? call s := by
      unfold Tokenizer.taken?
      rw [hanswer, (h.ask .peek).1, hline]
    obtain ⟨hheard, htaken, hafter⟩ := ih hsees
    refine ⟨?_, ?_, hafter⟩
    · rw [Tokenizer.heard, Tokenizer.heard, hanswer, hline, hheard]
    · rw [Tokenizer.taken, Tokenizer.taken, htook, htaken]

end Cursor.Sees

open Tokenizer (ahead onDemand dealt) in
/-- Every text, on whatever line it starts, is read as follows.

* It is covered by its tokens and the gaps between them, in front and behind, in one way only. A word is as long as it
  can be, a string has its quotes with it, and the line of a token is that of its first character.
* There are no more tokens than characters.
* After any calls, in any order and number, the tokens taken so far, with the lines right after they were taken, are the
  first ones of the text, and taking what comes next again and again gives all the others in order and then none.
* Tokens that are read on demand are those that are read ahead, with the same answers and lines for all calls. -/
theorem lex_exact (t : Text) (first : UInt32) :
    (∀ toks, Covers first [] t toks ↔ toks = (lex t first).1) ∧
    (lex t first).2 = first + UInt32.ofNat t.newlines ∧
    (lex t first).1.length ≤ t.length ∧
    (∀ calls, ∃ left, onDemand.taken calls ⟨t, first⟩ ++ left = (lex t first).1 ∧
      ∀ n, onDemand.heard (List.replicate n .next) (onDemand.after calls ⟨t, first⟩) = dealt (lex t first).2 left n) ∧
    (∀ source calls, onDemand.heard calls ⟨t, first⟩ = ahead.heard calls (TokenStream.ofText source t first)) := by
  have hsees (source : String) : Cursor.Sees ⟨t, first⟩ (TokenStream.ofText source t first) := ⟨rfl, rfl, rfl⟩
  have hcovers := Token.covers_iff.2 (Eq.refl (lex t first).1)
  refine ⟨fun toks => Token.covers_iff, ?_, hcovers.length_le, fun calls => ?_, fun source calls => ?_⟩
  · have hend := (Token.covers_lex first (Token.apart_nil t)).2
    rwa [Text.lineAfter_nil] at hend
  · obtain ⟨-, htaken, hafter⟩ := (hsees "").run calls
    obtain ⟨htokens, hend⟩ := Tokenizer.taken_append_tokens calls (TokenStream.ofText "" t first)
    refine ⟨(ahead.after calls (TokenStream.ofText "" t first)).tokens, by rw [htaken, htokens]; rfl, fun n => ?_⟩
    rw [(hafter.run _).1, Tokenizer.heard_next, hend]
    rfl
  · exact ((hsees source).run calls).1

/-- A comment that is not closed runs to the end, and a string that is not closed runs to the end of its line. -/
example : lex "a/b // c\n\"d e\n/* f */-1.5 /* g\n".toList 10 =
    ([⟨.word "a", 10⟩, ⟨.punct '/', 10⟩, ⟨.word "b", 10⟩, ⟨.quoted "d e", 11⟩, ⟨.word "-1.5", 12⟩], 13) := by
  decide +kernel

end ShaderVariant
