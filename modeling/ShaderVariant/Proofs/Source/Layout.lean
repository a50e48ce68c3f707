import ShaderVariant.Proofs.Text
import ShaderVariant.Source.Token

/-!
# The layout of a text

The tokens of a text are parts of it, one behind the other, and between them stands nothing but white space and comments.

* `Token.Gap` : white space and comments, the last one perhaps not closed; `Gap.skip` : it is what is passed over;
* `Token.exists_gap` : every text is a gap in front of a token, or at the end;
* `Token.Spells` : how a token is written, and what stands around it; `Spells.read`, `exists_spells` : it is what is
  read;
* `Token.Covers` : a text with its tokens and their lines;
* `Token.covers_iff` : they are the tokens that the text is read as, and no others.
-/

namespace ShaderVariant

namespace Token

/-! ## Gaps -/

/-- White space and comments. A comment that is not closed is the last thing in the text. -/
inductive Gap : (last : Bool) → Text → Prop
  | empty {last : Bool} : Gap last []
  | blank {last : Bool} {c : Char} {g : Text} (isBlank : Text.isBlank c = true) (more : Gap last g) : Gap last (c :: g)
  | line {last : Bool} {body g : Text} (oneLine : '\n' ∉ body) (more : Gap last g) :
      Gap last ('/' :: '/' :: body ++ '\n' :: g)
  | block {last : Bool} {body g : Text} (first : ¬ ['*', '/'] <:+: body) (more : Gap last g) :
      Gap last ('/' :: '*' :: body ++ '*' :: '/' :: g)
  | lastLine {body : Text} (oneLine : '\n' ∉ body) : Gap true ('/' :: '/' :: body)
  | lastBlock {body : Text} (unclosed : ¬ ['*', '/'] <:+: body) : Gap true ('/' :: '*' :: body)

def Starts (t : Text) : Prop :=
  ∃ c u, t = c :: u ∧ Text.isBlank c = false ∧ (c = '/' → u.head? ≠ some '/' ∧ u.head? ≠ some '*')

theorem newlines_cons (c : Char) (t : Text) (line : UInt32) :
    line + UInt32.ofNat (Text.newlines (c :: t)) = lineAfter c line + UInt32.ofNat t.newlines := by
  unfold Text.newlines lineAfter
  split
  · next h =>
    rw [h, List.count_cons_self, Nat.add_comm, UInt32.ofNat_add, ← UInt32.add_assoc]
    rfl
  · next h => rw [List.count_cons_of_ne h]

theorem newlines_add (s t : Text) (line : UInt32) :
    line + UInt32.ofNat (Text.newlines (s ++ t)) = line + UInt32.ofNat s.newlines + UInt32.ofNat t.newlines := by
  rw [Text.newlines_append, UInt32.ofNat_add, UInt32.add_assoc]

theorem newlines_of_not_mem {t : Text} (h : '\n' ∉ t) : t.newlines = 0 := List.count_eq_zero.2 h

/-! ### What is passed over -/

theorem skipTrivia_of_starts {t : Text} (h : Starts t) (line : UInt32) : skipTrivia .blank t line = (t, line) := by
  obtain ⟨c, u, rfl, hblank, hcomment⟩ := h
  unfold skipTrivia
  split <;> simp_all

theorem skipTrivia_blank {c : Char} (hc : Text.isBlank c = true) (t : Text) (line : UInt32) :
    skipTrivia .blank (c :: t) line = skipTrivia .blank t (lineAfter c line) := by
  have hne : c ≠ '/' := by
    rintro rfl
    cases hc
  conv_lhs => unfold skipTrivia
  split <;> simp_all

theorem skipTrivia_openLine (t : Text) (line : UInt32) :
    skipTrivia .blank ('/' :: '/' :: t) line = skipTrivia .lineComment t line := rfl

theorem skipTrivia_openBlock (t : Text) (line : UInt32) :
    skipTrivia .blank ('/' :: '*' :: t) line = skipTrivia .blockComment t line := rfl

theorem skipTrivia_line_cons (c : Char) (t : Text) (line : UInt32) :
    skipTrivia .lineComment (c :: t) line =
      if c = '\n' then skipTrivia .blank t (line + 1) else skipTrivia .lineComment t line := rfl

theorem skipTrivia_closeBlock (t : Text) (line : UInt32) :
    skipTrivia .blockComment ('*' :: '/' :: t) line = skipTrivia .blank t line := rfl

/-- Inside a block comment a character is passed over if it does not start the end of the comment. -/
theorem skipTrivia_block_cons {c : Char} {t : Text} (h : ¬ ['*', '/'] <+: c :: t) (line : UInt32) :
    skipTrivia .blockComment (c :: t) line = skipTrivia .blockComment t (lineAfter c line) := by
  conv_lhs => unfold skipTrivia
  split <;> simp_all

theorem skipTrivia_line {body : Text} (h : '\n' ∉ body) (t : Text) (line : UInt32) :
    skipTrivia .lineComment (body ++ '\n' :: t) line = skipTrivia .blank t (line + 1) := by
  induction body with
  | nil => rw [List.nil_append, skipTrivia_line_cons, if_pos rfl]
  | cons c body ih =>
    rw [List.mem_cons, not_or] at h
    obtain ⟨hc, hbody⟩ := h
    rw [List.cons_append, skipTrivia_line_cons, if_neg (Ne.symm hc), ih hbody]

theorem skipTrivia_lastLine {body : Text} (h : '\n' ∉ body) (line : UInt32) :
    skipTrivia .lineComment body line = ([], line) := by
  induction body with
  | nil => rfl
  | cons c body ih =>
    rw [List.mem_cons, not_or] at h
    obtain ⟨hc, hbody⟩ := h
    rw [skipTrivia_line_cons, if_neg (Ne.symm hc), ih hbody]

/-- A block comment is passed over up to the first end that it has. -/
theorem skipTrivia_block {body : Text} (h : ¬ ['*', '/'] <:+: body) (t : Text) (line : UInt32) :
    skipTrivia .blockComment (body ++ '*' :: '/' :: t) line =
      skipTrivia .blank t (line + UInt32.ofNat body.newlines) := by
  induction body generalizing line with
  | nil =>
    rw [List.nil_append, skipTrivia_closeBlock, Text.lineAfter_nil]
  | cons c body ih =>
    rw [List.infix_cons_iff, not_or] at h
    have hstart : ¬ ['*', '/'] <+: c :: (body ++ '*' :: '/' :: t) := by
      cases body with
      | nil => simp
      | cons d body => simpa [List.cons_prefix_cons] using h.1
    rw [List.cons_append, skipTrivia_block_cons hstart, ih h.2, newlines_cons]

theorem skipTrivia_lastBlock {body : Text} (h : ¬ ['*', '/'] <:+: body) (line : UInt32) :
    skipTrivia .blockComment body line = ([], line + UInt32.ofNat body.newlines) := by
  induction body generalizing line with
  | nil =>
    rw [Text.lineAfter_nil]
    rfl
  | cons c body ih =>
    rw [List.infix_cons_iff, not_or] at h
    rw [skipTrivia_block_cons h.1, ih h.2, newlines_cons]

/-- A gap is passed over, and its line feeds are counted. -/
theorem Gap.skip {last : Bool} {g rest : Text} (h : Gap last g) (hrest : rest = [] ∨ last = false ∧ Starts rest)
    (line : UInt32) : skipTrivia .blank (g ++ rest) line = (rest, line + UInt32.ofNat g.newlines) := by
  induction h generalizing line with
  | empty =>
    rw [List.nil_append, Text.lineAfter_nil]
    rcases hrest with rfl | ⟨-, hstarts⟩
    · rfl
    · exact skipTrivia_of_starts hstarts line
  | blank isBlank more ih => rw [List.cons_append, skipTrivia_blank isBlank, ih hrest, newlines_cons]
  | @line _ body g oneLine more ih =>
    have hfeeds : line + UInt32.ofNat (Text.newlines ('/' :: '/' :: body ++ '\n' :: g)) =
        line + 1 + UInt32.ofNat g.newlines := by
      rw [newlines_add, newlines_cons, newlines_cons, newlines_cons, newlines_of_not_mem oneLine, Text.lineAfter_zero]
      rfl
    rw [List.append_assoc, List.cons_append, List.cons_append, skipTrivia_openLine, List.cons_append,
      skipTrivia_line oneLine, ih hrest, hfeeds]
  | @block _ body g first more ih =>
    have hfeeds : line + UInt32.ofNat (Text.newlines ('/' :: '*' :: body ++ '*' :: '/' :: g)) =
        line + UInt32.ofNat body.newlines + UInt32.ofNat g.newlines := by
      rw [newlines_add, newlines_cons, newlines_cons, newlines_cons, newlines_cons]
      rfl
    rw [List.append_assoc, List.cons_append, List.cons_append, skipTrivia_openBlock, List.cons_append, List.cons_append,
      skipTrivia_block first, ih hrest, hfeeds]
  | @lastLine body oneLine =>
    obtain rfl : rest = [] := hrest.resolve_right nofun
    have hfeeds : line + UInt32.ofNat (Text.newlines ('/' :: '/' :: body)) = line := by
      rw [newlines_cons, newlines_cons, newlines_of_not_mem oneLine, Text.lineAfter_zero]
      rfl
    rw [List.append_nil, skipTrivia_openLine, skipTrivia_lastLine oneLine, hfeeds]
  | @lastBlock body unclosed =>
    obtain rfl : rest = [] := hrest.resolve_right nofun
    have hfeeds : line + UInt32.ofNat (Text.newlines ('/' :: '*' :: body)) = line + UInt32.ofNat body.newlines := by
      rw [newlines_cons, newlines_cons]
      rfl
    rw [List.append_nil, skipTrivia_openBlock, skipTrivia_lastBlock unclosed, hfeeds]

theorem Gap.skip_last {g : Text} (h : Gap true g) (line : UInt32) :
    skipTrivia .blank g line = ([], line + UInt32.ofNat g.newlines) := by
  rw [← h.skip (Or.inl rfl) line, List.append_nil]

theorem Gap.skip_front {g rest : Text} (h : Gap false g) (hrest : Starts rest) (line : UInt32) :
    skipTrivia .blank (g ++ rest) line = (rest, line + UInt32.ofNat g.newlines) :=
  h.skip (Or.inr ⟨rfl, hrest⟩) line

/-! ### Every text -/

/-- A text in which a block comment ends, cut at the first end. -/
theorem exists_first_end {t : Text} (h : ['*', '/'] <:+: t) :
    ∃ body u, ¬ ['*', '/'] <:+: body ∧ t = body ++ '*' :: '/' :: u := by
  induction t with
  | nil => simp at h
  | cons c t ih =>
    by_cases hstart : ['*', '/'] <+: c :: t
    · obtain ⟨u, hu⟩ := hstart
      exact ⟨[], u, by simp, hu.symm⟩
    · obtain ⟨body, u, hbody, rfl⟩ := ih ((List.infix_cons_iff.1 h).resolve_left hstart)
      refine ⟨c :: body, u, ?_, rfl⟩
      rw [List.infix_cons_iff, not_or]
      refine ⟨fun ⟨v, hv⟩ => hstart ⟨v ++ '*' :: '/' :: u, ?_⟩, hbody⟩
      rw [← List.append_assoc, hv]
      rfl

/-- Every text is a gap and then a token, or a gap up to the end. -/
theorem exists_gap (t : Text) :
    ∃ last g rest, t = g ++ rest ∧ Gap last g ∧ (last = true ∧ rest = [] ∨ last = false ∧ Starts rest) := by
  induction hn : t.length using Nat.strong_induction_on generalizing t with
  | _ n ih =>
    subst hn
    cases t with
    | nil => exact ⟨true, [], [], rfl, .empty, Or.inl ⟨rfl, rfl⟩⟩
    | cons c t =>
      by_cases hblank : Text.isBlank c = true
      · obtain ⟨last, g, rest, rfl, hg, hrest⟩ := ih t.length (by simp) t rfl
        exact ⟨last, c :: g, rest, rfl, .blank hblank hg, hrest⟩
      by_cases hcomment : c = '/' ∧ (t.head? = some '/' ∨ t.head? = some '*')
      case neg =>
        have hstarts : Starts (c :: t) := ⟨c, t, rfl, Bool.eq_false_iff.2 hblank, fun hc =>
          ⟨fun h => hcomment ⟨hc, Or.inl h⟩, fun h => hcomment ⟨hc, Or.inr h⟩⟩⟩
        exact ⟨false, [], c :: t, rfl, .empty, Or.inr ⟨rfl, hstarts⟩⟩
      obtain ⟨rfl, hmark⟩ := hcomment
      rcases hmark with hmark | hmark
      · obtain ⟨u, rfl⟩ := List.head?_eq_some_iff.1 hmark
        by_cases hline : '\n' ∈ u
        · obtain ⟨body, v, hu, hbody⟩ := List.eq_append_cons_of_mem hline
          subst hu
          obtain ⟨last, g, rest, rfl, hg, hrest⟩ := ih v.length (by simp; omega) v rfl
          exact ⟨last, _, rest, by simp, .line hbody hg, hrest⟩
        · exact ⟨true, _, [], (List.append_nil _).symm, .lastLine hline, Or.inl ⟨rfl, rfl⟩⟩
      · obtain ⟨u, rfl⟩ := List.head?_eq_some_iff.1 hmark
        by_cases hend : ['*', '/'] <:+: u
        · obtain ⟨body, v, hbody, rfl⟩ := exists_first_end hend
          obtain ⟨last, g, rest, rfl, hg, hrest⟩ := ih v.length (by simp; omega) v rfl
          exact ⟨last, _, rest, by simp, .block hbody hg, hrest⟩
        · exact ⟨true, _, [], (List.append_nil _).symm, .lastBlock hend, Or.inl ⟨rfl, rfl⟩⟩

/-! ## Tokens in place -/

/-- How a token is written, behind the text `before` and in front of `after`. -/
inductive Spells (before : Text) : (lexeme after : Text) → Token → Prop
  /-- A word cannot be made longer on either side. -/
  | word {w after : Text} (ne_nil : w ≠ []) (chars : ∀ c ∈ w, isWordChar c = true)
      (maxBefore : ∀ c ∈ before.getLast?, isWordChar c = false)
      (maxAfter : ∀ c ∈ after.head?, isWordChar c = false) : Spells before w after (.word (String.ofList w))
  | quoted {body after : Text} (chars : ∀ c ∈ body, isQuotedChar c = true) :
      Spells before ('"' :: body ++ ['"']) after (.quoted (String.ofList body))
  /-- A string that is not closed ends with its line. -/
  | unclosed {body after : Text} (chars : ∀ c ∈ body, isQuotedChar c = true)
      (lineEnd : ∀ c ∈ after.head?, c = '\n') : Spells before ('"' :: body) after (.quoted (String.ofList body))
  | punct {c : Char} {after : Text} (notQuote : c ≠ '"') (notWord : isWordChar c = false)
      (starts : Starts (c :: after)) : Spells before [c] after (.punct c)

theorem isBlank_of_isWordChar {c : Char} (h : isWordChar c = true) : Text.isBlank c = false := by
  cases hblank : Text.isBlank c with
  | false => rfl
  | true =>
    have hletter := Text.isLetter_of_isBlank hblank
    have hdigit := Text.isDigit_of_isBlank hblank
    simp only [isWordChar, Text.isAlphanumeric, hletter, hdigit, Bool.or_eq_true, beq_iff_eq, Bool.false_eq_true,
      false_or] at h
    rcases h with ((rfl | rfl) | rfl) | rfl <;> exact absurd hblank (by decide)

theorem isWordChar_of_isBlank {c : Char} (h : Text.isBlank c = true) : isWordChar c = false :=
  Bool.eq_false_iff.2 fun hword => Bool.eq_false_iff.1 (isBlank_of_isWordChar hword) h

variable {before t lexeme after : Text} {tok : Token}

theorem Spells.starts (h : Spells before lexeme after tok) : Starts (lexeme ++ after) := by
  cases h with
  | word ne_nil chars =>
    obtain ⟨c, w, rfl⟩ := List.exists_cons_of_ne_nil ne_nil
    have hc := chars c List.mem_cons_self
    refine ⟨c, w ++ after, rfl, isBlank_of_isWordChar hc, ?_⟩
    rintro rfl
    cases hc
  | quoted => exact ⟨'"', _, rfl, by decide, nofun⟩
  | unclosed => exact ⟨'"', _, rfl, by decide, nofun⟩
  | punct _ _ starts => exact starts

theorem isQuotedChar_eq_false_iff {c : Char} : isQuotedChar c = false ↔ c = '"' ∨ c = '\n' := by
  simp [isQuotedChar]
  tauto

theorem Spells.read (h : Spells before lexeme after tok) : read? (lexeme ++ after) = some (tok, after) := by
  cases h with
  | word ne_nil chars _ maxAfter =>
    obtain ⟨c, w, rfl⟩ := List.exists_cons_of_ne_nil ne_nil
    obtain ⟨hc, hw⟩ := List.forall_mem_cons.1 chars
    have hquote : c ≠ '"' := by
      rintro rfl
      cases hc
    obtain ⟨htake, hdrop⟩ := Text.takeWhile_append_of hw maxAfter
    rw [List.cons_append, read?, if_neg hquote, if_pos hc, htake, hdrop]
  | @quoted body after chars =>
    have hquote : ∀ c ∈ ('"' :: after).head?, isQuotedChar c = false :=
      fun c hc => isQuotedChar_eq_false_iff.2 (Or.inl (Option.some.inj hc).symm)
    obtain ⟨htake, hdrop⟩ := Text.takeWhile_append_of chars hquote
    rw [List.append_assoc, List.cons_append, List.singleton_append, read?, if_pos rfl, htake, hdrop]
    rfl
  | @unclosed body after chars lineEnd =>
    obtain ⟨htake, hdrop⟩ := Text.takeWhile_append_of chars
      fun c hc => isQuotedChar_eq_false_iff.2 (Or.inr (lineEnd c hc))
    have hquote : dropQuote after = after := by
      unfold dropQuote
      split
      · next h => cases lineEnd '"' rfl
      · rfl
    rw [List.cons_append, read?, if_pos rfl, htake, hdrop, hquote]
  | punct notQuote notWord =>
    rw [List.singleton_append, read?, if_neg notQuote, if_neg (Bool.eq_false_iff.1 notWord)]

theorem not_of_head?_dropWhile {p : Char → Bool} : ∀ c ∈ (t.dropWhile p).head?, p c = false := by
  intro c hc
  have h := List.head?_dropWhile_not p t
  rw [hc] at h
  exact h

/-- No word goes over the end of the text before. -/
def Apart (before t : Text) : Prop := ∀ c ∈ before.getLast?, isWordChar c = true → ∀ d ∈ t.head?, isWordChar d = false

theorem apart_nil (t : Text) : Apart [] t := nofun

/-- A text that does not start with white space or a comment starts with a token. -/
theorem exists_spells (hbefore : Apart before t) (hstarts : Starts t) :
    ∃ lexeme after tok, t = lexeme ++ after ∧ Spells before lexeme after tok := by
  obtain ⟨c, u, rfl, hblank, hcomment⟩ := hstarts
  by_cases hquote : c = '"'
  · subst hquote
    have hsplit : u = u.takeWhile isQuotedChar ++ u.dropWhile isQuotedChar := List.takeWhile_append_dropWhile.symm
    have hchars : ∀ c ∈ u.takeWhile isQuotedChar, isQuotedChar c = true := fun c hc => List.mem_takeWhile_imp hc
    by_cases hclosed : (u.dropWhile isQuotedChar).head? = some '"'
    · obtain ⟨after, hafter⟩ := List.head?_eq_some_iff.1 hclosed
      rw [hafter] at hsplit
      refine ⟨_, after, _, ?_, .quoted hchars⟩
      rw [List.append_assoc, List.cons_append, List.singleton_append, ← hsplit]
    · refine ⟨_, u.dropWhile isQuotedChar, _, ?_, .unclosed hchars fun c hc => ?_⟩
      · rw [List.cons_append, ← hsplit]
      · refine (isQuotedChar_eq_false_iff.1 (not_of_head?_dropWhile c hc)).resolve_left ?_
        rintro rfl
        exact hclosed hc
  by_cases hword : isWordChar c = true
  · refine ⟨c :: u.takeWhile isWordChar, u.dropWhile isWordChar, _, ?_, .word (List.cons_ne_nil _ _) ?_ ?_ ?_⟩
    · rw [List.cons_append, List.takeWhile_append_dropWhile]
    · exact List.forall_mem_cons.2 ⟨hword, fun c hc => List.mem_takeWhile_imp hc⟩
    · exact fun d hd => Bool.eq_false_iff.2 fun hd' => Bool.eq_false_iff.1 (hbefore d hd hd' c rfl) hword
    · exact not_of_head?_dropWhile
  · exact ⟨[c], u, .punct c, rfl, .punct hquote (Bool.eq_false_iff.2 hword) ⟨c, u, rfl, hblank, hcomment⟩⟩

theorem Spells.apart (h : Spells before lexeme after tok) : Apart (before ++ lexeme) after := by
  intro c hc hword d hd
  cases h with
  | word _ _ _ maxAfter => exact maxAfter d hd
  | quoted =>
    rw [← List.append_assoc, List.getLast?_concat] at hc
    cases hc
    cases hword
  | unclosed _ lineEnd =>
    rw [lineEnd d hd]
    rfl
  | punct _ notWord =>
    rw [List.getLast?_concat] at hc
    cases hc
    rw [notWord] at hword
    cases hword

/-- The last character of a gap is in no word. -/
theorem Gap.getLast {last : Bool} {g : Text} (h : Gap last g) (hlast : last = false) :
    ∀ c ∈ g.getLast?, isWordChar c = false := by
  induction h with
  | empty => exact nofun
  | @blank _ c g isBlank more ih =>
    cases g with
    | nil =>
      rintro _ ⟨⟩
      exact isWordChar_of_isBlank isBlank
    | cons d g => rw [List.getLast?_cons_cons]; exact ih hlast
  | @line _ body g _ more ih =>
    rw [List.getLast?_append_cons]
    cases g with
    | nil => rintro _ ⟨⟩; rfl
    | cons d g => rw [List.getLast?_cons_cons]; exact ih hlast
  | @block _ body g _ more ih =>
    rw [List.getLast?_append_cons, List.getLast?_cons_cons]
    cases g with
    | nil => rintro _ ⟨⟩; rfl
    | cons d g => rw [List.getLast?_cons_cons]; exact ih hlast
  | lastLine => cases hlast
  | lastBlock => cases hlast

theorem Gap.apart {g : Text} (hg : Gap false g) (h : Apart before (g ++ t)) : Apart (before ++ g) t := by
  cases g with
  | nil => rwa [List.append_nil]
  | cons c g =>
    intro d hd hword
    rw [List.getLast?_append_of_ne_nil _ (List.cons_ne_nil c g)] at hd
    rw [hg.getLast rfl d hd] at hword
    cases hword

/-! ## Covered texts -/

/-- A text behind `before`, as tokens with the lines of their first characters and gaps between them. -/
inductive Covers (first : UInt32) : (before t : Text) → List Placed → Prop
  | last {before g : Text} (gap : Gap true g) : Covers first before g []
  | token {before g lexeme after : Text} {tok : Token} {toks : List Placed} (gap : Gap false g)
      (spelled : Spells (before ++ g) lexeme after tok) (more : Covers first (before ++ g ++ lexeme) after toks) :
      Covers first before (g ++ lexeme ++ after) (⟨tok, first + UInt32.ofNat (Text.newlines (before ++ g))⟩ :: toks)

theorem Spells.newlines_eq (h : Spells before lexeme after tok) : lexeme.newlines = 0 := by
  refine newlines_of_not_mem fun hmem => ?_
  have hquoted {body : Text} (chars : ∀ c ∈ body, isQuotedChar c = true) : '\n' ∉ body := fun h => by
    cases chars _ h
  cases h with
  | word _ chars => cases chars _ hmem
  | quoted chars =>
    rcases List.mem_append.1 hmem with hmem | hmem
    · exact hquoted chars ((List.mem_cons.1 hmem).resolve_left (by decide))
    · cases List.mem_singleton.1 hmem
  | unclosed chars => exact hquoted chars ((List.mem_cons.1 hmem).resolve_left (by decide))
  | punct _ _ starts =>
    obtain ⟨c, u, heq, hblank, -⟩ := starts
    obtain ⟨rfl, rfl⟩ := List.cons.inj heq
    rw [← List.mem_singleton.1 hmem] at hblank
    cases hblank

theorem lex_gap {g : Text} (hg : Gap true g) (line : UInt32) : lex g line = ([], line + UInt32.ofNat g.newlines) := by
  rw [lex]
  split
  · rw [hg.skip_last]
  · next tok rest hread =>
    rw [hg.skip_last] at hread
    cases hread

/-- The first token of a text is the one behind the gap at its start. -/
theorem lex_token {g : Text} (hg : Gap false g) (h : Spells before lexeme after tok) (line : UInt32) :
    lex (g ++ lexeme ++ after) line =
      (⟨tok, line + UInt32.ofNat g.newlines⟩ :: (lex after (line + UInt32.ofNat g.newlines)).1,
        (lex after (line + UInt32.ofNat g.newlines)).2) := by
  have hskip := hg.skip_front h.starts line
  rw [lex, List.append_assoc]
  split
  · next hread =>
    rw [hskip, h.read] at hread
    cases hread
  · next tok' rest hread =>
    rw [hskip, h.read] at hread
    cases hread
    rw [hskip]

/-- The line behind a gap and a token is that of the token. -/
theorem Spells.line_eq {g : Text} (h : Spells (before ++ g) lexeme after tok) (first : UInt32) :
    first + UInt32.ofNat (Text.newlines (before ++ g ++ lexeme)) =
      first + UInt32.ofNat (Text.newlines before) + UInt32.ofNat g.newlines := by
  rw [newlines_add, newlines_add, h.newlines_eq, Text.lineAfter_zero]

theorem Covers.eq_lex {first : UInt32} {toks : List Placed} (h : Covers first before t toks) :
    toks = (lex t (first + UInt32.ofNat (Text.newlines before))).1 := by
  induction h with
  | last gap => rw [lex_gap gap]
  | token gap spelled more ih => rw [lex_token gap spelled, ih, spelled.line_eq, newlines_add]

/-- A text is covered by the tokens that are read, and reading ends on its last line. -/
theorem covers_lex (first : UInt32) (hbefore : Apart before t) :
    Covers first before t (lex t (first + UInt32.ofNat (Text.newlines before))).1 ∧
      (lex t (first + UInt32.ofNat (Text.newlines before))).2 = first + UInt32.ofNat (Text.newlines (before ++ t)) := by
  induction hn : t.length using Nat.strong_induction_on generalizing before t with
  | _ n ih =>
    subst hn
    obtain ⟨last, g, rest, rfl, hg, ⟨rfl, rfl⟩ | ⟨rfl, hstarts⟩⟩ := exists_gap t
    · rw [List.append_nil, lex_gap hg, newlines_add]
      exact ⟨.last hg, rfl⟩
    · obtain ⟨lexeme, after, tok, rfl, hspells⟩ := exists_spells (hg.apart hbefore) hstarts
      have hlt : after.length < (g ++ (lexeme ++ after)).length := by
        have := length_lt_of_read? hspells.read
        rw [List.length_append]
        omega
      obtain ⟨hmore, hend⟩ := ih after.length hlt hspells.apart rfl
      rw [hspells.line_eq] at hmore hend
      rw [← List.append_assoc, lex_token hg hspells, hend, ← newlines_add]
      refine ⟨.token hg hspells ?_, by simp only [List.append_assoc]⟩
      rwa [newlines_add]

/-- The tokens that cover a text are those that it is read as. -/
theorem covers_iff {first : UInt32} {toks : List Placed} : Covers first [] t toks ↔ toks = (lex t first).1 := by
  constructor
  · intro h
    rw [h.eq_lex, Text.lineAfter_nil]
  · rintro rfl
    have h := (covers_lex first (apart_nil t)).1
    rwa [Text.lineAfter_nil] at h

theorem Covers.length_le {first : UInt32} {toks : List Placed} (h : Covers first before t toks) :
    toks.length ≤ t.length := by
  induction h with
  | last => exact Nat.zero_le _
  | token gap spelled more ih =>
    have := length_lt_of_read? spelled.read
    rw [List.append_assoc, List.length_append, List.length_cons]
    omega

end Token

end ShaderVariant
