import ShaderVariant.Proofs.Source.Directive

/-!
# The shape of include directives

Include lines as they are written, without the functions that read them.

* `Directive.IncludeLine` : a line with the keyword `include`, and what is behind it. These are the lines that are read
  as includes (`ofLine?_of_includeLine`, `exists_includeLine`);
* `Directive.Spells` : a piece of text that is an include directive for a name, from its `#` to its closing mark;
* `Directive.Includes` : a line that is blank up to such a piece. The piece is cut out of it (`splitInclude_of_spells`);
* `Directive.Faulty` : what is wrong with an include line that holds no such piece (`splitInclude_of_faulty`);
* `Directive.shape_of_includeLine` : every include line has one or the other, so a line is broken just if it is faulty
  (`broken_iff`).
-/

namespace ShaderVariant

open Text (Blank AreLines endsLine splitLines)

/-! ## Texts up to a mark -/

namespace Text

theorem takeWhile_ne_append {c : Char} {s : Text} (hs : c ∉ s) (t : Text) :
    (s ++ c :: t).takeWhile (· != c) = s := (cut_ne_append hs t).1

theorem dropWhile_ne_append {c : Char} {s : Text} (hs : c ∉ s) (t : Text) :
    (s ++ c :: t).dropWhile (· != c) = c :: t := (cut_ne_append hs t).2

/-- In a line no line feed stands before a mark that is none. -/
theorem newline_not_mem_of_areLines {l s t : Text} {c : Char} (hl : AreLines [l]) (h : l = s ++ c :: t)
    (hc : c ≠ '\n') : '\n' ∉ s ++ [c] := by
  obtain ⟨u, hu, hcase⟩ := hl.exists_eq
  have hfront : s ++ [c] <+: l := ⟨t, by rw [h, List.append_assoc]; rfl⟩
  rcases hcase with ⟨-, rfl⟩ | ⟨-, rfl⟩
  · exact fun hm => hu (hfront.subset hm)
  · rcases List.prefix_concat_iff.1 hfront with he | hpre
    · exact absurd (List.append_inj_right' he rfl) (by simpa using hc)
    · exact fun hm => hu (hpre.subset hm)

theorem Blank.not_mem {b : Text} (hb : Blank b) {c : Char} (hc : isBlank c = false) : c ∉ b := fun hm => by
  rw [hb c hm] at hc
  cases hc

end Text

namespace Directive

/-! ## Include lines -/

def includeKeyword : Text := "include".toList

/-- A line with an include directive; `behind` is what follows the letters of its keyword. -/
def IncludeLine (line behind : Text) : Prop :=
  ∃ lead gap, Blank lead ∧ Blank gap ∧ (∀ c ∈ behind.head?, Text.isLetter c = false) ∧
    line = lead ++ '#' :: (gap ++ (includeKeyword ++ behind))

/-- The marks around a name: one that opens it and one that closes it. -/
inductive Delimits : Char → Char → Prop
  | quotes : Delimits '"' '"'
  | angles : Delimits '<' '>'

/-- An include directive for a name, from its `#` to the mark that closes the name. White space around the name does not
belong to it. -/
inductive Spells (name : String) : Text → Prop
  | piece {gap space inner : Text} {opening closing : Char} (hgap : Blank gap) (hspace : Blank space)
      (hmarks : Delimits opening closing) (hinner : closing ∉ inner) (hname : Text.trim inner = name.toList)
      (hne : name ≠ "") :
      Spells name ('#' :: (gap ++ (includeKeyword ++ (space ++ opening :: (inner ++ [closing])))))

/-- A line that is an include directive for a name, maybe with more text behind. -/
def Includes (line : Text) (name : String) : Prop :=
  ∃ before piece after, Blank before ∧ Spells name piece ∧ line = before ++ (piece ++ after)

/-- What is wrong with an include line: no mark opens a name, no mark closes it, or there is only white space between
the two. -/
inductive Faulty (line : Text) : ParseFault → Prop
  | malformed {behind : Text} (h : IncludeLine line behind)
      (hopen : ∀ space opening closing rest, Blank space → Delimits opening closing →
        behind ≠ space ++ opening :: rest) : Faulty line .malformedInclude
  | unterminated {space rest : Text} {opening closing : Char} (h : IncludeLine line (space ++ opening :: rest))
      (hspace : Blank space) (hmarks : Delimits opening closing) (hclose : closing ∉ rest) :
      Faulty line .unterminatedInclude
  | nameless {space inner after : Text} {opening closing : Char}
      (h : IncludeLine line (space ++ opening :: (inner ++ closing :: after))) (hspace : Blank space)
      (hmarks : Delimits opening closing) (hinner : closing ∉ inner) (hblank : Blank inner) :
      Faulty line .namelessInclude

def Broken (line : Text) : Prop := (∃ behind, IncludeLine line behind) ∧ ∀ name, ¬ Includes line name

/-! ## Reading them -/

theorem blank_mark : Text.isBlank '#' = false := rfl

theorem isLetter_of_mem_includeKeyword {c : Char} (h : c ∈ includeKeyword) : Text.isLetter c = true := by
  have hall : includeKeyword.all Text.isLetter = true := by decide
  exact List.all_eq_true.1 hall c h

/-- Behind its `#` an include line starts with the keyword. -/
theorem trimStart_includeKeyword {gap : Text} (hgap : Blank gap) (behind : Text) :
    Text.trimStart (gap ++ (includeKeyword ++ behind)) = includeKeyword ++ behind := by
  rw [Text.trimStart_blank_append hgap]
  rfl

theorem ofLine?_of_includeLine {line behind : Text} (h : IncludeLine line behind) :
    ofLine? line = some (.inclusion (Text.trim behind)) := by
  obtain ⟨lead, gap, hlead, hgap, hbehind, rfl⟩ := h
  have htake : (includeKeyword ++ behind).takeWhile Text.isLetter = includeKeyword := by
    rw [List.takeWhile_append_of_pos fun c hc => isLetter_of_mem_includeKeyword hc]
    cases behind with
    | nil => exact List.append_nil _
    | cons c t => rw [List.takeWhile_cons_of_neg (by rw [hbehind c rfl]; decide), List.append_nil]
  have hdrop : (includeKeyword ++ behind).dropWhile Text.isLetter = behind := by
    have := List.takeWhile_append_dropWhile (p := Text.isLetter) (l := includeKeyword ++ behind)
    rwa [htake, List.append_right_inj] at this
  rw [ofLine?_blank_append hlead]
  show some (ofKeyword (String.ofList ((Text.trimStart (gap ++ (includeKeyword ++ behind))).takeWhile Text.isLetter))
    (Text.trim ((Text.trimStart (gap ++ (includeKeyword ++ behind))).dropWhile Text.isLetter))) = _
  rw [trimStart_includeKeyword hgap, htake, hdrop]
  rfl

theorem eq_include_of_ofKeyword {keyword : String} {argument argument' : Text}
    (h : ofKeyword keyword argument = .inclusion argument') : keyword = "include" ∧ argument' = argument := by
  unfold ofKeyword at h
  split at h <;> cases h
  exact ⟨rfl, rfl⟩

theorem exists_includeLine {line argument : Text} (h : ofLine? line = some (.inclusion argument)) :
    ∃ behind, IncludeLine line behind ∧ argument = Text.trim behind := by
  unfold ofLine? at h
  split at h
  · next t ht =>
    obtain ⟨hkeyword, rfl⟩ := eq_include_of_ofKeyword (Option.some.inj h)
    have hword : (Text.trimStart t).takeWhile Text.isLetter = includeKeyword := by
      rw [← String.toList_ofList (l := (Text.trimStart t).takeWhile Text.isLetter), hkeyword]
      rfl
    refine ⟨_, ⟨line.takeWhile Text.isBlank, t.takeWhile Text.isBlank, fun c hc => List.mem_takeWhile_imp hc,
      fun c hc => List.mem_takeWhile_imp hc, fun c hc => ?_, ?_⟩, rfl⟩
    · have := List.head?_dropWhile_not Text.isLetter (Text.trimStart t)
      rw [Option.mem_def.1 hc] at this
      simpa using this
    · rw [← hword, List.takeWhile_append_dropWhile, Text.trimStart, List.takeWhile_append_dropWhile, ← ht]
      exact List.takeWhile_append_dropWhile.symm
  · cases h

/-! ## Taking them apart -/

namespace Delimits

variable {opening closing : Char}

theorem isBlank_opening (h : Delimits opening closing) : Text.isBlank opening = false := by cases h <;> rfl

theorem isLetter_opening (h : Delimits opening closing) : Text.isLetter opening = false := by cases h <;> rfl

theorem opening_ne_mark (h : Delimits opening closing) : opening ≠ '#' := by cases h <;> decide

theorem closing_ne_newline (h : Delimits opening closing) : closing ≠ '\n' := by cases h <;> decide

theorem closing?_eq (h : Delimits opening closing) (t : Text) :
    closing? (opening :: t) = some (opening, closing) := by cases h <;> rfl

theorem of_closing? {t : Text} (h : closing? t = some (opening, closing)) :
    Delimits opening closing ∧ ∃ rest, t = opening :: rest := by
  unfold closing? at h
  split at h
  · cases h
    exact ⟨.quotes, _, rfl⟩
  · cases h
    exact ⟨.angles, _, rfl⟩
  · cases h

end Delimits

/-- The opening mark of an include line is the first of its kind behind the `#`. -/
theorem opening_not_mem {gap space : Text} {opening closing : Char} (hgap : Blank gap) (hspace : Blank space)
    (hmarks : Delimits opening closing) : opening ∉ '#' :: (gap ++ (includeKeyword ++ space)) := by
  intro h
  rcases List.mem_cons.1 h with h | h
  · exact hmarks.opening_ne_mark h
  · rcases List.mem_append.1 h with h | h
    · exact hgap.not_mem hmarks.isBlank_opening h
    · rcases List.mem_append.1 h with h | h
      · have := isLetter_of_mem_includeKeyword h
        rw [hmarks.isLetter_opening] at this
        cases this
      · exact hspace.not_mem hmarks.isBlank_opening h

/-- An include line in which a name is opened is cut at the first closing mark. -/
theorem splitInclude_opened {lead gap space rest : Text} {opening closing : Char} (hlead : Blank lead)
    (hgap : Blank gap) (hspace : Blank space) (hmarks : Delimits opening closing) :
    splitInclude (lead ++ '#' :: (gap ++ (includeKeyword ++ (space ++ opening :: rest))))
        (Text.trim (space ++ opening :: rest)) =
      match rest.dropWhile (· != closing) with
      | [] => .error .unterminatedInclude
      | _ :: after =>
        if (Text.trim (rest.takeWhile (· != closing))).isEmpty then .error .namelessInclude
        else .ok (lead, String.ofList (Text.trim (rest.takeWhile (· != closing))), after) := by
  have hmark : '#' ∉ lead := hlead.not_mem blank_mark
  have hinside : '#' :: (gap ++ (includeKeyword ++ (space ++ opening :: rest))) =
      '#' :: (gap ++ (includeKeyword ++ space)) ++ opening :: rest := by
    simp only [List.append_assoc, List.cons_append]
  unfold splitInclude
  rw [Text.trim_blank_cons hspace hmarks.isBlank_opening, hmarks.closing?_eq]
  simp only
  rw [Text.takeWhile_ne_append hmark, Text.dropWhile_ne_append hmark, hinside,
    Text.dropWhile_ne_append (opening_not_mem hgap hspace hmarks)]
  rfl

theorem splitInclude_of_spells {before piece : Text} {name : String} (hbefore : Blank before)
    (h : Spells name piece) (after : Text) :
    ∃ argument, ofLine? (before ++ (piece ++ after)) = some (.inclusion argument) ∧
      splitInclude (before ++ (piece ++ after)) argument = .ok (before, name, after) := by
  obtain ⟨hgap, hspace, hmarks, hinner, hname, hne⟩ := h
  rename_i gap space inner opening closing
  have hline : before ++ ('#' :: (gap ++ (includeKeyword ++ (space ++ opening :: (inner ++ [closing])))) ++ after) =
      before ++ '#' :: (gap ++ (includeKeyword ++ (space ++ opening :: (inner ++ closing :: after)))) := by
    simp only [List.append_assoc, List.cons_append, List.nil_append]
  have hbehind : ∀ c ∈ (space ++ opening :: (inner ++ closing :: after)).head?, Text.isLetter c = false := by
    cases space with
    | nil => exact fun c hc => Option.some.inj hc ▸ hmarks.isLetter_opening
    | cons d space => exact fun c hc => Option.some.inj hc ▸ Text.isLetter_of_isBlank (hspace d List.mem_cons_self)
  have hfull : name.toList.isEmpty = false :=
    Bool.eq_false_iff.2 fun he => hne (String.toList_eq_nil_iff.1 (List.isEmpty_iff.1 he))
  refine ⟨_, hline ▸ ofLine?_of_includeLine ⟨before, gap, hbefore, hgap, hbehind, rfl⟩, ?_⟩
  rw [hline, splitInclude_opened hbefore hgap hspace hmarks, Text.dropWhile_ne_append hinner,
    Text.takeWhile_ne_append hinner, hname, String.ofList_toList]
  simp only
  rw [hfull]
  rfl

theorem splitInclude_of_faulty {line : Text} {fault : ParseFault} (h : Faulty line fault) :
    ∃ argument, ofLine? line = some (.inclusion argument) ∧ splitInclude line argument = .error fault := by
  cases h with
  | @malformed behind h hopen =>
    refine ⟨_, ofLine?_of_includeLine h, ?_⟩
    unfold splitInclude
    cases hc : closing? (Text.trim behind) with
    | none => rfl
    | some marks =>
      -- A mark that opens the argument stands behind white space only.
      exfalso
      obtain ⟨opening, closing⟩ := marks
      obtain ⟨hmarks, rest, hrest⟩ := Delimits.of_closing? hc
      have hnot : ¬ Blank behind := fun hb => by
        rw [Text.trim_eq_nil_iff.2 hb] at hrest
        cases hrest
      obtain ⟨space, c, t, hspace, hmark, rfl⟩ := Text.exists_blank_append hnot
      rw [Text.trim_blank_cons hspace hmark] at hrest
      cases hrest
      exact hopen _ _ _ t hspace hmarks rfl
  | @unterminated space rest opening closing h hspace hmarks hclose =>
    have hline := ofLine?_of_includeLine h
    obtain ⟨lead, gap, hlead, hgap, -, rfl⟩ := h
    refine ⟨_, hline, ?_⟩
    have hnone : rest.dropWhile (· != closing) = [] :=
      List.dropWhile_eq_nil_iff.2 fun c hc => bne_iff_ne.2 fun he => hclose (he ▸ hc)
    rw [splitInclude_opened hlead hgap hspace hmarks, hnone]
  | @nameless space inner after opening closing h hspace hmarks hinner hblank =>
    have hline := ofLine?_of_includeLine h
    obtain ⟨lead, gap, hlead, hgap, -, rfl⟩ := h
    refine ⟨_, hline, ?_⟩
    rw [splitInclude_opened hlead hgap hspace hmarks, Text.dropWhile_ne_append hinner, Text.takeWhile_ne_append hinner,
      Text.trim_eq_nil_iff.2 hblank]
    rfl

theorem Spells.oneLine {name : String} {before piece after : Text} (h : Spells name piece)
    (hl : AreLines [before ++ (piece ++ after)]) : '\n' ∉ before ∧ '\n' ∉ piece := by
  obtain ⟨hgap, hspace, hmarks, hinner, hname, hne⟩ := h
  rename_i gap space inner opening closing
  have hnone := Text.newline_not_mem_of_areLines hl
    (s := before ++ '#' :: (gap ++ (includeKeyword ++ (space ++ opening :: inner)))) (t := after)
    (by simp only [List.append_assoc, List.cons_append, List.nil_append]) hmarks.closing_ne_newline
  simp only [List.append_assoc, List.cons_append] at hnone
  exact ⟨fun hm => hnone (List.mem_append_left _ hm), fun hm => hnone (List.mem_append_right _ hm)⟩

/-- Every include line is an include directive for a name, or has a fault. -/
theorem shape_of_includeLine {line behind : Text} (h : IncludeLine line behind) :
    (∃ before piece after name, Blank before ∧ Spells name piece ∧ line = before ++ (piece ++ after)) ∨
      ∃ fault, Faulty line fault := by
  by_cases hopen : ∀ space opening closing rest, Blank space → Delimits opening closing →
      behind ≠ space ++ opening :: rest
  · exact .inr ⟨_, .malformed h hopen⟩
  simp only [not_forall, ne_eq, Classical.not_not, exists_prop] at hopen
  obtain ⟨space, opening, closing, rest, hspace, hmarks, rfl⟩ := hopen
  by_cases hclose : closing ∈ rest
  · obtain ⟨inner, after, rfl, hinner⟩ := List.eq_append_cons_of_mem hclose
    by_cases hblank : Blank inner
    · exact .inr ⟨_, .nameless h hspace hmarks hinner hblank⟩
    · obtain ⟨lead, gap, hlead, hgap, -, rfl⟩ := h
      have hne : String.ofList (Text.trim inner) ≠ "" := fun he => by
        rw [← String.toList_inj, String.toList_ofList] at he
        exact hblank (Text.trim_eq_nil_iff.1 he)
      refine .inl ⟨lead, _, after, _, hlead, .piece hgap hspace hmarks hinner String.toList_ofList.symm hne, ?_⟩
      simp only [List.append_assoc, List.cons_append, List.nil_append]
  · exact .inr ⟨_, .unterminated h hspace hmarks hclose⟩

theorem Faulty.includeLine {line : Text} {fault : ParseFault} (h : Faulty line fault) :
    ∃ behind, IncludeLine line behind := by
  cases h with
  | malformed h => exact ⟨_, h⟩
  | unterminated h => exact ⟨_, h⟩
  | nameless h => exact ⟨_, h⟩

/-- A line with a fault includes nothing. -/
theorem Faulty.not_includes {line : Text} {fault : ParseFault} (h : Faulty line fault) (name : String) :
    ¬ Includes line name := by
  rintro ⟨before, piece, after, hbefore, hpiece, rfl⟩
  obtain ⟨argument, hd, hsplit⟩ := splitInclude_of_spells hbefore hpiece after
  obtain ⟨argument', hd', hsplit'⟩ := splitInclude_of_faulty h
  rw [hd] at hd'
  cases hd'
  rw [hsplit] at hsplit'
  cases hsplit'

theorem Faulty.unique {line : Text} {fault fault' : ParseFault} (h : Faulty line fault) (h' : Faulty line fault') :
    fault = fault' := by
  obtain ⟨argument, hd, hsplit⟩ := splitInclude_of_faulty h
  obtain ⟨argument', hd', hsplit'⟩ := splitInclude_of_faulty h'
  rw [hd] at hd'
  cases hd'
  exact Except.error.inj (hsplit.symm.trans hsplit')

theorem broken_iff {line : Text} : Broken line ↔ ∃ fault, Faulty line fault := by
  constructor
  · rintro ⟨⟨behind, h⟩, hnone⟩
    rcases shape_of_includeLine h with ⟨before, piece, after, name, hbefore, hpiece, hline⟩ | hfault
    · exact absurd ⟨before, piece, after, hbefore, hpiece, hline⟩ (hnone name)
    · exact hfault
  · rintro ⟨fault, h⟩
    exact ⟨h.includeLine, h.not_includes⟩

/-! ## What is read is what is written -/

/-- What is cut out of an include line is an include directive for the name. -/
theorem spells_of_splitInclude {line argument before after : Text} {name : String}
    (hd : ofLine? line = some (.inclusion argument)) (h : splitInclude line argument = .ok (before, name, after)) :
    Blank before ∧ ∃ piece, Spells name piece ∧ line = before ++ (piece ++ after) := by
  obtain ⟨behind, hline, rfl⟩ := exists_includeLine hd
  rcases shape_of_includeLine hline with ⟨before', piece, after', name', hbefore, hpiece, rfl⟩ | ⟨fault, hfault⟩
  · obtain ⟨argument, hd', hsplit⟩ := splitInclude_of_spells hbefore hpiece after'
    rw [hd] at hd'
    cases hd'
    rw [h] at hsplit
    cases hsplit
    exact ⟨hbefore, piece, hpiece, rfl⟩
  · obtain ⟨argument, hd', hsplit⟩ := splitInclude_of_faulty hfault
    rw [hd] at hd'
    cases hd'
    rw [h] at hsplit
    cases hsplit

/-- The fault that is reported for an include line is the one it has. -/
theorem faulty_of_splitInclude {line argument : Text} {fault : ParseFault}
    (hd : ofLine? line = some (.inclusion argument)) (h : splitInclude line argument = .error fault) :
    Faulty line fault := by
  obtain ⟨behind, hline, rfl⟩ := exists_includeLine hd
  rcases shape_of_includeLine hline with ⟨before, piece, after, name, hbefore, hpiece, rfl⟩ | ⟨fault', hfault⟩
  · obtain ⟨argument, hd', hsplit⟩ := splitInclude_of_spells hbefore hpiece after
    rw [hd] at hd'
    cases hd'
    rw [h] at hsplit
    cases hsplit
  · obtain ⟨argument, hd', hsplit⟩ := splitInclude_of_faulty hfault
    rw [hd] at hd'
    cases hd'
    rw [h] at hsplit
    cases hsplit
    exact hfault

end Directive

end ShaderVariant
