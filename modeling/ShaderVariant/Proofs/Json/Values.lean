import Mathlib.Data.List.DropRight
import Mathlib.Data.List.TakeWhile
import ShaderVariant.Json.Record
import ShaderVariant.Proofs.Json.Strings

/-!
# Values in JSON

* `Json.Spaces` : white space. `Json.Delimited` : what may stand behind a value;
* `Json.NumberText` : numbers without their sign (`skipNumber_append`);
* `Json.Form` : the values, and the parts of arrays and objects. Every value is passed when it is skipped, however deep
  it is nested (`Form.passed`, `skipValue_append`).
-/

namespace ShaderVariant.Json

/-! ## White space -/

def Spaces (t : Text) : Prop := ∀ c ∈ t, isSpace c = true

theorem isSpace_iff {c : Char} : isSpace c = true ↔ c = ' ' ∨ c = '\n' ∨ c = '\t' ∨ c = '\r' := by
  unfold isSpace
  simp only [Bool.or_eq_true, beq_iff_eq, or_assoc]

theorem spaces_nil : Spaces [] := fun _ h => absurd h List.not_mem_nil

theorem spaces_cons {c : Char} {b : Text} (hc : isSpace c = true) (hb : Spaces b) : Spaces (c :: b) :=
  List.forall_mem_cons.2 ⟨hc, hb⟩

theorem skipSpace_append {b : Text} (hb : Spaces b) (t : Text) : skipSpace (b ++ t) = skipSpace t :=
  List.dropWhile_append_of_pos hb

theorem skipSpace_cons {c : Char} (hc : isSpace c = false) (t : Text) : skipSpace (c :: t) = c :: t :=
  List.dropWhile_cons_of_neg (by simp [hc])

theorem skipSpace_append_cons {b : Text} (hb : Spaces b) {c : Char} (hc : isSpace c = false) (t : Text) :
    skipSpace (b ++ c :: t) = c :: t := by
  rw [skipSpace_append hb, skipSpace_cons hc]

theorem skipSpace_skipSpace (t : Text) : skipSpace (skipSpace t) = skipSpace t := by
  unfold skipSpace
  rw [List.dropWhile_idempotent]

/-- What may stand behind a value: nothing, white space, a comma, or a bracket that closes what the value is in. -/
def Delimited (t : Text) : Prop := ∀ c ∈ t.head?, isSpace c = true ∨ c = ',' ∨ c = ']' ∨ c = '\x7d'

theorem delimited_nil : Delimited [] := fun _ h => (nomatch h)

theorem delimited_cons {c : Char} (hc : c = ',' ∨ c = ']' ∨ c = '\x7d') (t : Text) : Delimited (c :: t) := by
  intro d hd
  cases hd
  exact Or.inr hc

theorem Spaces.delimited {b t : Text} (hb : Spaces b) (ht : Delimited t) : Delimited (b ++ t) := by
  cases b with
  | nil => exact ht
  | cons c b =>
    intro d hd
    cases hd
    exact Or.inl (hb c List.mem_cons_self)

/-- Nothing that goes on a number may stand there. -/
theorem Delimited.stops {t : Text} (h : Delimited t) :
    ∀ c ∈ t.head?, Text.isDigit c = false ∧ c ≠ '.' ∧ c ≠ 'e' ∧ c ≠ 'E' := by
  intro c hc
  have hcases := h c hc
  rw [isSpace_iff] at hcases
  rcases hcases with (rfl | rfl | rfl | rfl) | rfl | rfl | rfl <;> decide

/-! ## Numbers -/

def Digits (t : Text) : Prop := t ≠ [] ∧ ∀ c ∈ t, Text.isDigit c = true

/-- The whole part of a number. Only zero starts with a zero. -/
inductive WholeText : Text → Prop
  | zero : WholeText ['0']
  | digits {c : Char} {t : Text} (h : Digits (c :: t)) (hc : c ≠ '0') : WholeText (c :: t)

inductive FractionText : Text → Prop
  | absent : FractionText []
  | present {ds : Text} (h : Digits ds) : FractionText ('.' :: ds)

inductive ExponentText : Text → Prop
  | absent : ExponentText []
  | present {e : Char} {sign ds : Text} (he : e = 'e' ∨ e = 'E') (hsign : sign ∈ [[], ['+'], ['-']]) (h : Digits ds) :
      ExponentText (e :: (sign ++ ds))

/-- A number, without a sign. -/
inductive NumberText : Text → Prop
  | mk {whole fraction exponent : Text} (hw : WholeText whole) (hf : FractionText fraction)
      (he : ExponentText exponent) : NumberText (whole ++ (fraction ++ exponent))

theorem NumberText.head {t : Text} (h : NumberText t) : ∃ c u, t = c :: u ∧ Text.isDigit c = true := by
  obtain ⟨hw, -, -⟩ := h
  cases hw with
  | zero => exact ⟨'0', _, rfl, rfl⟩
  | @digits c t h _ => exact ⟨c, _, rfl, h.2 c List.mem_cons_self⟩

theorem startsDigit_append {ds : Text} (h : Digits ds) (rest : Text) : startsDigit (ds ++ rest) = true := by
  obtain ⟨hne, hds⟩ := h
  cases ds with
  | nil => exact absurd rfl hne
  | cons c ds => exact hds c List.mem_cons_self

theorem startsDigit_eq_false {t : Text} (h : ∀ c ∈ t.head?, Text.isDigit c = false) : startsDigit t = false := by
  cases t with
  | nil => rfl
  | cons c t => exact h c rfl

theorem skipDigits_append {ds rest : Text} (hds : ∀ c ∈ ds, Text.isDigit c = true)
    (hrest : ∀ c ∈ rest.head?, Text.isDigit c = false) : skipDigits (ds ++ rest) = rest := by
  unfold skipDigits
  rw [List.dropWhile_append_of_pos hds]
  cases rest with
  | nil => rfl
  | cons c rest => exact List.dropWhile_cons_of_neg (by simp [hrest c rfl])

theorem skipExponent_append {sign ds rest : Text} (hsign : sign ∈ [[], ['+'], ['-']]) (hds : Digits ds)
    (hrest : Delimited rest) : skipExponent (sign ++ ds ++ rest) = .ok rest := by
  have hsplit : (Numeral.splitSign (sign ++ ds ++ rest)).2 = ds ++ rest := by
    obtain ⟨c, ds, rfl⟩ := List.exists_cons_of_ne_nil hds.1
    simp only [List.mem_cons, List.not_mem_nil, or_false] at hsign
    rcases hsign with rfl | rfl | rfl
    · have hc := hds.2 c List.mem_cons_self
      rw [List.nil_append, List.cons_append, Numeral.splitSign]
      · rintro t ht
        cases ht
        cases hc
      · rintro t ht
        cases ht
        cases hc
    · rfl
    · rfl
  simp only [skipExponent, hsplit, startsDigit_append hds, if_true]
  rw [skipDigits_append hds.2 fun c hc => (hrest.stops c hc).1]

theorem skipExponentPart_append {exponent rest : Text} (h : ExponentText exponent) (hrest : Delimited rest) :
    skipExponentPart (exponent ++ rest) = .ok rest := by
  cases h with
  | absent =>
    cases rest with
    | nil => rfl
    | cons c rest =>
      obtain ⟨-, -, he, hE⟩ := hrest.stops c rfl
      rw [List.nil_append, skipExponentPart]
      · rintro t ht
        cases ht
        exact he rfl
      · rintro t ht
        cases ht
        exact hE rfl
  | present he hsign hds =>
    rcases he with rfl | rfl <;> exact skipExponent_append hsign hds hrest

/-- Behind a fraction, an exponent starts, or what may stand behind a number. -/
theorem exponent_stops {exponent rest : Text} (h : ExponentText exponent) (hrest : Delimited rest) :
    ∀ c ∈ (exponent ++ rest).head?, Text.isDigit c = false ∧ c ≠ '.' := by
  cases h with
  | absent => exact fun c hc => ⟨(hrest.stops c hc).1, (hrest.stops c hc).2.1⟩
  | present he hsign hds =>
    intro c hc
    cases hc
    rcases he with rfl | rfl <;> decide

theorem skipFraction_append {fraction exponent rest : Text} (hf : FractionText fraction) (he : ExponentText exponent)
    (hrest : Delimited rest) : skipFraction (fraction ++ (exponent ++ rest)) = .ok rest := by
  have hstops := exponent_stops he hrest
  have hskip := skipExponentPart_append he hrest
  cases hf with
  | absent =>
    rw [List.nil_append]
    generalize exponent ++ rest = t at hstops hskip
    cases t with
    | nil => exact hskip
    | cons c t =>
      rw [skipFraction]
      · exact hskip
      · rintro u hu
        cases hu
        exact (hstops '.' rfl).2 rfl
  | @present ds hds =>
    show skipFraction ('.' :: (ds ++ (exponent ++ rest))) = _
    rw [skipFraction, if_pos (startsDigit_append hds _), skipDigits_append hds.2 fun c hc => (hstops c hc).1, hskip]

theorem skipNumber_append {t rest : Text} (h : NumberText t) (hrest : Delimited rest) :
    skipNumber (t ++ rest) = .ok rest := by
  obtain @⟨whole, fraction, exponent, hw, hf, he⟩ := h
  have hskip := skipFraction_append hf he hrest
  have hstops : ∀ c ∈ (fraction ++ (exponent ++ rest)).head?, Text.isDigit c = false := by
    cases hf with
    | absent => exact fun c hc => (exponent_stops he hrest c hc).1
    | present h =>
      intro c hc
      cases hc
      decide
  rw [List.append_assoc, List.append_assoc]
  cases hw with
  | zero =>
    rw [List.singleton_append, skipNumber, if_pos rfl, startsDigit_eq_false hstops]
    exact hskip
  | @digits c t h hc =>
    obtain ⟨hdigit, hds⟩ := List.forall_mem_cons.1 h.2
    rw [List.cons_append, skipNumber, if_neg hc, if_pos hdigit, skipDigits_append hds hstops, hskip]

/-! ## Values -/

/-- The parts of a value: a value between white space, members with their keys, and what stands between brackets. -/
inductive Part where
  | value
  | element
  | elements
  | member
  | members

inductive Form : Part → Text → Prop
  | null : Form .value "null".toList
  | bool (b : Bool) : Form .value (writeBool b)
  | number {t : Text} (h : NumberText t) : Form .value t
  | negative {t : Text} (h : NumberText t) : Form .value ('-' :: t)
  | string {t : Text} (h : SkippedText t) : Form .value ('"' :: t)
  | emptyArray {b : Text} (hb : Spaces b) : Form .value ('[' :: (b ++ [']']))
  | array {t : Text} (h : Form .elements t) : Form .value ('[' :: (t ++ [']']))
  | emptyObject {b : Text} (hb : Spaces b) : Form .value ('\x7b' :: (b ++ ['\x7d']))
  | object {t : Text} (h : Form .members t) : Form .value ('\x7b' :: (t ++ ['\x7d']))
  | element {b v b' : Text} (hb : Spaces b) (h : Form .value v) (hb' : Spaces b') : Form .element (b ++ (v ++ b'))
  | lastElement {t : Text} (h : Form .element t) : Form .elements t
  | elements {t u : Text} (h : Form .element t) (hmore : Form .elements u) : Form .elements (t ++ ',' :: u)
  | member {b k b' t : Text} (hb : Spaces b) (hk : SkippedText k) (hb' : Spaces b') (h : Form .element t) :
      Form .member (b ++ '"' :: (k ++ (b' ++ ':' :: t)))
  | lastMember {t : Text} (h : Form .member t) : Form .members t
  | members {t u : Text} (h : Form .member t) (hmore : Form .members u) : Form .members (t ++ ',' :: u)

/-! ## Steps of skipping -/

variable {outer : List Enclosing} {inner : Enclosing} {s : SkipState} {t rest : Text}

theorem skipPieces_of_start (h : skipStart outer t = .ok (s, rest)) :
    skipPieces (.value, outer) t = skipPieces s rest := by
  rw [skipPieces]
  split <;> simp_all

theorem skipPieces_of_behind (h : skipBehind inner outer t = .ok (s, rest)) :
    skipPieces (.behind, inner :: outer) t = skipPieces s rest := by
  rw [skipPieces]
  split <;> simp_all

theorem skipPieces_value_congr {u : Text} (h : skipSpace t = skipSpace u) :
    skipPieces (.value, outer) t = skipPieces (.value, outer) u := by
  have hstart : skipStart outer t = skipStart outer u := by
    unfold skipStart
    rw [h]
  rw [skipPieces, skipPieces]
  split <;> split <;> simp_all

theorem skipPieces_behind_congr {u : Text} (h : skipSpace t = skipSpace u) :
    skipPieces (.behind, inner :: outer) t = skipPieces (.behind, inner :: outer) u := by
  have hbehind : skipBehind inner outer t = skipBehind inner outer u := by
    unfold skipBehind
    rw [h]
  rw [skipPieces, skipPieces]
  split <;> split <;> simp_all

/-! ## How parts start -/

/-- A part starts with a mark that closes nothing, behind white space. -/
def Starts (t : Text) : Prop :=
  ∃ b c u, Spaces b ∧ t = b ++ c :: u ∧ isSpace c = false ∧ c ≠ ']' ∧ c ≠ '\x7d'

theorem Starts.append {t : Text} (h : Starts t) (u : Text) : Starts (t ++ u) := by
  obtain ⟨b, c, v, hb, rfl, hc⟩ := h
  exact ⟨b, c, v ++ u, hb, List.append_assoc .., hc⟩

theorem Starts.space_append {b t : Text} (hb : Spaces b) (h : Starts t) : Starts (b ++ t) := by
  obtain ⟨b', c, v, hb', rfl, hc⟩ := h
  exact ⟨b ++ b', c, v, List.forall_mem_append.2 ⟨hb, hb'⟩, (List.append_assoc ..).symm, hc⟩

theorem starts_cons {c : Char} (hc : isSpace c = false ∧ c ≠ ']' ∧ c ≠ '\x7d') (t : Text) : Starts (c :: t) :=
  ⟨[], c, t, spaces_nil, rfl, hc⟩

theorem of_isDigit {c : Char} (h : Text.isDigit c = true) :
    isSpace c = false ∧ c ≠ '[' ∧ c ≠ ']' ∧ c ≠ '\x7b' ∧ c ≠ '\x7d' := by
  refine ⟨?_, ?_, ?_, ?_, ?_⟩
  · rw [← Bool.not_eq_true, isSpace_iff]
    rintro (rfl | rfl | rfl | rfl) <;> cases h
  all_goals
    rintro rfl
    cases h

theorem Form.starts {p : Part} {t : Text} (h : Form p t) : Starts t := by
  induction h with
  | null => exact starts_cons (by decide) _
  | bool b => cases b <;> exact starts_cons (by decide) _
  | number h =>
    obtain ⟨c, u, rfl, hc⟩ := h.head
    obtain ⟨hspace, -, harray, -, hobject⟩ := of_isDigit hc
    exact starts_cons ⟨hspace, harray, hobject⟩ u
  | negative | string | emptyArray | array | emptyObject | object => exact starts_cons (by decide) _
  | element hb _ _ ih => exact .space_append hb (ih.append _)
  | lastElement _ ih | lastMember _ ih => exact ih
  | elements _ _ ih | members _ _ ih => exact ih.append _
  | member hb => exact .space_append hb (starts_cons (by decide) _)

/-! ## Skipping -/

theorem skipScalar_number {t rest : Text} (h : NumberText t) (hrest : Delimited rest) :
    skipScalar (t ++ rest) = .ok rest := by
  have hskip := skipNumber_append h hrest
  obtain ⟨c, u, rfl, hc⟩ := h.head
  rw [List.cons_append, skipScalar, if_pos hc]
  · exact hskip
  all_goals
    rintro rfl
    cases hc

theorem skipStart_scalar {t rest : Text} {c : Char} (hspace : isSpace c = false) (harray : c ≠ '[')
    (hobject : c ≠ '\x7b') (h : skipScalar (c :: t) = .ok rest) :
    skipStart outer (c :: t) = .ok ((.behind, outer), rest) := by
  rw [skipStart, skipSpace_cons hspace]
  split
  · next hu =>
    cases hu
    exact absurd rfl harray
  · next hu =>
    cases hu
    exact absurd rfl hobject
  · rw [h]
    rfl

theorem skipStart_emptyArray (h : skipSpace t = ']' :: rest) :
    skipStart outer ('[' :: t) = .ok ((.behind, outer), rest) := by
  rw [skipStart, skipSpace_cons (by decide)]
  simp only [h]

theorem skipStart_array {c : Char} (h : skipSpace t = c :: rest) (hc : c ≠ ']') :
    skipStart outer ('[' :: t) = .ok ((.value, .array :: outer), c :: rest) := by
  rw [skipStart, skipSpace_cons (by decide)]
  simp only [h]
  split
  · next hu =>
    cases hu
    exact absurd rfl hc
  · next hu => cases hu
  · rfl

theorem skipStart_emptyObject (h : skipSpace t = '\x7d' :: rest) :
    skipStart outer ('\x7b' :: t) = .ok ((.behind, outer), rest) := by
  rw [skipStart, skipSpace_cons (by decide)]
  simp only [h]

theorem skipStart_object (outer : List Enclosing) {c : Char} (h : skipSpace t = c :: rest) (hc : c ≠ '\x7d') :
    skipStart outer ('\x7b' :: t) = goOn (.value, .object :: outer) (skipKey t) := by
  have hkey : skipKey (c :: rest) = skipKey t := by
    unfold skipKey
    rw [← h, skipSpace_skipSpace]
  rw [skipStart, skipSpace_cons (by decide)]
  simp only [h]
  split
  · next hu =>
    cases hu
    exact absurd rfl hc
  · rw [hkey]

theorem skipColon_append {b : Text} (hb : Spaces b) (t : Text) : skipColon (b ++ ':' :: t) = .ok t := by
  rw [skipColon, skipSpace_append_cons hb (by decide)]
  rfl

theorem skipKey_append {b k b' : Text} (hb : Spaces b) (hk : SkippedText k) (hb' : Spaces b') (t : Text) :
    skipKey (b ++ '"' :: (k ++ (b' ++ ':' :: t))) = .ok t := by
  rw [skipKey, skipSpace_append_cons hb (by decide)]
  simp only [skipString_append hk, skipColon_append hb']

theorem skipWord_append (w rest : Text) : skipWord w (w ++ rest) = .ok rest := by
  induction w with
  | nil => rfl
  | cons c w ih => rw [List.cons_append, skipWord, if_pos rfl, ih]

/-- What skipping comes to behind a part, whatever the part is in and whatever may stand behind it. A member is skipped in
two steps, of which the first one ends behind the colon. -/
def Passed : Part → Text → Prop
  | .value, t => ∀ outer rest, Delimited rest → skipPieces (.value, outer) (t ++ rest) = skipPieces (.behind, outer) rest
  | .element, t => ∀ inner outer rest, Delimited rest →
      skipPieces (.value, inner :: outer) (t ++ rest) = skipPieces (.behind, inner :: outer) rest
  | .elements, t => ∀ outer rest,
      skipPieces (.value, .array :: outer) (t ++ ']' :: rest) = skipPieces (.behind, outer) rest
  | .member, t => ∀ outer rest, Delimited rest → ∃ u, skipKey (t ++ rest) = .ok u ∧
      skipPieces (.value, .object :: outer) u = skipPieces (.behind, .object :: outer) rest
  | .members, t => ∀ outer rest, ∃ u, skipKey (t ++ '\x7d' :: rest) = .ok u ∧
      skipPieces (.value, .object :: outer) u = skipPieces (.behind, outer) rest

theorem passed_scalar {c : Char} {t : Text} (hspace : isSpace c = false) (harray : c ≠ '[') (hobject : c ≠ '\x7b')
    (h : ∀ rest, Delimited rest → skipScalar (c :: t ++ rest) = .ok rest) : Passed .value (c :: t) :=
  fun _ rest hrest => skipPieces_of_start (skipStart_scalar hspace harray hobject (h rest hrest))

theorem passed_number {t : Text} (h : NumberText t) : Passed .value t := by
  have hskip : ∀ rest, Delimited rest → skipScalar (t ++ rest) = .ok rest := fun rest => skipScalar_number h
  obtain ⟨c, u, rfl, hc⟩ := h.head
  obtain ⟨hspace, harray, -, hobject, -⟩ := of_isDigit hc
  exact passed_scalar hspace harray hobject hskip

theorem passed_array {t : Text} (ht : Starts t) (h : Passed .elements t) : Passed .value ('[' :: (t ++ [']'])) := by
  intro outer rest _
  obtain ⟨b, c, u, hb, htext, hc, hclose, -⟩ := ht
  have hspace : skipSpace (t ++ ']' :: rest) = c :: (u ++ ']' :: rest) := by
    rw [htext, List.append_assoc, List.cons_append, skipSpace_append_cons hb hc]
  rw [List.cons_append, List.append_assoc, List.singleton_append, skipPieces_of_start (skipStart_array hspace hclose),
    ← h outer rest]
  exact skipPieces_value_congr (by rw [hspace, skipSpace_cons hc])

theorem passed_object {t : Text} (ht : Starts t) (h : Passed .members t) :
    Passed .value ('\x7b' :: (t ++ ['\x7d'])) := by
  intro outer rest _
  obtain ⟨b, c, u, hb, htext, hc, -, hclose⟩ := ht
  obtain ⟨v, hkey, hpass⟩ := h outer rest
  have hspace : skipSpace (t ++ '\x7d' :: rest) = c :: (u ++ '\x7d' :: rest) := by
    rw [htext, List.append_assoc, List.cons_append, skipSpace_append_cons hb hc]
  have hstart := skipStart_object outer hspace hclose
  rw [hkey] at hstart
  rw [List.cons_append, List.append_assoc, List.singleton_append, skipPieces_of_start hstart, hpass]

theorem Form.passed {p : Part} {t : Text} (h : Form p t) : Passed p t := by
  -- By the grammar. Parts that are nested are in more brackets, so the brackets are kept general.
  induction h with
  | null => exact passed_scalar (by decide) (by decide) (by decide) fun rest _ => skipWord_append "ull".toList rest
  | bool b =>
    cases b with
    | false => exact passed_scalar (by decide) (by decide) (by decide) fun rest _ => skipWord_append "alse".toList rest
    | true => exact passed_scalar (by decide) (by decide) (by decide) fun rest _ => skipWord_append "rue".toList rest
  | number h => exact passed_number h
  | negative h => exact passed_scalar (by decide) (by decide) (by decide) fun rest hrest => skipNumber_append h hrest
  | string h => exact passed_scalar (by decide) (by decide) (by decide) fun rest _ => skipString_append h rest
  | emptyArray hb =>
    intro outer rest _
    rw [List.cons_append, List.append_assoc]
    exact skipPieces_of_start (skipStart_emptyArray (skipSpace_append_cons hb (by decide) rest))
  | array h ih => exact passed_array h.starts ih
  | emptyObject hb =>
    intro outer rest _
    rw [List.cons_append, List.append_assoc]
    exact skipPieces_of_start (skipStart_emptyObject (skipSpace_append_cons hb (by decide) rest))
  | object h ih => exact passed_object h.starts ih
  | element hb _ hb' ih =>
    intro inner outer rest hrest
    rw [List.append_assoc, List.append_assoc, skipPieces_value_congr (skipSpace_append hb _),
      ih _ _ (hb'.delimited hrest), skipPieces_behind_congr (skipSpace_append hb' _)]
  | lastElement _ ih =>
    intro outer rest
    rw [ih .array outer (']' :: rest) (delimited_cons (by decide) rest)]
    exact skipPieces_of_behind rfl
  | @elements t u _ _ ih ihmore =>
    intro outer rest
    rw [List.append_assoc, List.cons_append, ih .array outer _ (delimited_cons (by decide) _)]
    exact (skipPieces_of_behind rfl).trans (ihmore outer rest)
  | @member b k b' t hb hk hb' _ ih =>
    intro outer rest hrest
    refine ⟨t ++ rest, ?_, ih _ _ _ hrest⟩
    simp only [List.append_assoc, List.cons_append]
    exact skipKey_append hb hk hb' _
  | lastMember _ ih =>
    intro outer rest
    obtain ⟨u, hu, hpass⟩ := ih outer ('\x7d' :: rest) (delimited_cons (by decide) rest)
    exact ⟨u, hu, hpass.trans (skipPieces_of_behind rfl)⟩
  | @members t v _ _ ih ihmore =>
    intro outer rest
    obtain ⟨u, hu, hpass⟩ := ih outer (',' :: (v ++ '\x7d' :: rest)) (delimited_cons (by decide) _)
    obtain ⟨u', hu', hpass'⟩ := ihmore outer rest
    have hbehind : skipBehind .object outer (',' :: (v ++ '\x7d' :: rest)) = .ok ((.value, .object :: outer), u') := by
      show goOn _ (skipKey _) = _
      rw [hu']
      rfl
    refine ⟨u, ?_, hpass.trans ((skipPieces_of_behind hbehind).trans hpass')⟩
    rw [List.append_assoc]
    exact hu

/-- Every value is passed, whatever may stand behind it. -/
theorem skipValue_append {t rest : Text} (h : Form .value t) (hrest : Delimited rest) :
    skipValue (t ++ rest) = .ok rest := by
  rw [skipValue, h.passed [] rest hrest, skipPieces]

end ShaderVariant.Json
