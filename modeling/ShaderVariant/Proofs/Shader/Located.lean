import ShaderVariant.Proofs.Compiler.Diagnostics
import ShaderVariant.Proofs.Library.Defines
import ShaderVariant.Proofs.Shader.Avoids
import ShaderVariant.Proofs.Source.Finality

/-!
# Places of compile failures

A dry run counts the lines of the final source of a stage. Behind the header those are the lines of the section with its
includes expanded, since gating keeps every line in its place.

* `Selected` : a line of a text lies only in branches on flags that a mask selects;
* `gate_errorLine_iff` : the `#error` lines of a gated text are those that are selected, at the same places;
* `Shader.headerLength` : the number of lines in front of a gated text; `length_lines_stageHeader` : it is that;
* `Shader.Provides` : what provides a line of a final source, the header or the section;
* `Shader.errorLine_iff` : the `#error` lines of a final source, by what provides them;
* `Shader.outcome_eq_compile_iff` : just which failure a build reports.
-/

namespace ShaderVariant

open DryRun (errorLine? stageError? FirstError)
open Nesting (Block)

/-! ## Lines of gated texts -/

/-- Line `i` of a text, counted from zero, is no line of a conditional on a declared flag itself, and the mask selects
every branch of such a conditional that holds it. -/
def Selected (v : Vocabulary) (m : Mask) (t : Text) (i : Nat) : Prop :=
  ∃ (b : Block) (r : Gate.Row), b.lines = t.splitLines ∧ (b.rows v [])[i]? = some r ∧
    ∃ tests, r.tests? = some tests ∧ ∀ test ∈ tests, m.isSet test.bit = test.wanted

theorem Gate.isKept_iff {m : Mask} {r : Row} :
    r.isKept m = true ↔ ∃ tests, r.tests? = some tests ∧ ∀ test ∈ tests, m.isSet test.bit = test.wanted := by
  rw [Row.isKept_eq_true_iff]
  unfold Row.tests Test.holds
  cases r.tests? <;> simp

/-- A line that is not empty stands at the place of the row that it is left of. -/
theorem Gate.getElem?_splitLines_gated {m : Mask} {rs : List Row} (h : Text.AreLines (rs.map Row.line)) {i : Nat}
    {l : Text} (hl : l ≠ []) :
    (Text.splitLines (rs.map (Row.gated m)).flatten)[i]? = some l ↔ ∃ r, rs[i]? = some r ∧ r.gated m = l := by
  rw [← Option.map_eq_some_iff, ← List.getElem?_map]
  have hcase := pieces_eq m h
  generalize Text.splitLines (rs.map (Row.gated m)).flatten = ls at hcase ⊢
  rcases hcase with hpieces | hpieces
  · rw [hpieces]
  · -- Only the empty text behind the last line feed is no line.
    rw [hpieces, List.getElem?_append]
    split
    · rfl
    · next hlt =>
      rw [List.getElem?_eq_none (Nat.le_of_not_lt hlt)]
      refine iff_of_false nofun fun h => hl ?_
      exact List.mem_singleton.1 (List.mem_of_getElem? h)

variable {v : Vocabulary} {m : Mask} {t out : Text}

/-- Gating keeps an `#error` line at its place if the mask selects it, and brings no others. -/
theorem gate_errorLine_iff (h : gate v m t = .ok out) {i : Nat} {l : Text} {text : String}
    (he : errorLine? l = some text) : out.lines[i]? = some l ↔ t.lines[i]? = some l ∧ Selected v m t i := by
  obtain ⟨rs, hrows, rfl⟩ := gate_eq_ok_iff.1 h
  have hlines := areLines_gateRows hrows
  have hline {i : Nat} {r : Gate.Row} (hr : rs[i]? = some r) : t.splitLines[i]? = some r.line := by
    rw [← Gate.map_line_rows hrows, List.getElem?_map, hr]
    rfl
  unfold Text.lines
  rw [List.getElem?_map, List.getElem?_map, Option.map_eq_some_iff, Option.map_eq_some_iff]
  constructor
  · rintro ⟨p, hp, rfl⟩
    have hne : p ≠ [] := fun hnil => Text.nil_not_mem_splitLines _ (hnil ▸ List.mem_of_getElem? hp)
    obtain ⟨r, hr, rfl⟩ := (Gate.getElem?_splitLines_gated hlines hne).1 hp
    unfold Gate.Row.gated at he ⊢
    split at he
    · next hkept =>
      obtain ⟨b, hb, -, rfl⟩ := Nesting.gateRows_eq_ok_iff.1 hrows
      rw [if_pos hkept]
      exact ⟨⟨r.line, hline hr, rfl⟩, b, r, hb, hr, Gate.isKept_iff.1 hkept⟩
    · -- What is left of a line that is not kept is empty.
      unfold Gate.reduce at he
      split at he <;> cases he
  · rintro ⟨⟨p, hp, rfl⟩, b, r, hb, hr, hsel⟩
    obtain ⟨c, hc, -, rfl⟩ := Nesting.gateRows_eq_ok_iff.1 hrows
    obtain rfl := Block.eq_of_lines_eq (hb.trans hc.symm)
    cases (hline hr).symm.trans hp
    have hne : r.line ≠ [] := fun hnil => Text.nil_not_mem_splitLines _ (hnil ▸ List.mem_of_getElem? hp)
    refine ⟨r.line, (Gate.getElem?_splitLines_gated hlines hne).2 ⟨r, hr, ?_⟩, rfl⟩
    unfold Gate.Row.gated
    rw [if_pos (Gate.isKept_iff.2 hsel)]

/-! ## Lines of final sources -/

namespace Shader

/-- The number of lines of the preamble, whose last one is ended, and one for each flag of the mask if flags are
defined. -/
def headerLength (s : Shader) (settings : Settings) (stage : Stage) (m : Mask) : Nat :=
  (closed (settings.preambles.get stage)).lines.length +
    if settings.emitFlagDefines then (s.vocabulary.namesIn m).length else 0

theorem endsLine_defines (names : List String) : Text.endsLine (defines names) = true ∨ defines names = [] := by
  induction names with
  | nil => exact Or.inr rfl
  | cons name names ih => exact Text.endsLine_or_nil (Or.inl (endsLine_defineLine name)) ih

theorem endsLine_stageHeader (s : Shader) (settings : Settings) (stage : Stage) (m : Mask) :
    Text.endsLine (s.stageHeader settings stage m) = true ∨ s.stageHeader settings stage m = [] := by
  unfold stageHeader
  refine Text.endsLine_or_nil (endsLine_closed _) ?_
  split
  · exact endsLine_defines _
  · exact Or.inr rfl

theorem length_lines_stageHeader {s : Shader} (hs : s.Declared) (settings : Settings) (stage : Stage) (m : Mask) :
    (s.stageHeader settings stage m).lines.length = s.headerLength settings stage m := by
  unfold stageHeader headerLength
  rw [Text.lines_append (endsLine_closed _), List.length_append]
  refine congrArg _ ?_
  split
  · unfold Text.lines
    rw [List.length_map, splitLines_defines (hs.isIdentifier_of_mem_namesIn m), List.length_map]
  · rfl

/-- Line `n` of the final source of a bound stage, counted from zero, is that line of the header, or a line of the
section with its includes expanded, as far behind the header, that the mask selects. -/
def Provides (w : Workspace) (s : Shader) (m : Mask) (b : Stage × Nat) (n : Nat) (l : Text) : Prop :=
  if n < s.headerLength w.settings b.1 m then (s.stageHeader w.settings b.1 m).lines[n]? = some l
  else ∃ t, s.expandSection w b.2 = .ok t ∧ t.lines[n - s.headerLength w.settings b.1 m]? = some l ∧
    Selected s.vocabulary m t (n - s.headerLength w.settings b.1 m)

variable {w : Workspace} {s : Shader} {b : Stage × Nat} {x : StageSource}

/-- The `#error` lines of a final source are those of its header and of the section, each at its place. -/
theorem errorLine_iff (hs : s.Declared) (h : s.freshSource w m b = .ok x) {n : Nat} {l : Text} {text : String}
    (he : errorLine? l = some text) : x.source.lines[n]? = some l ↔ s.Provides w m b n l := by
  obtain ⟨t, gated, ht, hgated, rfl⟩ := freshSource_eq_ok.1 h
  have hlength := length_lines_stageHeader hs w.settings b.1 m
  unfold Provides
  rw [Text.lines_append (s.endsLine_stageHeader w.settings b.1 m), List.getElem?_append, hlength]
  split
  · rfl
  · rw [gate_errorLine_iff hgated he, ht]
    simp only [Except.ok.injEq, exists_eq_left']

def ErrorFree (w : Workspace) (s : Shader) (m : Mask) (b : Stage × Nat) : Prop :=
  ∀ n l, s.Provides w m b n l → errorLine? l = none

/-- Of the lines that are provided for the final source of a bound stage, line `n` is the first `#error` line. -/
structure FirstErrorAt (w : Workspace) (s : Shader) (m : Mask) (b : Stage × Nat) (n : Nat) (l : Text)
    (text : String) : Prop where
  line : s.Provides w m b n l
  error : errorLine? l = some text
  first : ∀ i < n, ∀ l', s.Provides w m b i l' → errorLine? l' = none

/-- Whether what holds of a line keeps it from being an `#error` line has to be the same for those lines only. -/
theorem not_error_congr {l : Text} {P Q : Prop} (h : ∀ text, errorLine? l = some text → (P ↔ Q)) :
    (P → errorLine? l = none) ↔ (Q → errorLine? l = none) := by
  cases he : errorLine? l with
  | none => simp
  | some text => rw [h text he]

theorem firstError_iff (hs : s.Declared) (h : s.freshSource w m b = .ok x) {n : Nat} {l : Text} {text : String} :
    FirstError x.source.lines n l text ↔ s.FirstErrorAt w m b n l text := by
  have hothers (i : Nat) (l' : Text) := not_error_congr fun _ he => errorLine_iff (n := i) (l := l') hs h he
  constructor
  · intro hf
    exact ⟨(errorLine_iff hs h hf.error).1 hf.line, hf.error, fun i hi l' => (hothers i l').1 (hf.first i hi l')⟩
  · intro hf
    exact ⟨(errorLine_iff hs h hf.error).2 hf.line, hf.error, fun i hi l' => (hothers i l').2 (hf.first i hi l')⟩

theorem errorFree_iff (hs : s.Declared) (h : s.freshSource w m b = .ok x) :
    stageError? x = none ↔ s.ErrorFree w m b := by
  rw [DryRun.stageError?_eq_none_iff]
  simp only [List.mem_iff_getElem?, forall_exists_index]
  rw [forall_comm]
  exact forall_congr' fun n => forall_congr' fun l => not_error_congr fun _ he => errorLine_iff hs h he

/-! ## Failures -/

theorem stage_of_freshSource (h : s.freshSource w m b = .ok x) : x.stage = b.1 := by
  obtain ⟨-, -, -, -, rfl⟩ := freshSource_eq_ok.1 h
  rfl

/-- A dry run reports the first `#error` line of the first bound stage that has one. -/
theorem failure_of_freshSources (hs : s.Declared) {bound : List (Stage × Nat)} {xs : List StageSource}
    (h : s.freshSources w m bound = .ok xs) {f : CompileFailure} :
    xs.findSome? stageError? = some f ↔
      ∃ before b after n l text, bound = before ++ b :: after ∧ s.FirstErrorAt w m b n l text ∧
        (∀ b' ∈ before, s.ErrorFree w m b') ∧ f = ⟨some b.1, some (UInt32.ofNat (n + 1)), text⟩ := by
  induction bound generalizing xs with
  | nil =>
    cases h
    refine iff_of_false nofun ?_
    rintro ⟨before, b, after, -, -, -, hbound, -⟩
    exact absurd hbound (by simp)
  | cons b bound ih =>
    obtain ⟨y, ys, hy, hys, rfl⟩ := freshSources_cons_eq_ok.1 h
    rw [List.findSome?_cons]
    cases hstage : stageError? y with
    | some g =>
      obtain ⟨n, l, text, hfirst, rfl⟩ := DryRun.stageError?_eq_some_iff.1 hstage
      have hprovided := (firstError_iff hs hy).1 hfirst
      simp only [Option.some.injEq]
      constructor
      · rintro rfl
        exact ⟨[], b, bound, n, l, text, rfl, hprovided, nofun, by rw [stage_of_freshSource hy]⟩
      · rintro ⟨before, b', after, n', l', text', hbound, hfirst', hfree, rfl⟩
        cases before with
        | nil =>
          cases hbound
          have hsome := DryRun.stageError?_eq_some_iff.2 ⟨n', l', text', (firstError_iff hs hy).2 hfirst', rfl⟩
          rw [← stage_of_freshSource hy]
          exact Option.some.inj (hstage.symm.trans hsome)
        | cons c before =>
          cases hbound
          cases hstage.symm.trans ((errorFree_iff hs hy).2 (hfree b List.mem_cons_self))
    | none =>
      have hfree := (errorFree_iff hs hy).1 hstage
      simp only [ih hys]
      constructor
      · rintro ⟨before, b', after, n, l, text, rfl, hfirst, hbefore, rfl⟩
        exact ⟨b :: before, b', after, n, l, text, rfl, hfirst, List.forall_mem_cons.2 ⟨hfree, hbefore⟩, rfl⟩
      · rintro ⟨before, b', after, n, l, text, hbound, hfirst, hbefore, rfl⟩
        cases before with
        | nil =>
          cases hbound
          cases hfirst.error.symm.trans (hfree n l hfirst.line)
        | cons c before =>
          cases hbound
          exact ⟨before, b', after, n, l, text, rfl, hfirst, (List.forall_mem_cons.1 hbefore).2, rfl⟩

theorem ne_nil_of_fault? {stages : StageBindings} (h : stages.fault? = none) : stages.toList ≠ [] := by
  intro hnil
  have hunbound (stage : Stage) : stages.isBound stage = false := by
    unfold StageBindings.isBound
    cases hget : stages.get stage with
    | none => rfl
    | some i =>
      have hmem := StageBindings.mem_toList.2 hget
      rw [hnil] at hmem
      cases hmem
  rw [StageBindings.fault?, hunbound .compute, hunbound .vertex] at h
  cases h

/-- A build of a context whose stages form a program is refused by a dry run just if all sources are assembled and some
bound stage has an `#error` line. The first such line of the first such stage is reported. -/
theorem outcome_eq_compile_iff (hs : s.Declared) {d : ContextDecl} (hd : d.stages.fault? = none) {f : CompileFailure} :
    s.outcome w d m = .error (.compile s.name d.name m f) ↔
      (∃ xs, s.freshSources w m d.stages.toList = .ok xs) ∧
        ∃ before b after n l text, d.stages.toList = before ++ b :: after ∧ s.FirstErrorAt w m b n l text ∧
          (∀ b' ∈ before, s.ErrorFree w m b') ∧ f = ⟨some b.1, some (UInt32.ofNat (n + 1)), text⟩ := by
  have hvalid : d.error? s.name = none := by rw [ContextDecl.error?, hd]; rfl
  unfold outcome
  rw [hvalid]
  cases hsources : s.freshSources w m d.stages.toList with
  | error e =>
    refine iff_of_false ?_ fun h => nomatch h.1
    rintro ⟨⟩
    cases ofAssembly_of_freshSources hsources
  | ok xs =>
    have hne : xs ≠ [] := by
      rintro rfl
      cases hbound : d.stages.toList with
      | nil => exact ne_nil_of_fault? hd hbound
      | cons b bound =>
        rw [hbound] at hsources
        obtain ⟨y, ys, -, -, hcons⟩ := freshSources_cons_eq_ok.1 hsources
        cases hcons
    have hfailure : DryRun.failure? xs = xs.findSome? stageError? := by
      unfold DryRun.failure?
      rw [if_neg (by simpa using hne)]
    rw [← failure_of_freshSources hs hsources, ← hfailure]
    simp only [Except.ok.injEq, exists_eq', true_and]
    cases DryRun.failure? xs <;> simp

end Shader

end ShaderVariant
