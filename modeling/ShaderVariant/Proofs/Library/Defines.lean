import ShaderVariant.Proofs.Library.Declared
import ShaderVariant.Proofs.Library.Preview

/-!
# Definitions of requested flags

Gating leaves `#if` and `#elif` to the compiler. So that their expressions can test flags, the flags of a mask are defined
in front of the gated text.

* `expressionNames` : the names in the expressions of a text;
* `Shader.defineLine_mem_stageHeader` : the flags that are defined in front of a source;
* `requested_defined_iff` : just which flags of a request are defined for the compiler: those that the context uses, if
  masks are reduced;
* `expression_undefined` : a flag that only expressions test is not among them.
-/

namespace ShaderVariant

/-! ## Expressions -/

def Directive.argument (line : Text) : Text := (Text.trimStart (line.trimStart.drop 1)).dropWhile Text.isLetter

/-- The expression behind `#if` or `#elif`, if that is what a line is. -/
def Directive.expression? (line : Text) : Option Text :=
  match ofLine? line with
  | some .ifExpr => some (argument line)
  | some .elifExpr => some (argument line)
  | _ => none

def expressionNames (t : Text) : List String :=
  (t.splitLines.filterMap Directive.expression?).flatMap DryRun.occurrences

/-! ## Definitions -/

namespace Shader

def defineLine (name : String) : Text := "#define ".toList ++ name.toList ++ ['\n']

theorem defineLine_injective : Function.Injective defineLine := by
  intro x y h
  unfold defineLine at h
  exact String.toList_injective (List.append_cancel_left (List.append_cancel_right h))

theorem endsLine_defineLine (name : String) : Text.endsLine (defineLine name) = true := Text.endsLine_append _ rfl

theorem newline_not_mem_of_isIdentifier {t : Text} (h : Text.isIdentifier t = true) : '\n' ∉ t := by
  cases t with
  | nil => exact List.not_mem_nil
  | cons c t =>
    rw [Text.isIdentifier, Bool.and_eq_true, List.all_eq_true] at h
    intro hm
    rcases List.mem_cons.1 hm with rfl | hm
    · exact absurd h.1 (by decide)
    · exact absurd (h.2 _ hm) (by decide)

theorem splitLines_defines {names : List String} (h : ∀ name ∈ names, Text.isIdentifier name.toList = true) :
    (defines names).splitLines = names.map defineLine := by
  induction names with
  | nil => rfl
  | cons name names ih =>
    obtain ⟨hname, hnames⟩ := List.forall_mem_cons.1 h
    have hline : (defineLine name).splitLines = [defineLine name] := by
      refine Text.areLines_singleton_iff.1 (Text.areLines_append_newline ?_)
      rw [List.mem_append, not_or]
      exact ⟨by decide, newline_not_mem_of_isIdentifier hname⟩
    show (defineLine name ++ defines names).splitLines = _
    rw [Text.splitLines_append_of_endsLine (Or.inl (endsLine_defineLine name)), hline, ih hnames]
    rfl

theorem endsLine_closed (t : Text) : Text.endsLine (closed t) = true ∨ closed t = [] := by
  unfold closed
  split
  · next h =>
    rw [Bool.or_eq_true, List.isEmpty_iff] at h
    exact h.symm
  · exact Or.inl (Text.endsLine_append _ rfl)

theorem Declared.isIdentifier_of_mem_namesIn {s : Shader} (hs : s.Declared) (m : Mask) :
    ∀ flag ∈ s.vocabulary.namesIn m, Text.isIdentifier flag.toList = true := by
  intro flag hflag
  obtain ⟨i, hi, -⟩ := Vocabulary.mem_namesIn.1 hflag
  exact hs.flags i flag (Vocabulary.bitOf?_eq_some_iff.1 hi)

/-- In front of a source, the flags of the mask are defined, and what the preamble defines. -/
theorem defineLine_mem_stageHeader {s : Shader} (hs : s.Declared) {settings : Settings}
    (hemit : settings.emitFlagDefines = true) (stage : Stage) (m : Mask) (name : String) :
    defineLine name ∈ (s.stageHeader settings stage m).splitLines ↔
      name ∈ s.vocabulary.namesIn m ∨ defineLine name ∈ (closed (settings.preambles.get stage)).splitLines := by
  unfold stageHeader
  rw [hemit, if_pos rfl, Text.splitLines_append_of_endsLine (endsLine_closed _),
    splitLines_defines (hs.isIdentifier_of_mem_namesIn m),
    List.mem_append, List.mem_map_of_injective defineLine_injective, or_comm]

/-- Every requested flag that an expression of a gated text tests is defined in the header in front of it. -/
def DefinesTested (s : Shader) (m : Mask) (header gated : Text) : Prop :=
  ∀ flag ∈ expressionNames gated, ∀ bit, s.vocabulary.bitOf? flag = some bit → m.isSet bit = true →
    defineLine flag ∈ header.splitLines

theorem mem_of_freshSources {w : Workspace} {m : Mask} {s : Shader} {bound : List (Stage × Nat)} {xs : List StageSource}
    (h : s.freshSources w m bound = .ok xs) {x : StageSource} (hx : x ∈ xs) :
    ∃ b ∈ bound, s.freshSource w m b = .ok x := by
  induction bound generalizing xs with
  | nil =>
    cases h
    cases hx
  | cons b bound ih =>
    obtain ⟨y, ys, hy, hys, rfl⟩ := freshSources_cons_eq_ok.1 h
    rcases List.mem_cons.1 hx with rfl | hx
    · exact ⟨b, List.mem_cons_self, hy⟩
    · obtain ⟨b', hb', hfresh⟩ := ih hys hx
      exact ⟨b', List.mem_cons_of_mem _ hb', hfresh⟩

/-- Of the flags of a mask, the header for its key defines those that the context uses, or all of them if masks are not
reduced, and what the preamble defines. -/
theorem defineLine_mem_stageHeader_key {w : Workspace} {s : Shader} (hs : s.Declared)
    (hemit : w.settings.emitFlagDefines = true) {m key used : Mask}
    (hkey : key = if w.settings.maskUnusedFlags then m &&& used else m) (stage : Stage) {flag : String} {bit : Nat}
    (hbit : s.vocabulary.bitOf? flag = some bit) (hm : m.isSet bit = true) :
    defineLine flag ∈ (s.stageHeader w.settings stage key).splitLines ↔
      w.settings.maskUnusedFlags = false ∨ used.isSet bit = true ∨
        defineLine flag ∈ (closed (w.settings.preambles.get stage)).splitLines := by
  have hname : flag ∈ s.vocabulary.namesIn key ↔ key.isSet bit = true := by
    rw [Vocabulary.mem_namesIn, hbit]
    simp
  have hset : key.isSet bit = true ↔ w.settings.maskUnusedFlags = false ∨ used.isSet bit = true := by
    rw [hkey]
    cases w.settings.maskUnusedFlags with
    | false => simp [hm]
    | true => simp [Mask.isSet_and, hm]
  rw [defineLine_mem_stageHeader hs hemit, hname, hset, or_assoc]

end Shader

open Session in
/-- Whenever getting a combination succeeds while flags are defined, the compiler holds sources that are a header and a
gated text. Of the flags that were requested, the header defines just those that the context uses, or all of them if masks
are not reduced, and what the preamble defines. So every requested flag that the expressions of the text test is defined,
unless masks are reduced and the context does not use one of them, as the preamble does not define it. As long as the
64-bit numbers of generations and the 32-bit numbers of programs last. -/
theorem requested_defined_iff (loader : Loader) (settings : Settings) (ops : List Operation)
    (hbumps : (start loader settings DryRun.empty).bumps ops < 2 ^ 64)
    (hemit : ((start loader settings DryRun.empty).run ops).library.settings.emitFlagDefines = true)
    {k : ShaderKey} {name : String} {m : Mask} {b : Combination} {l : Library} {c : DryRun}
    (h : ((start loader settings DryRun.empty).run ops).library.getCombination k name m
      ((start loader settings DryRun.empty).run ops).compiler = (.ok b, l, c))
    (hrange : c.successes < 2 ^ 32) :
    let w := ((start loader settings DryRun.empty).run ops).library.workspace
    ∃ s i ctx p compiled,
      ((start loader settings DryRun.empty).run ops).library.shader? k = some s ∧ s.findContext? name = some i ∧
        s.contexts[i]? = some ctx ∧ b.program = some p ∧ c.sources? p = some compiled ∧
          ∀ x ∈ compiled, ∃ n t header gated, (x.stage, n) ∈ ctx.decl.stages.toList ∧ s.expandSection w n = .ok t ∧
            gate s.vocabulary (s.combinationKey w i m).1 t = .ok gated ∧ x.source = header ++ gated ∧
              (∀ flag bit, s.vocabulary.bitOf? flag = some bit → m.isSet bit = true →
                (Shader.defineLine flag ∈ header.splitLines ↔
                  w.settings.maskUnusedFlags = false ∨ (s.usedFlags w.fragments ctx.decl).isSet bit = true ∨
                    Shader.defineLine flag ∈ (Shader.closed (w.settings.preambles.get x.stage)).splitLines)) ∧
              (s.DefinesTested m header gated ↔ w.settings.maskUnusedFlags = false ∨
                ∀ flag ∈ expressionNames gated, ∀ bit, s.vocabulary.bitOf? flag = some bit → m.isSet bit = true →
                  (s.usedFlags w.fragments ctx.decl).isSet bit = true ∨
                    Shader.defineLine flag ∈ (Shader.closed (w.settings.preambles.get x.stage)).splitLines) := by
  intro w
  have hx : Current _ ((start loader settings DryRun.empty).run ops) :=
    current_run (current_start loader settings trivial rfl rfl) ops (by rwa [Nat.zero_add])
  obtain ⟨s, s', i, ctx, hs, hi, hctx, rfl, hframe, -, hcoherent, hserves⟩ := hx.getCombination_spec h
  have hdeclared := (Library.Reachable.run (.new loader settings) ops).declared k s hs
  have hkey := (hx.coherent k s hs).combinationKey_fst hctx (m := m)
  obtain ⟨p, compiled, hp, hout, hheld⟩ := hcoherent.of_serves hserves
  obtain ⟨-, hcompiled, -⟩ := Shader.freshSources_of_outcome hout
  have hsources := ((hframe.sameText w).freshSources_congr _ _).symm.trans hcompiled
  refine ⟨s, i, ctx, p, compiled, hs, hi, hctx, hp, hheld hrange, fun x hx => ?_⟩
  obtain ⟨⟨stage, n⟩, hb, hfresh⟩ := Shader.mem_of_freshSources hsources hx
  obtain ⟨t, gated, ht, hgated, rfl⟩ := Shader.freshSource_eq_ok.1 hfresh
  have hdefined := fun flag bit (hbit : s.vocabulary.bitOf? flag = some bit) hm =>
    Shader.defineLine_mem_stageHeader_key hdeclared hemit hkey stage hbit hm
  refine ⟨n, t, _, gated, hb, ht, hgated, rfl, hdefined, ?_, ?_⟩
  · intro htested
    cases hoff : w.settings.maskUnusedFlags with
    | false => exact Or.inl rfl
    | true =>
      refine Or.inr fun flag hflag bit hbit hm => ?_
      exact ((hdefined flag bit hbit hm).1 (htested flag hflag bit hbit hm)).resolve_left
        fun h => nomatch hoff.symm.trans h
  · intro hused flag hflag bit hbit hm
    exact (hdefined flag bit hbit hm).2 (hused.imp_right fun h => h flag hflag bit hbit hm)

/-- A shader that tests its flag in an expression only. -/
def testingSource : Text :=
  litText ["[[VS]]\n", "#if defined(SKINNING)\n", "vec4 joint;\n", "#endif\n", "void main() {}\n", "[[FS]]\n",
    "void main() {}\n"]

def testingRun (settings : Settings) : Session DryRun :=
  (Session.start default settings .empty).run [.loadShaderText "lit" testingSource]

/-- Unless masks are reduced, the expression sees the flag. -/
theorem requested_defined_iff_testingRun :
    ∃ b l c s p compiled, (testingRun default).library.getCombination ⟨1, 1⟩ "LIT" 1 (testingRun default).compiler =
        (.ok b, l, c) ∧ (testingRun default).library.shader? ⟨1, 1⟩ = some s ∧ b.program = some p ∧
      c.sources? p = some compiled ∧
        ∀ x ∈ compiled, ∃ header gated, x.source = header ++ gated ∧ s.DefinesTested 1 header gated := by
  have hrun : (Session.start default default DryRun.empty).bumps [.loadShaderText "lit" testingSource] < 2 ^ 64 ∧
      (testingRun default).library.settings.emitFlagDefines = true ∧
      (testingRun default).library.settings.maskUnusedFlags = false ∧
      ((testingRun default).library.getCombination ⟨1, 1⟩ "LIT" 1 (testingRun default).compiler).1.toBool = true ∧
      ((testingRun default).library.getCombination ⟨1, 1⟩ "LIT" 1 (testingRun default).compiler).2.2.successes <
        2 ^ 32 := by
    decide +kernel
  obtain ⟨hbumps, hemit, hoff, hgot, hrange⟩ := hrun
  cases h : (testingRun default).library.getCombination ⟨1, 1⟩ "LIT" 1 (testingRun default).compiler with
  | mk r rest =>
    obtain ⟨l, c⟩ := rest
    rw [h] at hgot hrange
    cases r with
    | error e => cases hgot
    | ok b =>
      obtain ⟨s, i, ctx, p, compiled, hs, -, -, hp, hheld, hsources⟩ :=
        requested_defined_iff default default _ hbumps hemit h hrange
      refine ⟨b, l, c, s, p, compiled, rfl, hs, hp, hheld, fun x hx => ?_⟩
      obtain ⟨n, t, header, gated, -, -, -, hsource, -, htested⟩ := hsources x hx
      exact ⟨header, gated, hsource, htested.2 (Or.inl hoff)⟩

/-- If they are, the expression is left to the compiler without a definition of the flag that was requested. -/
theorem expression_undefined :
    ∃ b l c s p compiled, (testingRun reducing).library.getCombination ⟨1, 1⟩ "LIT" 1 (testingRun reducing).compiler =
        (.ok b, l, c) ∧ (testingRun reducing).library.settings.emitFlagDefines = true ∧
      (testingRun reducing).library.shader? ⟨1, 1⟩ = some s ∧ b.program = some p ∧ c.sources? p = some compiled ∧
        s.vocabulary.bitOf? "SKINNING" = some 0 ∧ Mask.isSet 1 0 = true ∧
          ∃ x ∈ compiled, "SKINNING" ∈ expressionNames x.source ∧
            Shader.defineLine "SKINNING" ∉ x.source.splitLines := by
  have hshader : (testingRun reducing).library.settings.emitFlagDefines = true ∧ Mask.isSet 1 0 = true ∧
      ∃ s ∈ (testingRun reducing).library.shader? ⟨1, 1⟩, s.vocabulary.bitOf? "SKINNING" = some 0 := by
    decide +kernel
  have hrun : ∃ compiled ∈ (((testingRun reducing).library.getCombination ⟨1, 1⟩ "LIT" 1
        (testingRun reducing).compiler).1.toOption.bind Combination.program).bind
          ((testingRun reducing).library.getCombination ⟨1, 1⟩ "LIT" 1 (testingRun reducing).compiler).2.2.sources?,
      ∃ x ∈ compiled, "SKINNING" ∈ expressionNames x.source ∧
        Shader.defineLine "SKINNING" ∉ x.source.splitLines := by
    decide +kernel
  obtain ⟨hemit, hset, s, hs, hbit⟩ := hshader
  obtain ⟨compiled, hcompiled, hx⟩ := hrun
  obtain ⟨p, hp, hcompiled⟩ := Option.bind_eq_some_iff.1 hcompiled
  obtain ⟨b, hb, hp⟩ := Option.bind_eq_some_iff.1 hp
  exact ⟨b, _, _, s, p, compiled, Prod.ext (toOption_eq_some_iff.1 hb) rfl, hemit, hs, hp, hcompiled, hbit, hset, hx⟩

end ShaderVariant
