import ShaderVariant.Compiler.Recorder
import ShaderVariant.Proofs.Library.Session

/-!
# Libraries with different compilers

A library sees of a compiler only what it answers. So compilers that answer alike lead to the same library.

* `Simulates` : a relation of compilers that answer alike and stay related;
* `Simulates.step`, `Simulates.run` : with related compilers, sessions with the same library go on with the same library;
* `Recorder.simulates` : a recorder and the compiler behind it;
* `Traced`, `Session.calls` : any compiler with its calls written down, and the calls of a run.
-/

namespace ShaderVariant

variable {σ τ : Type} [ProgramCompiler σ] [ProgramCompiler τ]

/-- Related compilers answer alike and are related after a call. -/
structure Simulates (R : σ → τ → Prop) : Prop where
  compile : ∀ {c : σ} {d : τ}, R c d → ∀ q : CompileRequest, ∃ r c' d',
    ProgramCompiler.compile q c = (r, c') ∧ ProgramCompiler.compile q d = (r, d') ∧ R c' d'
  release : ∀ {c : σ} {d : τ}, R c d → ∀ p : Program, R (ProgramCompiler.release p c) (ProgramCompiler.release p d)
  slot? : ∀ {c : σ} {d : τ}, R c d → ∀ (p : Program) (kind : SlotKind) (name : String),
    ProgramCompiler.slot? c p kind name = ProgramCompiler.slot? d p kind name

def Alike {α β : Type} (R : σ → τ → Prop) (x : α × β × σ) (y : α × β × τ) : Prop :=
  ∃ r s c d, x = (r, s, c) ∧ y = (r, s, d) ∧ R c d

def Session.Alike (R : σ → τ → Prop) (x : Session σ) (y : Session τ) : Prop :=
  x.library = y.library ∧ R x.compiler y.compiler

omit [ProgramCompiler σ] [ProgramCompiler τ] in
theorem Alike.ofPair {α : Type} {R : σ → τ → Prop} {x : α × Library × σ} {y : α × Library × τ} (h : Alike R x y) :
    Session.Alike R (.ofPair x.2) (.ofPair y.2) := by
  obtain ⟨r, l, c, d, rfl, rfl, hR⟩ := h
  exact ⟨rfl, hR⟩

namespace Simulates

variable {R : σ → τ → Prop} {c : σ} {d : τ}

/-! ## Shaders -/

theorem resolveSlots_eq (h : Simulates R) (hR : R c d) (s : Shader) (p : Program) :
    s.resolveSlots c p = s.resolveSlots d p := by
  have hslot : ∀ kind name, Shader.slot c p kind name = Shader.slot d p kind name := by
    intro kind name
    unfold Shader.slot
    rw [h.slot? hR]
  unfold Shader.resolveSlots
  simp only [hslot]

theorem releaseReplaced (h : Simulates R) (hR : R c d) (old : Option Program) :
    R (Shader.releaseReplaced old c) (Shader.releaseReplaced old d) := by
  cases old with
  | none => exact hR
  | some p => exact h.release hR p

theorem releaseAll (h : Simulates R) (hR : R c d) (ps : List Program) :
    R (Shader.releaseAll ps c) (Shader.releaseAll ps d) := by
  induction ps generalizing c d with
  | nil => exact hR
  | cons p ps ih => exact ih (h.release hR p)

theorem build (h : Simulates R) (hR : R c d) (w : Workspace) (i : Nat) (decl : ContextDecl) (key : Mask) (s : Shader) :
    Alike R (s.build w i decl key c) (s.build w i decl key d) := by
  unfold Shader.build
  cases s.prepare w i decl key with
  | mk r s₁ =>
    cases r with
    | error e => exact ⟨_, _, _, _, rfl, rfl, hR⟩
    | ok stages =>
      obtain ⟨r, c', d', hc, hd, hR'⟩ := h.compile hR (s₁.request decl key stages)
      simp only [hc, hd]
      cases r with
      | error f => exact ⟨_, _, _, _, rfl, rfl, hR'⟩
      | ok p =>
        simp only [h.resolveSlots_eq hR']
        exact ⟨_, _, _, _, rfl, rfl, h.releaseReplaced hR' _⟩

theorem ensure (h : Simulates R) (hR : R c d) (w : Workspace) (i : Nat) (m : Mask) (s : Shader) :
    Alike R (s.ensure w i m c) (s.ensure w i m d) := by
  unfold Shader.ensure
  cases s.loadError? with
  | some e => exact ⟨_, _, _, _, rfl, rfl, hR⟩
  | none =>
    cases s.contexts[i]? with
    | none => exact ⟨_, _, _, _, rfl, rfl, hR⟩
    | some ctx =>
      cases s.combinationKey w i m with
      | mk key s₁ =>
        obtain ⟨r, s₂, c', d', hc, hd, hR'⟩ := h.build hR w i ctx.decl key s₁
        cases hb : ctx.combination? key with
        | none =>
          simp only [hc, hd, hb]
          cases r <;> exact ⟨_, _, _, _, rfl, rfl, hR'⟩
        | some b =>
          simp only [hc, hd, hb]
          cases b.isStale s₁.generation with
          | true => cases r <;> exact ⟨_, _, _, _, rfl, rfl, hR'⟩
          | false => cases b.lastError <;> exact ⟨_, _, _, _, rfl, rfl, hR⟩

theorem getCombination (h : Simulates R) (hR : R c d) (w : Workspace) (context : String) (m : Mask) (s : Shader) :
    Alike R (s.getCombination w context m c) (s.getCombination w context m d) := by
  unfold Shader.getCombination
  cases s.loadError? with
  | some e => exact ⟨_, _, _, _, rfl, rfl, hR⟩
  | none =>
    cases s.findContext? context with
    | none => exact ⟨_, _, _, _, rfl, rfl, hR⟩
    | some i =>
      obtain ⟨r, s₁, c', d', hc, hd, hR'⟩ := h.ensure hR w i m s
      simp only [Shader.getCombinationAt, hc, hd]
      cases r <;> exact ⟨_, _, _, _, rfl, rfl, hR'⟩

theorem ensureAll (h : Simulates R) (hR : R c d) (w : Workspace) (i : Nat) (ms : List Mask) (s : Shader) :
    Alike R (s.ensureAll w i ms c) (s.ensureAll w i ms d) := by
  induction ms generalizing s c d with
  | nil => exact ⟨_, _, _, _, rfl, rfl, hR⟩
  | cons m ms ih =>
    obtain ⟨r, s₁, c₁, d₁, hc, hd, hR₁⟩ := h.ensure hR w i m s
    obtain ⟨report, s₂, c₂, d₂, hc', hd', hR₂⟩ := ih hR₁ s₁
    simp only [Shader.ensureAll, hc, hd, hc', hd']
    exact ⟨_, _, _, _, rfl, rfl, hR₂⟩

theorem compileEach (h : Simulates R) (hR : R c d) (w : Workspace) (masks : List Mask) (is : List Nat) (s : Shader) :
    Alike R (s.compileEach w masks is c) (s.compileEach w masks is d) := by
  induction is generalizing s c d with
  | nil => exact ⟨_, _, _, _, rfl, rfl, hR⟩
  | cons i is ih =>
    obtain ⟨report, s₁, c₁, d₁, hc, hd, hR₁⟩ := h.ensureAll hR w i masks (s.link w.fragments i)
    obtain ⟨rest, s₂, c₂, d₂, hc', hd', hR₂⟩ := ih hR₁ (s₁.modifyContext i fun ctx => { ctx with compiled := true })
    simp only [Shader.compileEach, hc, hd, hc', hd']
    exact ⟨_, _, _, _, rfl, rfl, hR₂⟩

theorem compileContexts (h : Simulates R) (hR : R c d) (w : Workspace) (s : Shader) :
    Alike R (s.compileContexts w c) (s.compileContexts w d) := by
  unfold Shader.compileContexts
  cases s.loadError? with
  | some e => exact ⟨_, _, _, _, rfl, rfl, hR⟩
  | none =>
    obtain ⟨report, s₁, c', d', hc, hd, hR'⟩ := h.compileEach hR w s.preLoad (List.range s.contexts.length) s
    simp only [hc, hd]
    exact ⟨_, _, _, _, rfl, rfl, hR'⟩

theorem releaseShader (h : Simulates R) (hR : R c d) (s : Shader) :
    ∃ s' c' d', s.release c = (s', c') ∧ s.release d = (s', d') ∧ R c' d' :=
  ⟨_, _, _, rfl, rfl, h.releaseAll hR s.programs⟩

/-! ## Libraries -/

variable {l : Library}

theorem reloadShaderText (h : Simulates R) (hR : R c d) (k : ShaderKey) (t : Text) :
    Alike R (l.reloadShaderText k t c) (l.reloadShaderText k t d) := by
  unfold Library.reloadShaderText
  cases l.shader? k with
  | none => exact ⟨_, _, _, _, rfl, rfl, hR⟩
  | some s =>
    obtain ⟨released, c₁, d₁, hc, hd, hR₁⟩ := h.releaseShader hR s
    simp only [hc, hd]
    cases l.buildShader s.name t with
    | mk r l₁ =>
      cases r with
      | error e => exact ⟨_, _, _, _, rfl, rfl, hR₁⟩
      | ok content =>
        obtain ⟨report, s₂, c₂, d₂, hc', hd', hR₂⟩ :=
          h.compileContexts hR₁ l₁.workspace (released.apply content.1 content.2)
        cases hready : s.ready with
        | false =>
          simp only [Bool.false_eq_true, if_false]
          exact ⟨_, _, _, _, rfl, rfl, hR₁⟩
        | true =>
          simp only [if_true, hc', hd']
          exact ⟨_, _, _, _, rfl, rfl, hR₂⟩

theorem reloadShader (h : Simulates R) (hR : R c d) (k : ShaderKey) :
    Alike R (l.reloadShader k c) (l.reloadShader k d) := by
  unfold Library.reloadShader
  cases l.shader? k with
  | none => exact ⟨_, _, _, _, rfl, rfl, hR⟩
  | some s =>
    dsimp only
    cases l.readSource s.name with
    | mk r l₁ =>
      cases r with
      | error e =>
        obtain ⟨released, c₁, d₁, hc, hd, hR₁⟩ := h.releaseShader hR s
        simp only [hc, hd]
        exact ⟨_, _, _, _, rfl, rfl, hR₁⟩
      | ok t => exact h.reloadShaderText hR k t

theorem removeShader (h : Simulates R) (hR : R c d) (k : ShaderKey) :
    Alike R (l.removeShader k c) (l.removeShader k d) := by
  unfold Library.removeShader
  cases l.shader? k with
  | none => exact ⟨_, _, _, _, rfl, rfl, hR⟩
  | some s => exact ⟨_, _, _, _, rfl, rfl, h.releaseAll hR s.programs⟩

theorem compileShader (h : Simulates R) (hR : R c d) (k : ShaderKey) :
    Alike R (l.compileContexts k c) (l.compileContexts k d) := by
  unfold Library.compileContexts
  cases l.shader? k with
  | none => exact ⟨_, _, _, _, rfl, rfl, hR⟩
  | some s =>
    obtain ⟨report, s₁, c₁, d₁, hc, hd, hR₁⟩ := h.compileContexts hR l.workspace s
    simp only [hc, hd]
    exact ⟨_, _, _, _, rfl, rfl, hR₁⟩

theorem compileShaders (h : Simulates R) (hR : R c d) (ks : List ShaderKey) :
    Alike R (l.compileEach ks c) (l.compileEach ks d) := by
  induction ks generalizing l c d with
  | nil => exact ⟨_, _, _, _, rfl, rfl, hR⟩
  | cons k ks ih =>
    unfold Library.compileEach
    cases l.shader? k with
    | none => exact ih hR
    | some s =>
      cases hload : s.isLoaded with
      | false =>
        simp only [hload, Bool.false_eq_true, if_false]
        exact ih hR
      | true =>
        obtain ⟨report, s₁, c₁, d₁, hc, hd, hR₁⟩ := h.compileContexts hR l.workspace s
        obtain ⟨rest, l₂, c₂, d₂, hc', hd', hR₂⟩ := ih (l := l.setShader k s₁) hR₁
        simp only [hload, if_true, hc, hd, hc', hd']
        exact ⟨_, _, _, _, rfl, rfl, hR₂⟩

theorem getShaderCombination (h : Simulates R) (hR : R c d) (k : ShaderKey) (context : String) (m : Mask) :
    Alike R (l.getCombination k context m c) (l.getCombination k context m d) := by
  unfold Library.getCombination
  cases l.shader? k with
  | none => exact ⟨_, _, _, _, rfl, rfl, hR⟩
  | some s =>
    obtain ⟨r, s₁, c₁, d₁, hc, hd, hR₁⟩ := h.getCombination hR l.workspace context m s
    simp only [hc, hd]
    exact ⟨_, _, _, _, rfl, rfl, hR₁⟩

theorem program? (h : Simulates R) (hR : R c d) (k : ShaderKey) (context : String) (m : Mask) :
    Alike R (l.program? k context m c) (l.program? k context m d) := by
  obtain ⟨r, l₁, c₁, d₁, hc, hd, hR₁⟩ := h.getShaderCombination (l := l) hR k context m
  simp only [Library.program?, hc, hd]
  cases r <;> exact ⟨_, _, _, _, rfl, rfl, hR₁⟩

/-! ## Sessions -/

/-- An operation leaves the same library, whichever of two related compilers is used. -/
theorem step (h : Simulates R) {x : Session σ} {y : Session τ} (hxy : x.Alike R y) (op : Operation) :
    (x.step op).Alike R (y.step op) := by
  obtain ⟨l, c⟩ := x
  obtain ⟨l', d⟩ := y
  obtain ⟨rfl, hR⟩ : l = l' ∧ R c d := hxy
  cases op with
  | reloadShader k => exact (h.reloadShader hR k).ofPair
  | reloadShaderText k t => exact (h.reloadShaderText hR k t).ofPair
  | removeShader k => exact (h.removeShader hR k).ofPair
  | releaseShader k =>
    show Session.Alike R (.ofPair (Session.releaseShader l k c)) (.ofPair (Session.releaseShader l k d))
    unfold Session.releaseShader
    cases l.shader? k with
    | none => exact ⟨rfl, hR⟩
    | some s => exact ⟨rfl, h.releaseAll hR s.programs⟩
  | compileContexts k => exact (h.compileShader hR k).ofPair
  | compileAll => exact (h.compileShaders hR l.shaders.keys).ofPair
  | getCombination k context m => exact (h.getShaderCombination hR k context m).ofPair
  | program k context m => exact (h.program? hR k context m).ofPair
  | _ => exact ⟨rfl, hR⟩

theorem run (h : Simulates R) {x : Session σ} {y : Session τ} (hxy : x.Alike R y) (ops : List Operation) :
    (x.run ops).Alike R (y.run ops) := by
  induction ops generalizing x y with
  | nil => exact hxy
  | cons op ops ih => exact ih (h.step hxy op)

end Simulates

/-! ## Recorders -/

namespace Recorder

def Passes (r : Recorder) (d : DryRun) : Prop := r.compiler = d ∧ r.pending = none

theorem simulates : Simulates Passes where
  compile := by
    rintro r _ ⟨rfl, hp⟩ q
    show ∃ _ _ _, r.compile q = _ ∧ r.compiler.compile q = _ ∧ _
    unfold compile
    rw [hp]
    cases hc : r.compiler.compile q with
    | mk x d => cases x <;> exact ⟨_, _, _, rfl, rfl, rfl, rfl⟩
  release := by
    rintro r _ ⟨rfl, hp⟩ p
    exact ⟨rfl, hp⟩
  slot? := by
    rintro r _ ⟨rfl, hp⟩ p kind name
    rfl

end Recorder

/-! ## Calls of a run -/

/-- A compiler whose calls are written down, the latest first. -/
structure Traced (σ : Type) where
  compiler : σ
  calls : List CompilerCall

namespace Traced

instance : ProgramCompiler (Traced σ) where
  compile q t :=
    match ProgramCompiler.compile q t.compiler with
    | (r, c) => (r, ⟨c, .compile q r.toOption :: t.calls⟩)
  release p t := ⟨ProgramCompiler.release p t.compiler, .release p :: t.calls⟩
  slot? t := ProgramCompiler.slot? t.compiler

theorem simulates : Simulates fun (t : Traced σ) (c : σ) => t.compiler = c where
  compile := by
    rintro t _ rfl q
    exact ⟨_, _, _, rfl, rfl, rfl⟩
  release := by
    rintro t _ rfl p
    rfl
  slot? := by
    rintro t _ rfl p kind name
    rfl

end Traced

def Session.traced (x : Session σ) : Session (Traced σ) := ⟨x.library, ⟨x.compiler, []⟩⟩

/-- The calls of a run, the latest first. -/
def Session.calls (x : Session σ) (ops : List Operation) : List CompilerCall := (x.traced.run ops).compiler.calls

theorem Session.traced_run (x : Session σ) (ops : List Operation) :
    (x.traced.run ops).library = (x.run ops).library ∧ (x.traced.run ops).compiler.compiler = (x.run ops).compiler :=
  Traced.simulates.run (x := x.traced) (y := x) ⟨rfl, rfl⟩ ops

end ShaderVariant
