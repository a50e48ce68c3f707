import ShaderVariant.Shader.Sources

/-!
# Building combinations

* `Shader.build` : assembles and compiles a combination. Its outcome, a failure too, is kept on the context under the
  key; a program that is replaced is released after the new one is in place, and a failure keeps the old one;
* `Shader.ensure` : the combination of a mask, built only if there is none of the present generation;
* `Shader.compileContexts` : all masks that were asked for, in all contexts;
* `Shader.release` : gives all programs back.

An operation answers with its result, the shader and the compiler after it.
-/

namespace ShaderVariant

/-- The outcome of a pass over masks: how many combinations were compiled, how many were there already, and what
failed. -/
structure BuildReport where
  compiled : Nat
  cached : Nat
  errors : List ShaderError
  deriving DecidableEq, Repr

namespace BuildReport

def empty : BuildReport := ⟨0, 0, []⟩

instance : Inhabited BuildReport := ⟨empty⟩

def isOk (r : BuildReport) : Bool := r.errors.isEmpty

def append (r t : BuildReport) : BuildReport :=
  ⟨r.compiled + t.compiled, r.cached + t.cached, r.errors ++ t.errors⟩

instance : Append BuildReport := ⟨append⟩

def ofOutcome : Except ShaderError (Combination × Bool) → BuildReport
  | .ok (_, true) => ⟨1, 0, []⟩
  | .ok (_, false) => ⟨0, 1, []⟩
  | .error e => ⟨0, 0, [e]⟩

end BuildReport

namespace Shader

variable {σ : Type} [ProgramCompiler σ]

/-! ## Slots -/

def slot (c : σ) (p : Program) (kind : SlotKind) (name : String) : Int32 :=
  (ProgramCompiler.slot? c p kind name).getD unresolvedSlot

/-- Where the engine's uniforms and the declared elements are bound in a program. -/
def resolveSlots (s : Shader) (c : σ) (p : Program) : Slots :=
  { engine := EngineUniform.all.map fun u => slot c p .uniform u.name
    samplers := s.samplers.map fun d => slot c p (.sampler (UInt32.ofNat d.unit)) d.name
    uniforms := s.uniforms.map fun u => slot c p .uniform u.name
    buffers := s.buffers.zipIdx.map fun b => slot c p (.buffer (UInt32.ofNat b.2)) b.1 }

/-! ## One combination -/

/-- The sources of a combination of the context with an index, whose stages must form a program. -/
def prepare (w : Workspace) (i : Nat) (d : ContextDecl) (key : Mask) (s : Shader) :
    Except ShaderError (List StageSource) × Shader :=
  match d.error? s.name with
  | some e => (.error e, s)
  | none => (s.link w.fragments i).stageSources w key d.stages.toList

def request (s : Shader) (d : ContextDecl) (key : Mask) (stages : List StageSource) : CompileRequest :=
  { shader := s.name, context := d.name, mask := key, stages, renderState := d.renderState }

def entry (s : Shader) (i : Nat) (key : Mask) : Combination :=
  match s.contexts[i]? with
  | none => .new key
  | some c => c.entry key

def recordFailure (s : Shader) (i : Nat) (key : Mask) (e : ShaderError) : Shader :=
  s.modifyContext i fun c => c.put key ((c.entry key).fail e s.generation)

def releaseReplaced (old : Option Program) (c : σ) : σ :=
  match old with
  | none => c
  | some p => ProgramCompiler.release p c

def build (w : Workspace) (i : Nat) (d : ContextDecl) (key : Mask) (s : Shader) (c : σ) :
    Except ShaderError Combination × Shader × σ :=
  match s.prepare w i d key with
  | (.error e, s) => (.error e, s.recordFailure i key e, c)
  | (.ok stages, s) =>
    match ProgramCompiler.compile (s.request d key stages) c with
    | (.error f, c) =>
      let e : ShaderError := .compile s.name d.name key f
      (.error e, s.recordFailure i key e, c)
    | (.ok p, c) =>
      let old := s.entry i key
      let built := old.install p s.generation (digest stages) (s.resolveSlots c p)
      (.ok built, s.modifyContext i (·.put key built), releaseReplaced old.program c)

/-! ## Look-up -/

/-- The combination of a mask in the context with an index, and whether it was built now. A failure of the present
generation is not tried again. -/
def ensure (w : Workspace) (i : Nat) (m : Mask) (s : Shader) (c : σ) :
    Except ShaderError (Combination × Bool) × Shader × σ :=
  match s.loadError? with
  | some e => (.error e, s, c)
  | none =>
    match s.contexts[i]? with
    | none => (.error (s.noContext (displayIndex i)), s, c)
    | some ctx =>
      match s.combinationKey w i m with
      | (key, s) =>
        match ctx.combination? key with
        | none =>
          match s.build w i ctx.decl key c with
          | (.error e, s, c) => (.error e, s, c)
          | (.ok b, s, c) => (.ok (b, true), s, c)
        | some b =>
          if b.isStale s.generation then
            match s.build w i ctx.decl key c with
            | (.error e, s, c) => (.error e, s, c)
            | (.ok b, s, c) => (.ok (b, true), s, c)
          else
            match b.lastError with
            | some e => (.error e, s, c)
            | none => (.ok (b, false), s, c)

def getCombinationAt (w : Workspace) (i : Nat) (m : Mask) (s : Shader) (c : σ) :
    Except ShaderError Combination × Shader × σ :=
  match s.ensure w i m c with
  | (.error e, s, c) => (.error e, s, c)
  | (.ok (b, _), s, c) => (.ok b, s, c)

def getCombination (w : Workspace) (context : String) (m : Mask) (s : Shader) (c : σ) :
    Except ShaderError Combination × Shader × σ :=
  match s.loadError? with
  | some e => (.error e, s, c)
  | none =>
    match s.findContext? context with
    | none => (.error (s.noContext context), s, c)
    | some i => s.getCombinationAt w i m c

/-! ## All that was asked for -/

/-- Builds the combinations of masks in the context with an index. A failure does not stop the others. -/
def ensureAll (w : Workspace) (i : Nat) : List Mask → Shader → σ → BuildReport × Shader × σ
  | [], s, c => (.empty, s, c)
  | m :: ms, s, c =>
    match s.ensure w i m c with
    | (r, s, c) =>
      match ensureAll w i ms s c with
      | (report, s, c) => (.ofOutcome r ++ report, s, c)

/-- Links the contexts with some indices and builds the combinations of masks in each. -/
def compileEach (w : Workspace) (masks : List Mask) : List Nat → Shader → σ → BuildReport × Shader × σ
  | [], s, c => (.empty, s, c)
  | i :: is, s, c =>
    match (s.link w.fragments i).ensureAll w i masks c with
    | (report, s, c) =>
      match compileEach w masks is (s.modifyContext i fun ctx => { ctx with compiled := true }) c with
      | (rest, s, c) => (report ++ rest, s, c)

/-- Builds every mask that was asked for in every context; the shader is ready then. -/
def compileContexts (w : Workspace) (s : Shader) (c : σ) : BuildReport × Shader × σ :=
  match s.loadError? with
  | some e => (⟨0, 0, [e]⟩, s, c)
  | none =>
    match s.compileEach w s.preLoad (List.range s.contexts.length) c with
    | (report, s, c) => (report, { s with ready := true }, c)

/-! ## Release -/

/-- Releases programs one after the other, in the order of the list. For the programs of a shader that order is an
accident of the table that holds its combinations, so what is said of these calls holds in any order. -/
def releaseAll (ps : List Program) (c : σ) : σ := ps.foldl (fun c p => ProgramCompiler.release p c) c

/-- Gives all programs back and forgets all combinations. -/
def release (s : Shader) (c : σ) : Shader × σ :=
  ({ s with contexts := s.contexts.map Context.cleared, ready := false }, releaseAll s.programs c)

end Shader

end ShaderVariant
