import ShaderVariant.Library.Fragments
import ShaderVariant.Library.Shaders
import ShaderVariant.Proofs.Library.Inclusion
import ShaderVariant.Proofs.Shader.Work

/-!
# Sessions

A session is a library with the one compiler that it is used with.

* `Operation`, `Session.step`, `Session.run` : the operations of a library, in any order, with any loader in between;
* `Session.answer`, `Session.answers` : what operations answer with, and the errors among it (`Answer.errors`);
* `Session.Quiet` : steps that leave the generations of shaders alone;
* `Session.Turn` : steps after which a generation has moved, a shader has come or one has gone;
* `Session.Effect` : all that an operation does: quiet steps, one turn at most, and quiet steps again;
* `litRun` : a short run in which a fragment changes, one context compiles and another one does not.
-/

namespace ShaderVariant

open Relation (ReflTransGen)

inductive Operation where
  | setLoader (loader : Loader)
  | setSettings (settings : Settings)
  | addFragment (name : String) (t : Text)
  | loadFragment (name : String)
  | updateFragment (k : FragmentKey) (t : Text)
  | reloadFragment (k : FragmentKey)
  | removeFragment (k : FragmentKey)
  | fragmentChanged (k : FragmentKey)
  | loadShader (name : String)
  | loadShaderText (name : String) (t : Text)
  | reloadShader (k : ShaderKey)
  | reloadShaderText (k : ShaderKey) (t : Text)
  | removeShader (k : ShaderKey)
  | invalidateShader (k : ShaderKey)
  | releaseShader (k : ShaderKey)
  | preLoadMask (k : ShaderKey) (m : Mask)
  | compileContexts (k : ShaderKey)
  | compileAll
  | getCombination (k : ShaderKey) (context : String) (m : Mask)
  | program (k : ShaderKey) (context : String) (m : Mask)
  | assembleStageSources (k : ShaderKey) (context : String) (m : Mask)
  | setFloatParam (k : ShaderKey) (kind : Int) (i : Nat) (param : Int) (component : Nat) (x : Binary32)

def Operation.fragmentKey? : Operation → Option FragmentKey
  | updateFragment k _ => some k
  | reloadFragment k => some k
  | removeFragment k => some k
  | _ => none

/-- The shader that an operation reloads, takes the programs of, or removes. -/
def Operation.shaderKey? : Operation → Option ShaderKey
  | reloadShader k => some k
  | reloadShaderText k _ => some k
  | removeShader k => some k
  | releaseShader k => some k
  | _ => none

/-- A library and the compiler that it is used with. -/
structure Session (σ : Type) where
  library : Library
  compiler : σ

namespace Session

variable {σ : Type}

def ofPair (p : Library × σ) : Session σ := ⟨p.1, p.2⟩

def start (loader : Loader) (settings : Settings) (c : σ) : Session σ := ⟨.new loader settings, c⟩

def withLibrary (x : Session σ) (l : Library) : Session σ := { x with library := l }

/-- Changes a component of a default value of a shader's uniform, if there is one. -/
def setFloatParam (l : Library) (k : ShaderKey) (kind : Int) (i : Nat) (param : Int) (component : Nat) (x : Binary32) :
    Library :=
  match (l.shader? k).bind (·.setFloatParam? kind i param component x) with
  | none => l
  | some s => l.setShader k s

variable [ProgramCompiler σ]

/-- Gives back the programs of a shader, which keeps its content. -/
def releaseShader (l : Library) (k : ShaderKey) (c : σ) : Library × σ :=
  match l.shader? k with
  | none => (l, c)
  | some s => (l.setShader k (s.release c).1, (s.release c).2)

def step (x : Session σ) : Operation → Session σ
  | .setLoader loader => x.withLibrary { x.library with loader }
  | .setSettings settings => x.withLibrary (x.library.setSettings settings)
  | .addFragment name t => x.withLibrary (x.library.addFragment name t).2
  | .loadFragment name => x.withLibrary (x.library.loadFragment name).2
  | .updateFragment k t => x.withLibrary (x.library.updateFragment k t).2
  | .reloadFragment k => x.withLibrary (x.library.reloadFragment k).2
  | .removeFragment k => x.withLibrary (x.library.removeFragment k).2
  | .fragmentChanged k => x.withLibrary (x.library.fragmentChanged k).2
  | .loadShader name => x.withLibrary (x.library.loadShader name).2
  | .loadShaderText name t => x.withLibrary (x.library.loadShaderText name t).2
  | .reloadShader k => ofPair (x.library.reloadShader k x.compiler).2
  | .reloadShaderText k t => ofPair (x.library.reloadShaderText k t x.compiler).2
  | .removeShader k => ofPair (x.library.removeShader k x.compiler).2
  | .invalidateShader k => x.withLibrary (x.library.modifyShader k Shader.invalidate)
  | .releaseShader k => ofPair (releaseShader x.library k x.compiler)
  | .preLoadMask k m => x.withLibrary (x.library.preLoadMask k m).2
  | .compileContexts k => ofPair (x.library.compileContexts k x.compiler).2
  | .compileAll => ofPair (x.library.compileAll x.compiler).2
  | .getCombination k context m => ofPair (x.library.getCombination k context m x.compiler).2
  | .program k context m => ofPair (x.library.program? k context m x.compiler).2
  | .assembleStageSources k context m => x.withLibrary (x.library.assembleStageSources k context m).2
  | .setFloatParam k kind i param component a => x.withLibrary (setFloatParam x.library k kind i param component a)

def run (x : Session σ) (ops : List Operation) : Session σ := ops.foldl step x

@[simp] theorem run_nil (x : Session σ) : x.run [] = x := rfl

@[simp] theorem run_cons (x : Session σ) (op : Operation) (ops : List Operation) :
    x.run (op :: ops) = (x.step op).run ops :=
  rfl

end Session

/-! ## Answers -/

inductive Answer where
  | done
  | found (b : Bool)
  | generation (g : Option Generation)
  | count (n : Nat)
  | fragment (r : Except ShaderError FragmentKey)
  | replaced (r : Except ShaderError Nat)
  | accepted (r : Except ShaderError Unit)
  | shader (r : Except ShaderError ShaderKey)
  | built (r : Except ShaderError BuildReport)
  | combination (r : Except ShaderError Combination)
  | program (p : Option Program)
  | sources (r : Except ShaderError (List StageSource))
  deriving DecidableEq

def failures {α : Type} : Except ShaderError α → List ShaderError
  | .error e => [e]
  | .ok _ => []

theorem mem_failures {α : Type} {r : Except ShaderError α} {e : ShaderError} : e ∈ failures r ↔ r = .error e := by
  cases r <;> simp [failures, eq_comm]

def Answer.errors : Answer → List ShaderError
  | .fragment r => failures r
  | .replaced r => failures r
  | .accepted r => failures r
  | .shader r => failures r
  | .built (.ok report) => report.errors
  | .built (.error e) => [e]
  | .combination r => failures r
  | .sources r => failures r
  | _ => []

namespace Session

variable {σ : Type} [ProgramCompiler σ]

def answer (x : Session σ) : Operation → Answer
  | .setLoader _ => .done
  | .setSettings _ => .done
  | .addFragment name t => .fragment (x.library.addFragment name t).1
  | .loadFragment name => .fragment (x.library.loadFragment name).1
  | .updateFragment k t => .replaced (x.library.updateFragment k t).1
  | .reloadFragment k => .replaced (x.library.reloadFragment k).1
  | .removeFragment k => .accepted (x.library.removeFragment k).1
  | .fragmentChanged k => .count (x.library.fragmentChanged k).1
  | .loadShader name => .shader (x.library.loadShader name).1
  | .loadShaderText name t => .shader (x.library.loadShaderText name t).1
  | .reloadShader k => .built (x.library.reloadShader k x.compiler).1
  | .reloadShaderText k t => .built (x.library.reloadShaderText k t x.compiler).1
  | .removeShader k => .found (x.library.removeShader k x.compiler).1
  | .invalidateShader k => .generation ((x.library.shader? k).map fun s => s.invalidate.generation)
  | .releaseShader _ => .done
  | .preLoadMask k m => .accepted (x.library.preLoadMask k m).1
  | .compileContexts k => .built (x.library.compileContexts k x.compiler).1
  | .compileAll => .built (.ok (x.library.compileAll x.compiler).1)
  | .getCombination k context m => .combination (x.library.getCombination k context m x.compiler).1
  | .program k context m => .program (x.library.program? k context m x.compiler).1
  | .assembleStageSources k context m => .sources (x.library.assembleStageSources k context m).1
  | .setFloatParam k kind i param component a =>
    .found ((x.library.shader? k).bind (·.setFloatParam? kind i param component a)).isSome

def answers (x : Session σ) : List Operation → List Answer
  | [] => []
  | op :: ops => x.answer op :: answers (x.step op) ops

/-! ## What an operation is made of -/

/-- What may take the place of a shader whose programs were released: the shader without its combinations, without
content, or with the content of a text whose includes are stored. -/
inductive Refills (l : Library) (s : Shader) : Shader → Prop
  | cleared : Refills l s { s with contexts := s.contexts.map Context.cleared, ready := false }
  | failed (diagnostic : String) : Refills l s (s.markFailed diagnostic)
  | applied (source : ShaderSource) (sections : List Fragment) (h : l.Contents s.name source sections) :
      Refills l s (s.apply source sections)

/-- A step after which every shader that was there is there, of the same generation. -/
inductive Quiet : Session σ → Session σ → Prop
  | load {l l' : Library} (c : σ) (h : l.Loaded l') : Quiet ⟨l, c⟩ ⟨l', c⟩
  | work (l : Library) {k : ShaderKey} {s s' : Shader} {c c' : σ} (hs : l.shader? k = some s)
      (hw : Shader.Work l.workspace (s, c) (s', c')) : Quiet ⟨l, c⟩ ⟨l.setShader k s', c'⟩
  | drop (l : Library) (c : σ) {k : FragmentKey} (h : l.isIncluded k = false) :
      Quiet ⟨l, c⟩ ⟨{ l with fragments := (l.fragments.remove k).2 }, c⟩

/-- A step after which a generation may have moved. -/
inductive Turn : Session σ → Session σ → Prop
  | settings (l : Library) (c : σ) (settings : Settings) : Turn ⟨l, c⟩ ⟨l.setSettings settings, c⟩
  | edit (l : Library) (c : σ) {k : FragmentKey} {f : Fragment} {fragments : FragmentStore}
      (h : l.fragments.replaceContent k f = .ok fragments) (hf : l.Resolves f) :
      Turn ⟨l, c⟩ ⟨(({ l with fragments } : Library).fragmentChanged k).2, c⟩
  | notice (l : Library) (c : σ) (k : FragmentKey) : Turn ⟨l, c⟩ ⟨(l.fragmentChanged k).2, c⟩
  | invalidate (l : Library) (c : σ) (k : ShaderKey) : Turn ⟨l, c⟩ ⟨l.modifyShader k Shader.invalidate, c⟩
  | register (l : Library) (c : σ) {s : Shader} {name : String} {diagnostic : String} (hn : l.registered? name = none)
      (h : s = .failed name diagnostic ∨ Refills l (.failed name diagnostic) s) :
      Turn ⟨l, c⟩ ⟨(l.registerShader s).2, c⟩
  | refill (l : Library) (c : σ) {k : ShaderKey} {s s' : Shader} (hs : l.shader? k = some s) (h : Refills l s s') :
      Turn ⟨l, c⟩ ⟨l.setShader k s', Shader.releaseAll s.programs c⟩
  | discard (l : Library) (c : σ) {k : ShaderKey} {s : Shader} (hs : l.shader? k = some s) :
      Turn ⟨l, c⟩ ⟨{ l with shaders := l.shaders.remove k, names := l.names.erase s.name },
        Shader.releaseAll s.programs c⟩

/-- Quiet steps, a turn if any, and quiet steps. -/
def Effect (x y : Session σ) : Prop :=
  ∃ u v, ReflTransGen Quiet x u ∧ (u = v ∨ Turn u v) ∧ ReflTransGen Quiet v y

/-! ## Cached combinations -/

/-- The combination of a key in a context, with its shader and the context. -/
def cached? (x : Session σ) (k : ShaderKey) (i : Nat) (key : Mask) : Option (Shader × Context × Combination) :=
  (x.library.shader? k).bind fun s =>
    (s.contexts[i]?).bind fun ctx => (ctx.combination? key).map fun b => (s, ctx, b)

omit [ProgramCompiler σ] in
theorem cached?_eq_some_iff {x : Session σ} {k : ShaderKey} {i : Nat} {key : Mask} {s : Shader} {ctx : Context}
    {b : Combination} : x.cached? k i key = some (s, ctx, b) ↔
      x.library.shader? k = some s ∧ s.contexts[i]? = some ctx ∧ ctx.combination? key = some b := by
  simp only [cached?, Option.bind_eq_some_iff, Option.map_eq_some_iff, Prod.mk.injEq]
  constructor
  · rintro ⟨_, hs, _, hctx, _, hb, rfl, rfl, rfl⟩
    exact ⟨hs, hctx, hb⟩
  · rintro ⟨hs, hctx, hb⟩
    exact ⟨s, hs, ctx, hctx, b, hb, rfl, rfl, rfl⟩

end Session

/-- A result is there just if nothing failed. -/
theorem toOption_eq_some_iff {ε α : Type} {r : Except ε α} {a : α} : r.toOption = some a ↔ r = .ok a := by
  cases r with
  | error e => exact ⟨(nomatch ·), (nomatch ·)⟩
  | ok b => exact ⟨fun h => congrArg _ (Option.some.inj h), fun h => congrArg _ (Except.ok.inj h)⟩

theorem exists_eq_of_isNone {α τ : Type} {p : Except ShaderError α × τ} (h : p.1.toOption.isNone = true) :
    ∃ e t, p = (.error e, t) := by
  obtain ⟨r, t⟩ := p
  cases r with
  | error e => exact ⟨e, t, rfl⟩
  | ok a => cases h

/-! ## A short run -/

def litText (lines : List String) : Text :=
  (["[[FX]]\n", "flag SKINNING;\n", "context LIT \x7b\n", "VertexShader = ", "compile GLSL VS;\n", "PixelShader = ",
    "compile GLSL FS;\n", "\x7d\n"] ++ lines).flatMap String.toList

/-- A shader with two contexts, both of which include a fragment. The fragment stage of the second one is an error. -/
def litSource : Text :=
  litText ["context BAD \x7b\n", "VertexShader = ", "compile GLSL VS;\n", "PixelShader = ", "compile GLSL ERR;\n",
    "\x7d\n", "[[VS]]\n", "#include \"skin\"\n", "void main() {}\n", "[[FS]]\n", "void main() {}\n", "[[ERR]]\n",
    "#error no colour\n"]

def skinSource (type : String) : Text :=
  ["#ifdef SKINNING\n", type, " joint;\n", "#endif\n"].flatMap String.toList

def litOps : List Operation :=
  [.addFragment "skin" (skinSource "vec4"), .loadShaderText "lit" litSource, .getCombination ⟨1, 1⟩ "LIT" 1,
    .updateFragment ⟨1, 1⟩ (skinSource "mat4"), .getCombination ⟨1, 1⟩ "LIT" 1, .getCombination ⟨1, 1⟩ "BAD" 0]

def litRun : Session DryRun := (Session.start default default .empty).run litOps

end ShaderVariant
