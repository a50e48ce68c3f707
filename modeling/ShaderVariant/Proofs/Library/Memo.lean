import ShaderVariant.Proofs.Library.Reachable
import ShaderVariant.Proofs.Library.Simulation
import ShaderVariant.Proofs.Shader.Memo

/-!
# Libraries without what they keep

Assembled sections are kept while nothing changes, or not, as the settings say. Nothing but time depends on it.

* `Library.withoutMemo`, `Operation.withoutMemo` : the library and the operation with assembled sections not kept;
* `step_withoutMemo` : an operation on a regular library answers the same and does the same, less what is kept;
* `memo_unobservable` : runs that differ in that setting only have the same answers and calls and lead to the same
  library, less what is kept.
-/

namespace ShaderVariant

namespace Library

def withoutMemo (l : Library) : Library :=
  { l with settings := l.settings.withoutMemo, shaders := l.shaders.map Shader.withoutMemo }

def forgetLast {α : Type} (p : α × Library) : α × Library := (p.1, p.2.withoutMemo)

def forget {α τ : Type} (p : α × Library × τ) : α × Library × τ := (p.1, p.2.1.withoutMemo, p.2.2)

variable {l : Library}

@[simp] theorem fragments_withoutMemo (l : Library) : l.withoutMemo.fragments = l.fragments := rfl

@[simp] theorem fragment?_withoutMemo (l : Library) (k : FragmentKey) : l.withoutMemo.fragment? k = l.fragment? k := rfl

@[simp] theorem loader_withoutMemo (l : Library) : l.withoutMemo.loader = l.loader := rfl

@[simp] theorem workspace_withoutMemo (l : Library) : l.withoutMemo.workspace = l.workspace.withoutMemo := rfl

@[simp] theorem findShader?_withoutMemo (l : Library) (name : String) :
    l.withoutMemo.findShader? name = l.findShader? name := rfl

@[simp] theorem resolve_withoutMemo (l : Library) (owner : String) (s : Inclusion) (includes : List PendingInclude) :
    l.withoutMemo.resolve owner s includes = l.resolve owner s includes := rfl

@[simp] theorem ofLibrary_withoutMemo (l : Library) : Inclusion.ofLibrary l.withoutMemo = Inclusion.ofLibrary l := rfl

@[simp] theorem shader?_withoutMemo (l : Library) (k : ShaderKey) :
    l.withoutMemo.shader? k = (l.shader? k).map Shader.withoutMemo :=
  SlotMap.get?_map Shader.withoutMemo l.shaders k

theorem registered?_withoutMemo (l : Library) (name : String) :
    l.withoutMemo.registered? name = (l.registered? name).map fun p => (p.1, p.2.withoutMemo) := by
  unfold registered?
  rw [findShader?_withoutMemo]
  cases l.findShader? name with
  | none => rfl
  | some k =>
    simp only [Option.bind_some, shader?_withoutMemo]
    cases l.shader? k <;> rfl

/-! ## Shaders of the library -/

theorem setShader_withoutMemo (l : Library) (k : ShaderKey) (s : Shader) :
    l.withoutMemo.setShader k s.withoutMemo = (l.setShader k s).withoutMemo :=
  congrArg (fun shaders => { l.withoutMemo with shaders }) (SlotMap.map_set _ l.shaders k s).symm

theorem modifyShader_withoutMemo (l : Library) (k : ShaderKey) :
    l.withoutMemo.modifyShader k Shader.invalidate = (l.modifyShader k Shader.invalidate).withoutMemo := by
  refine congrArg (fun shaders => { l.withoutMemo with shaders }) (SlotMap.map_mapValues (fun _ s => ?_) _).symm
  split <;> rfl

theorem setSettings_withoutMemo (l : Library) (settings : Settings) :
    l.withoutMemo.setSettings settings.withoutMemo = (l.setSettings settings).withoutMemo := by
  have hstale : ∀ (k : SlotKey) (s : Shader), s.invalidate.withoutMemo = s.withoutMemo.invalidate := fun _ _ => rfl
  exact congrArg (fun shaders => { l.withoutMemo with settings := settings.withoutMemo, shaders })
    (SlotMap.map_mapValues hstale l.shaders).symm

theorem registerShader_withoutMemo (l : Library) (s : Shader) :
    l.withoutMemo.registerShader s.withoutMemo = forgetLast (l.registerShader s) :=
  congrArg (fun p : ShaderKey × SlotMap Shader =>
      (p.1, { l.withoutMemo with shaders := p.2, names := l.names.set s.name p.1 }))
    (SlotMap.map_insert Shader.withoutMemo l.shaders s)

theorem fragmentChanged_withoutMemo (l : Library) (k : FragmentKey) :
    l.withoutMemo.fragmentChanged k = forgetLast (l.fragmentChanged k) := by
  refine Prod.ext ?_ ?_
  · show l.withoutMemo.shaders.values.countP _ = l.shaders.values.countP _
    rw [withoutMemo, SlotMap.values_map, List.countP_map]
    rfl
  · refine congrArg (fun shaders => { l.withoutMemo with shaders }) (SlotMap.map_mapValues (fun _ s => ?_) _).symm
    show Shader.withoutMemo (if s.dependsOn l.fragments k then _ else _) = if s.dependsOn l.fragments k then _ else _
    split <;> rfl

theorem isIncluded_withoutMemo (l : Library) (k : FragmentKey) : l.withoutMemo.isIncluded k = l.isIncluded k := by
  unfold isIncluded
  rw [withoutMemo, SlotMap.values_map, List.any_map]
  rfl

/-! ## Fragments -/

theorem buildFragment_withoutMemo (l : Library) (name : String) (t : Text) :
    l.withoutMemo.buildFragment name t = forgetLast (l.buildFragment name t) := by
  unfold buildFragment
  cases Scanned.ofText name t 1 with
  | error e => rfl
  | ok scanned =>
    simp only [resolve_withoutMemo, ofLibrary_withoutMemo]
    rcases l.resolve name (.ofLibrary l) scanned.includes with ⟨e | targets, s⟩ <;> rfl

theorem replaceFragment_withoutMemo (l : Library) (k : FragmentKey) (f : Fragment) :
    l.withoutMemo.replaceFragment k f = forgetLast (l.replaceFragment k f) := by
  unfold replaceFragment
  rw [fragments_withoutMemo]
  cases l.fragments.replaceContent k f with
  | error e => rfl
  | ok fragments =>
    exact congrArg (fun p : Nat × Library => (Except.ok p.1, p.2)) (fragmentChanged_withoutMemo { l with fragments } k)

theorem updateFragment_withoutMemo (l : Library) (k : FragmentKey) (t : Text) :
    l.withoutMemo.updateFragment k t = forgetLast (l.updateFragment k t) := by
  unfold updateFragment
  rw [fragment?_withoutMemo]
  cases l.fragment? k with
  | none => rfl
  | some old =>
    simp only [buildFragment_withoutMemo]
    rcases l.buildFragment old.name t with ⟨e | f, l'⟩
    · rfl
    · exact replaceFragment_withoutMemo l' k f

theorem addFragment_withoutMemo (l : Library) (name : String) (t : Text) :
    l.withoutMemo.addFragment name t = forgetLast (l.addFragment name t) := by
  unfold addFragment
  rw [fragments_withoutMemo]
  cases l.fragments.find? name with
  | some k =>
    simp only [updateFragment_withoutMemo]
    rcases l.updateFragment k t with ⟨e | n, l'⟩ <;> rfl
  | none =>
    simp only [buildFragment_withoutMemo]
    rcases l.buildFragment name t with ⟨e | f, l'⟩ <;> rfl

theorem loadNewFragment_withoutMemo (l : Library) (name : String) :
    l.withoutMemo.loadNewFragment name = forgetLast (l.loadNewFragment name) := by
  unfold loadNewFragment
  rw [loader_withoutMemo]
  rcases l.loader.read name with ⟨e | bytes, loader⟩
  · rfl
  · have hloader : ({ l.withoutMemo with loader } : Library) = ({ l with loader } : Library).withoutMemo := rfl
    simp only [hloader, resolve_withoutMemo, ofLibrary_withoutMemo]
    cases Inclusion.scan name bytes with
    | error e => rfl
    | ok scanned =>
      rcases (Inclusion.ofLibrary { l with loader }).register name with ⟨k, s⟩
      simp only
      rcases ({ l with loader } : Library).resolve name s scanned.includes with ⟨e | targets, t⟩
      · rfl
      · simp only
        cases t.fill k (.ofScanned name scanned targets) <;> rfl

theorem loadFragment_withoutMemo (l : Library) (name : String) :
    l.withoutMemo.loadFragment name = forgetLast (l.loadFragment name) := by
  unfold loadFragment
  rw [fragments_withoutMemo]
  cases l.fragments.find? name with
  | some k => rfl
  | none => exact loadNewFragment_withoutMemo l name

theorem readSource_withoutMemo (l : Library) (name : String) :
    l.withoutMemo.readSource name = forgetLast (l.readSource name) := by
  unfold readSource
  rw [loader_withoutMemo]
  rcases l.loader.read name with ⟨e | bytes, loader⟩
  · rfl
  · simp only
    cases decodeSource name bytes <;> rfl

theorem reloadFragment_withoutMemo (l : Library) (k : FragmentKey) :
    l.withoutMemo.reloadFragment k = forgetLast (l.reloadFragment k) := by
  unfold reloadFragment
  rw [fragment?_withoutMemo]
  cases l.fragment? k with
  | none => rfl
  | some old =>
    simp only [readSource_withoutMemo]
    rcases l.readSource old.name with ⟨e | t, l'⟩
    · rfl
    · exact updateFragment_withoutMemo l' k t

theorem removeFragment_withoutMemo (l : Library) (k : FragmentKey) :
    l.withoutMemo.removeFragment k = forgetLast (l.removeFragment k) := by
  unfold removeFragment
  rw [fragment?_withoutMemo, isIncluded_withoutMemo]
  cases l.fragment? k with
  | none => rfl
  | some f => cases l.isIncluded k <;> rfl

/-! ## Loading shaders -/

theorem resolveSections_withoutMemo (l : Library) (owner : String) (s : Inclusion) (sections : List CodeSection) :
    l.withoutMemo.resolveSections owner s sections = l.resolveSections owner s sections := by
  induction sections generalizing s with
  | nil => rfl
  | cons c cs ih => simp only [resolveSections, resolve_withoutMemo, ih]

theorem buildShader_withoutMemo (l : Library) (name : String) (t : Text) :
    l.withoutMemo.buildShader name t = forgetLast (l.buildShader name t) := by
  unfold buildShader
  cases ShaderSource.parse name t with
  | error e => rfl
  | ok source =>
    simp only [resolveSections_withoutMemo, ofLibrary_withoutMemo]
    rcases l.resolveSections name (.ofLibrary l) source.sections with ⟨e | sections, s⟩ <;> rfl

theorem refill_withoutMemo (l : Library) (k : ShaderKey) (s : Shader) (t : Text) :
    l.withoutMemo.refill k s.withoutMemo t = forgetLast (l.refill k s t) := by
  have hname : s.withoutMemo.name = s.name := rfl
  unfold refill
  rw [hname, buildShader_withoutMemo]
  rcases l.buildShader s.name t with ⟨e | ⟨source, sections⟩, l'⟩
  · exact Prod.ext rfl (setShader_withoutMemo l' k (s.markFailed e.message))
  · exact Prod.ext rfl (setShader_withoutMemo l' k (s.apply source sections))

theorem registerFailed_withoutMemo (l : Library) (name : String) (e : ShaderError) :
    l.withoutMemo.registerFailed name e = (l.registerFailed name e).withoutMemo :=
  congrArg Prod.snd (registerShader_withoutMemo l (.failed name e.message))

theorem loadNewShader_withoutMemo (l : Library) (name : String) (t : Text) :
    l.withoutMemo.loadNewShader name t = forgetLast (l.loadNewShader name t) := by
  unfold loadNewShader
  rw [buildShader_withoutMemo]
  rcases l.buildShader name t with ⟨e | ⟨source, sections⟩, l'⟩
  · exact Prod.ext rfl (registerFailed_withoutMemo l' name e)
  · exact congrArg (fun p : ShaderKey × Library => (Except.ok p.1, p.2))
      (registerShader_withoutMemo l' (.ofSource name source sections))

theorem loadShaderText_withoutMemo (l : Library) (name : String) (t : Text) :
    l.withoutMemo.loadShaderText name t = forgetLast (l.loadShaderText name t) := by
  unfold loadShaderText
  rw [registered?_withoutMemo]
  rcases l.registered? name with _ | ⟨k, s⟩
  · exact loadNewShader_withoutMemo l name t
  · have hload : s.withoutMemo.isLoaded = s.isLoaded := rfl
    simp only [Option.map_some, hload]
    cases s.isLoaded with
    | true => rfl
    | false => exact refill_withoutMemo l k s t

theorem loadShader_withoutMemo (l : Library) (name : String) :
    l.withoutMemo.loadShader name = forgetLast (l.loadShader name) := by
  unfold loadShader
  rw [registered?_withoutMemo, readSource_withoutMemo]
  rcases l.registered? name with _ | ⟨k, s⟩
  · rcases l.readSource name with ⟨e | t, l'⟩
    · exact Prod.ext rfl (registerFailed_withoutMemo l' name e)
    · exact loadNewShader_withoutMemo l' name t
  · have hload : s.withoutMemo.isLoaded = s.isLoaded := rfl
    simp only [Option.map_some, hload]
    cases s.isLoaded with
    | true => rfl
    | false =>
      rcases l.readSource name with ⟨e | t, l'⟩
      · exact Prod.ext rfl (setShader_withoutMemo l' k (s.markFailed e.message))
      · exact refill_withoutMemo l' k s t

/-! ## Building -/

theorem preLoadMask_withoutMemo (l : Library) (k : ShaderKey) (m : Mask) :
    l.withoutMemo.preLoadMask k m = forgetLast (l.preLoadMask k m) := by
  unfold preLoadMask
  rw [shader?_withoutMemo]
  cases l.shader? k with
  | none => rfl
  | some s =>
    have hask : s.withoutMemo.preLoadMask m = (s.preLoadMask m).withoutMemo := by
      have hasked : s.withoutMemo.preLoad = s.preLoad := rfl
      unfold Shader.preLoadMask
      rw [hasked]
      split <;> rfl
    simp only [Option.map_some, hask, setShader_withoutMemo]
    rfl

theorem assembleStageSources_withoutMemo (hl : l.Regular) (k : ShaderKey) (context : String) (m : Mask) :
    l.withoutMemo.assembleStageSources k context m = forgetLast (l.assembleStageSources k context m) := by
  unfold assembleStageSources
  rw [shader?_withoutMemo]
  cases hs : l.shader? k with
  | none => rfl
  | some s =>
    simp only [Option.map_some, Shader.findContext?_withoutMemo, workspace_withoutMemo,
      Shader.assembleStageSources_withoutMemo (hl.shaders k s hs).remembers, setShader_withoutMemo]
    cases s.findContext? context <;> rfl

variable {σ : Type} [ProgramCompiler σ]

theorem compileContexts_withoutMemo (hl : l.Regular) (k : ShaderKey) (c : σ) :
    l.withoutMemo.compileContexts k c = forget (l.compileContexts k c) := by
  unfold compileContexts
  rw [shader?_withoutMemo]
  cases hs : l.shader? k with
  | none => rfl
  | some s =>
    simp only [Option.map_some, workspace_withoutMemo,
      Shader.compileContexts_withoutMemo (hl.shaders k s hs).remembers, Shader.forget, setShader_withoutMemo]
    rfl

theorem compileEach_withoutMemo (ks : List ShaderKey) {l : Library} (hl : l.Regular) (c : σ) :
    l.withoutMemo.compileEach ks c = forget (l.compileEach ks c) := by
  induction ks generalizing l c with
  | nil => rfl
  | cons k ks ih =>
    unfold compileEach
    rw [shader?_withoutMemo]
    cases hs : l.shader? k with
    | none => exact ih hl c
    | some s =>
      have hload : s.withoutMemo.isLoaded = s.isLoaded := rfl
      have hremembers := (hl.shaders k s hs).remembers
      have hquiet := Session.quiet_work hs (Shader.compileContexts_work hremembers c)
      simp only [Option.map_some, hload, workspace_withoutMemo, Shader.compileContexts_withoutMemo hremembers,
        Shader.forget, setShader_withoutMemo, ih hl c, ih (Session.regular_of_quiet hquiet hl)]
      cases s.isLoaded <;> rfl

theorem getCombination_withoutMemo (hl : l.Regular) (k : ShaderKey) (context : String) (m : Mask) (c : σ) :
    l.withoutMemo.getCombination k context m c = forget (l.getCombination k context m c) := by
  unfold getCombination
  rw [shader?_withoutMemo]
  cases hs : l.shader? k with
  | none => rfl
  | some s =>
    simp only [Option.map_some, workspace_withoutMemo,
      Shader.getCombination_withoutMemo (hl.shaders k s hs).remembers, Shader.forget, setShader_withoutMemo]
    rfl

theorem retainedProgram_withoutMemo (l : Library) (k : ShaderKey) (context : String) (m : Mask) :
    l.withoutMemo.retainedProgram k context m = forgetLast (l.retainedProgram k context m) := by
  unfold retainedProgram
  rw [shader?_withoutMemo]
  cases l.shader? k with
  | none => rfl
  | some s =>
    simp only [Option.map_some, Shader.findContext?_withoutMemo, workspace_withoutMemo,
      Shader.combinationKey_withoutMemo, Shader.contexts_withoutMemo, setShader_withoutMemo]
    cases s.findContext? context <;> rfl

theorem program?_withoutMemo (hl : l.Regular) (k : ShaderKey) (context : String) (m : Mask) (c : σ) :
    l.withoutMemo.program? k context m c = forget (l.program? k context m c) := by
  unfold program?
  rw [getCombination_withoutMemo hl]
  rcases l.getCombination k context m c with ⟨e | b, l', c'⟩
  · simp only [forget, retainedProgram_withoutMemo]
    rfl
  · rfl

/-! ## Reloading -/

theorem reloadShaderText_withoutMemo (l : Library) (k : ShaderKey) (t : Text) (c : σ) :
    l.withoutMemo.reloadShaderText k t c = forget (l.reloadShaderText k t c) := by
  unfold reloadShaderText
  rw [shader?_withoutMemo]
  cases hs : l.shader? k with
  | none => rfl
  | some s =>
    have hname : s.withoutMemo.name = s.name := rfl
    simp only [Option.map_some, hname, buildShader_withoutMemo]
    cases hb : l.buildShader s.name t with
    | mk r l' =>
      cases r with
      | error e =>
        exact congrArg (fun l => (Except.error e, l, Shader.releaseAll s.programs c))
          (setShader_withoutMemo l' k (s.markFailed e.message))
      | ok content =>
        obtain ⟨source, sections⟩ := content
        -- Applying a source forgets all that was kept, so both shaders are the same from here on.
        have hcompile := Shader.compileContexts_withoutMemo (w := l'.workspace) (s := s.apply source sections)
          (Shader.remembers_of_memo_nil rfl) (Shader.releaseAll s.programs c)
        let built (l : Library) (p : BuildReport × Shader × σ) : Except ShaderError BuildReport × Library × σ :=
          (.ok p.1, l.setShader k p.2.1, p.2.2)
        show (if s.ready then
            built l'.withoutMemo ((s.apply source sections).withoutMemo.compileContexts l'.workspace.withoutMemo
              (Shader.releaseAll s.programs c))
          else (.ok .empty, l'.withoutMemo.setShader k (s.apply source sections).withoutMemo,
            Shader.releaseAll s.programs c)) =
          forget (if s.ready then
            built l' ((s.apply source sections).compileContexts l'.workspace (Shader.releaseAll s.programs c))
          else (.ok .empty, l'.setShader k (s.apply source sections), Shader.releaseAll s.programs c))
        simp only [built, hcompile, Shader.forget, setShader_withoutMemo]
        cases s.ready <;> rfl

theorem reloadShader_withoutMemo (l : Library) (k : ShaderKey) (c : σ) :
    l.withoutMemo.reloadShader k c = forget (l.reloadShader k c) := by
  unfold reloadShader
  rw [shader?_withoutMemo]
  cases hs : l.shader? k with
  | none => rfl
  | some s =>
    have hname : s.withoutMemo.name = s.name := rfl
    simp only [Option.map_some, hname, readSource_withoutMemo]
    cases hr : l.readSource s.name with
    | mk r l' =>
      cases r with
      | error e =>
        exact congrArg (fun l => (Except.error e, l, Shader.releaseAll s.programs c))
          (setShader_withoutMemo l' k (s.markFailed e.message))
      | ok t => exact reloadShaderText_withoutMemo l' k t c

theorem removeShader_withoutMemo (l : Library) (k : ShaderKey) (c : σ) :
    l.withoutMemo.removeShader k c = forget (l.removeShader k c) := by
  unfold removeShader
  rw [shader?_withoutMemo]
  cases l.shader? k with
  | none => rfl
  | some s =>
    exact congrArg (fun shaders => (true, { l.withoutMemo with shaders, names := l.names.erase s.name },
      Shader.releaseAll s.programs c)) (SlotMap.map_remove _ l.shaders k).symm

end Library

/-! ## Sessions -/

def Operation.withoutMemo : Operation → Operation
  | setSettings settings => setSettings settings.withoutMemo
  | op => op

namespace Session

variable {σ : Type}

def withoutMemo (x : Session σ) : Session σ := ⟨x.library.withoutMemo, x.compiler⟩

theorem setFloatParam_withoutMemo (l : Library) (k : ShaderKey) (kind : Int) (i : Nat) (param : Int) (component : Nat)
    (a : Binary32) : ((l.withoutMemo.shader? k).bind (·.setFloatParam? kind i param component a)).isSome =
        ((l.shader? k).bind (·.setFloatParam? kind i param component a)).isSome ∧
      setFloatParam l.withoutMemo k kind i param component a = (setFloatParam l k kind i param component a).withoutMemo := by
  have hset : ∀ s : Shader, s.withoutMemo.setFloatParam? kind i param component a =
      (s.setFloatParam? kind i param component a).map Shader.withoutMemo := by
    intro s
    have huniforms : s.withoutMemo.uniforms = s.uniforms := rfl
    unfold Shader.setFloatParam?
    rw [huniforms]
    split
    · rw [Option.map_map]
      rfl
    · rfl
  unfold setFloatParam
  rw [Library.shader?_withoutMemo]
  cases l.shader? k with
  | none => exact ⟨rfl, rfl⟩
  | some s =>
    simp only [Option.map_some, Option.bind_some, hset]
    cases s.setFloatParam? kind i param component a with
    | none => exact ⟨rfl, rfl⟩
    | some t => exact ⟨rfl, Library.setShader_withoutMemo l k t⟩

variable [ProgramCompiler σ]

theorem releaseShader_withoutMemo (l : Library) (k : ShaderKey) (c : σ) :
    releaseShader l.withoutMemo k c = ((releaseShader l k c).1.withoutMemo, (releaseShader l k c).2) := by
  unfold releaseShader
  rw [Library.shader?_withoutMemo]
  cases l.shader? k with
  | none => rfl
  | some s => exact congrArg (·, Shader.releaseAll s.programs c) (Library.setShader_withoutMemo l k (s.release c).1)

/-- An operation answers the same and does the same, less what is kept of assembled sections. -/
theorem step_withoutMemo {x : Session σ} (hx : x.library.Regular) (op : Operation) :
    x.withoutMemo.answer op.withoutMemo = x.answer op ∧ x.withoutMemo.step op.withoutMemo = (x.step op).withoutMemo := by
  obtain ⟨l, c⟩ := x
  have hl : l.Regular := hx
  -- An operation is a result and a library, with a compiler or without.
  have last : ∀ {α : Type} {p q : α × Library} (f : α → Answer), q = Library.forgetLast p →
      f q.1 = f p.1 ∧ (⟨q.2, c⟩ : Session σ) = (⟨p.2, c⟩ : Session σ).withoutMemo := by
    rintro α p _ f rfl
    exact ⟨rfl, rfl⟩
  have all : ∀ {α : Type} {p q : α × Library × σ} (f : α → Answer), q = Library.forget p →
      f q.1 = f p.1 ∧ ofPair q.2 = (ofPair p.2).withoutMemo := by
    rintro α p _ f rfl
    exact ⟨rfl, rfl⟩
  cases op with
  | setLoader loader => exact ⟨rfl, rfl⟩
  | setSettings settings => exact ⟨rfl, congrArg (Session.mk · c) (Library.setSettings_withoutMemo l settings)⟩
  | addFragment name t => exact last .fragment (Library.addFragment_withoutMemo l name t)
  | loadFragment name => exact last .fragment (Library.loadFragment_withoutMemo l name)
  | updateFragment k t => exact last .replaced (Library.updateFragment_withoutMemo l k t)
  | reloadFragment k => exact last .replaced (Library.reloadFragment_withoutMemo l k)
  | removeFragment k => exact last .accepted (Library.removeFragment_withoutMemo l k)
  | fragmentChanged k => exact last .count (Library.fragmentChanged_withoutMemo l k)
  | loadShader name => exact last .shader (Library.loadShader_withoutMemo l name)
  | loadShaderText name t => exact last .shader (Library.loadShaderText_withoutMemo l name t)
  | reloadShader k => exact all .built (Library.reloadShader_withoutMemo l k c)
  | reloadShaderText k t => exact all .built (Library.reloadShaderText_withoutMemo l k t c)
  | removeShader k => exact all .found (Library.removeShader_withoutMemo l k c)
  | invalidateShader k =>
    refine ⟨?_, congrArg (Session.mk · c) (Library.modifyShader_withoutMemo l k)⟩
    show Answer.generation ((l.withoutMemo.shader? k).map _) = Answer.generation ((l.shader? k).map _)
    rw [Library.shader?_withoutMemo, Option.map_map]
    rfl
  | releaseShader k => exact ⟨rfl, congrArg ofPair (releaseShader_withoutMemo l k c)⟩
  | preLoadMask k m => exact last .accepted (Library.preLoadMask_withoutMemo l k m)
  | compileContexts k => exact all .built (Library.compileContexts_withoutMemo hl k c)
  | compileAll =>
    have hkeys : l.withoutMemo.shaders.keys = l.shaders.keys := SlotMap.keys_map _ l.shaders
    have hcompile : l.withoutMemo.compileAll c = Library.forget (l.compileAll c) := by
      unfold Library.compileAll
      rw [hkeys]
      exact Library.compileEach_withoutMemo _ hl c
    exact all (fun r => .built (.ok r)) hcompile
  | getCombination k context m => exact all .combination (Library.getCombination_withoutMemo hl k context m c)
  | program k context m => exact all .program (Library.program?_withoutMemo hl k context m c)
  | assembleStageSources k context m => exact last .sources (Library.assembleStageSources_withoutMemo hl k context m)
  | setFloatParam k kind i param component a =>
    obtain ⟨hfound, hset⟩ := setFloatParam_withoutMemo l k kind i param component a
    exact ⟨congrArg Answer.found hfound, congrArg (Session.mk · c) hset⟩

theorem run_withoutMemo {x : Session σ} (hx : x.library.Regular) (ops : List Operation) :
    x.withoutMemo.answers (ops.map Operation.withoutMemo) = x.answers ops ∧
      x.withoutMemo.run (ops.map Operation.withoutMemo) = (x.run ops).withoutMemo := by
  induction ops generalizing x with
  | nil => exact ⟨rfl, rfl⟩
  | cons op ops ih =>
    obtain ⟨hanswer, hstep⟩ := step_withoutMemo hx op
    obtain ⟨hanswers, hrun⟩ := ih ((effect_step hx op).regular hx)
    rw [List.map_cons, answers, answers, run_cons, run_cons, hanswer, hstep]
    exact ⟨congrArg _ hanswers, hrun⟩

omit [ProgramCompiler σ] in
theorem regular_start (loader : Loader) (settings : Settings) (c : σ) : (start loader settings c).library.Regular :=
  Library.regular_new loader settings

/-- Sessions that differ in what is kept only go on so. -/
theorem run_congr {x y : Session σ} (hx : x.library.Regular) (hy : y.library.Regular)
    (hxy : y.withoutMemo = x.withoutMemo) {ops ops' : List Operation}
    (hops : ops'.map Operation.withoutMemo = ops.map Operation.withoutMemo) :
    y.answers ops' = x.answers ops ∧ (y.run ops').withoutMemo = (x.run ops).withoutMemo := by
  obtain ⟨hanswers, hrun⟩ := run_withoutMemo hx ops
  obtain ⟨hanswers', hrun'⟩ := run_withoutMemo hy ops'
  rw [← hanswers, ← hanswers', ← hrun, ← hrun', hxy, hops]
  exact ⟨rfl, rfl⟩

end Session

open Session in
/-- Two runs whose settings, at first and in every later change, are the same but for whether assembled sections are
kept: with the same compiler and the same sources all operations have the same answers, the compiler gets the same
calls, and the libraries are the same but for the sections that are kept. -/
theorem memo_unobservable {σ : Type} [ProgramCompiler σ] (loader : Loader) (c : σ) {settings settings' : Settings}
    {ops ops' : List Operation} (hsettings : settings'.withoutMemo = settings.withoutMemo)
    (hops : ops'.map Operation.withoutMemo = ops.map Operation.withoutMemo) :
    let x := start loader settings c
    let y := start loader settings' c
    y.answers ops' = x.answers ops ∧ y.calls ops' = x.calls ops ∧ (y.run ops').compiler = (x.run ops).compiler ∧
      (y.run ops').library.withoutMemo = (x.run ops).library.withoutMemo := by
  intro x y
  have hx : x.library.Regular := regular_start loader settings c
  have hy : y.library.Regular := regular_start loader settings' c
  have hxy : y.withoutMemo = x.withoutMemo := by
    show start loader settings'.withoutMemo c = start loader settings.withoutMemo c
    rw [hsettings]
  have htraced : y.traced.withoutMemo = x.traced.withoutMemo :=
    congrArg (fun z : Session σ => z.traced) hxy
  obtain ⟨hanswers, hrun⟩ := run_congr hx hy hxy hops
  obtain ⟨-, hcalls⟩ := run_congr (x := x.traced) (y := y.traced) hx hy htraced hops
  have hlog := congrArg (fun z : Session (Traced σ) => z.compiler.calls) hcalls
  have hcompiler := congrArg Session.compiler hrun
  exact ⟨hanswers, hlog, hcompiler, congrArg Session.library hrun⟩

open Session in
/-- A short run keeps sections, and does not if it is told so; the rest is the same. -/
theorem memo_unobservable_litRun :
    (litRun.library.shader? ⟨1, 1⟩).any (!·.memo.isEmpty) ∧
      (((start default (default : Settings).withoutMemo DryRun.empty).run litOps).library.shader? ⟨1, 1⟩).any
        (·.memo.isEmpty) ∧
      (start default (default : Settings).withoutMemo DryRun.empty).calls litOps =
        (start default default DryRun.empty).calls litOps ∧
      ((start default (default : Settings).withoutMemo DryRun.empty).run litOps).library.withoutMemo =
        litRun.library.withoutMemo := by
  have hkept : (litRun.library.shader? ⟨1, 1⟩).any (!·.memo.isEmpty) ∧
      (((start default (default : Settings).withoutMemo DryRun.empty).run litOps).library.shader? ⟨1, 1⟩).any
        (·.memo.isEmpty) := by
    decide +kernel
  have hsettings : (default : Settings).withoutMemo.withoutMemo = (default : Settings).withoutMemo := rfl
  obtain ⟨-, hcalls, -, hlibrary⟩ := memo_unobservable default DryRun.empty hsettings (Eq.refl (litOps.map _))
  exact ⟨hkept.1, hkept.2, hcalls, hlibrary⟩

end ShaderVariant
