import ShaderVariant.Proofs.Library.BuildOnce
import ShaderVariant.Proofs.Library.Ownership

/-!
# Falling back to earlier programs

A shader that cannot be built again goes on drawing with what was built last.

* `Session.callsSince` : the calls of a run since a shader was loaded, reloaded, or had its programs taken
  (`callsSince_of_renews`);
* `Session.KeepsLatest` : of each combination the program of the latest build among these calls is kept. Every operation
  keeps that (`KeepsLatest.step`), so every run does;
* `program_latest` : so this is the program that is answered, and there is one just if a build has succeeded;
* `program_kept` : a shader that has a program for a mask keeps having one, as long as the mask has the same key.
-/

namespace ShaderVariant

variable {σ : Type} [ProgramCompiler σ]

/-- Compilers that differ in calls written down before. -/
theorem Traced.simulates_later (before : List CompilerCall) :
    Simulates fun t u : Traced σ => t.compiler = u.compiler ∧ t.calls = u.calls ++ before where
  compile := by
    rintro ⟨c, _⟩ ⟨_, calls⟩ ⟨h, h'⟩ q
    cases h
    cases h'
    exact ⟨_, _, _, rfl, rfl, rfl, rfl⟩
  release := by
    rintro ⟨c, _⟩ ⟨_, calls⟩ ⟨h, h'⟩ p
    cases h
    cases h'
    exact ⟨rfl, rfl⟩
  slot? := by
    rintro ⟨c, _⟩ ⟨_, calls⟩ ⟨h, -⟩ p kind name
    cases h
    rfl

namespace Session

/-! ## Calls since a shader was loaded -/

def tracedFrom (x : Session σ) (before : List CompilerCall) : Session (Traced σ) := ⟨x.library, ⟨x.compiler, before⟩⟩

theorem tracedFrom_run (x : Session σ) (before : List CompilerCall) (ops : List Operation) :
    (x.tracedFrom before).run ops = (x.run ops).tracedFrom (x.calls ops ++ before) := by
  obtain ⟨hlibrary, hcompiler, hcalls⟩ :=
    (Traced.simulates_later before).run (x := x.tracedFrom before) (y := x.traced) ⟨rfl, rfl, rfl⟩ ops
  obtain ⟨hlibrary', hcompiler'⟩ := x.traced_run ops
  cases hx : (x.tracedFrom before).run ops with
  | mk l t =>
    obtain ⟨c, calls⟩ := t
    rw [hx] at hlibrary hcompiler hcalls
    obtain rfl : l = (x.run ops).library := hlibrary.trans hlibrary'
    obtain rfl : c = (x.run ops).compiler := hcompiler.trans hcompiler'
    obtain rfl : calls = x.calls ops ++ before := hcalls
    rfl

theorem tracedFrom_step (x : Session σ) (before : List CompilerCall) (op : Operation) :
    (x.tracedFrom before).step op = (x.step op).tracedFrom (x.calls [op] ++ before) :=
  x.tracedFrom_run before [op]

theorem calls_cons (x : Session σ) (op : Operation) (ops : List Operation) :
    x.calls (op :: ops) = (x.step op).calls ops ++ x.calls [op] := by
  have hrun : x.traced.run (op :: ops) = ((x.step op).run ops).tracedFrom ((x.step op).calls ops ++ x.calls [op]) := by
    rw [run_cons, show x.traced = x.tracedFrom [] from rfl, tracedFrom_step, tracedFrom_run, List.append_nil]
  exact congrArg (fun y => y.compiler.calls) hrun

/-- Whether all that a shader keeps after an operation comes from it: the operation concerns the shader, or the shader
was not loaded before. -/
def renews (x : Session σ) (k : ShaderKey) (op : Operation) : Bool :=
  op.concerns k || !((x.library.shader? k).any Shader.isLoaded)

/-- The calls of a run since a shader was loaded, reloaded, or had its programs taken, the latest first. If that was
before the run, there were some `before`. -/
def callsSince (x : Session σ) (k : ShaderKey) (before : List CompilerCall) : List Operation → List CompilerCall
  | [] => before
  | op :: ops => (x.step op).callsSince k (x.calls [op] ++ if x.renews k op then [] else before) ops

omit [ProgramCompiler σ] in
theorem renews_eq_false {x : Session σ} {k : ShaderKey} {op : Operation} (h : x.renews k op = false) :
    op.concerns k = false ∧ ∃ s, x.library.shader? k = some s ∧ s.isLoaded = true := by
  rw [renews, Bool.or_eq_false_iff, Bool.not_eq_false'] at h
  exact ⟨h.1, (Option.any_eq_true _ _).1 h.2⟩

omit [ProgramCompiler σ] in
theorem renews_eq_true {x : Session σ} {k : ShaderKey} {op : Operation} (h : x.renews k op = true) :
    op.shaderKey? = some k ∨ ∀ s, x.library.shader? k = some s → s.isLoaded = false := by
  rw [renews, Bool.or_eq_true, Bool.not_eq_true'] at h
  refine h.imp of_decide_eq_true fun hload s hs => ?_
  rwa [hs] at hload

/-- As long as a shader stays loaded and no operation concerns it, all calls count. -/
theorem callsSince_of_kept {x : Session σ} (hx : x.library.Lawful) {p : Site} (hp : p.In x.library)
    (before : List CompilerCall) {ops : List Operation} (hkeep : ∀ op ∈ ops, op.concerns p.shader = false) :
    p.In (x.run ops).library ∧ x.callsSince p.shader before ops = x.calls ops ++ before := by
  induction ops generalizing x before with
  | nil => exact ⟨hp, rfl⟩
  | cons op ops ih =>
    obtain ⟨s, hs, hin⟩ := hp
    have hc := hkeep op List.mem_cons_self
    have hload := hin.isLoaded (hx.regular.shaders p.shader s hs)
    have hr : x.renews p.shader op = false := by
      unfold renews
      rw [hc, hs, Option.any_some, hload]
      rfl
    have hmove := move_step (x := x.tracedFrom []) hx.regular op
    have hp' := (hmove.turnover hx (Operation.concerns_eq_false hc) ⟨s, hs, hin⟩).1
    rw [tracedFrom_step] at hp'
    obtain ⟨hafter, hcalls⟩ := ih (lawful_step hx op) hp' (x.calls [op] ++ before) fun o ho =>
      hkeep o (List.mem_cons_of_mem op ho)
    refine ⟨hafter, ?_⟩
    rw [callsSince, hr, if_neg Bool.false_ne_true, hcalls, calls_cons x op ops, List.append_assoc]

/-- An operation that renews a shader is where its calls begin. -/
theorem callsSince_of_renews {x : Session σ} (hx : x.library.Lawful) {p : Site} {op : Operation}
    (hr : x.renews p.shader op = true) (hp : p.In (x.step op).library) (before : List CompilerCall)
    {ops : List Operation} (hkeep : ∀ o ∈ ops, o.concerns p.shader = false) :
    x.callsSince p.shader before (op :: ops) = x.calls (op :: ops) := by
  rw [callsSince, hr, if_pos rfl, (callsSince_of_kept (lawful_step hx op) hp _ hkeep).2, List.append_nil,
    calls_cons x op ops]

/-! ## The program of the latest build -/

/-- Of each combination of a shader, the program of the latest successful build among some calls is kept. -/
def KeepsLatest (x : Session σ) (k : ShaderKey) (calls : List CompilerCall) : Prop :=
  ∀ p : Site, p.shader = k → p.In x.library →
    ((x.tracedFrom calls).account p).program? = ((x.tracedFrom calls).account p).latest?

theorem KeepsLatest.step {x : Session σ} (hx : x.library.Lawful) {k : ShaderKey} {calls : List CompilerCall}
    (h : x.KeepsLatest k calls) (op : Operation) :
    (x.step op).KeepsLatest k (x.calls [op] ++ if x.renews k op then [] else calls) := by
  rintro p rfl hp
  rw [← tracedFrom_step]
  have hmove := move_step (x := x.tracedFrom (if x.renews p.shader op then [] else calls)) hx.regular op
  have hp' : p.In ((x.tracedFrom (if x.renews p.shader op then [] else calls)).step op).library := by
    rw [tracedFrom_step]
    exact hp
  cases hr : x.renews p.shader op with
  | true =>
    rw [hr, if_pos rfl] at hmove hp'
    rw [if_pos rfl]
    exact (hmove.turnover_renewed hx hp' (renews_eq_true hr)).latest rfl
  | false =>
    rw [hr, if_neg Bool.false_ne_true] at hmove hp'
    rw [if_neg Bool.false_ne_true]
    obtain ⟨hc, s, hs, hload⟩ := renews_eq_false hr
    have hk := Operation.concerns_eq_false hc
    have hbefore := hmove.in_of_loaded hx hk hs hload hp'
    exact (hmove.turnover hx hk hbefore).2.latest (h p rfl hbefore)

theorem KeepsLatest.run {x : Session σ} (hx : x.library.Lawful) {k : ShaderKey} {calls : List CompilerCall}
    (h : x.KeepsLatest k calls) (ops : List Operation) : (x.run ops).KeepsLatest k (x.callsSince k calls ops) := by
  induction ops generalizing x calls with
  | nil => exact h
  | cons op ops ih => exact ih (lawful_step hx op) (h.step hx op)

theorem keepsLatest_run (loader : Loader) (settings : Settings) (c : σ) (k : ShaderKey) (ops : List Operation) :
    ((start loader settings c).run ops).KeepsLatest k ((start loader settings c).callsSince k [] ops) := by
  refine KeepsLatest.run (Library.Reachable.new loader settings).lawful ?_ ops
  rintro p - ⟨s, hs, -⟩
  cases hs

/-- Looking up a program answers with that of the latest successful build, the build of the look-up among them. -/
theorem KeepsLatest.program {x : Session σ} (hx : x.library.Lawful) {k : ShaderKey} {calls : List CompilerCall}
    {context : String} {m : Mask} (h : (x.step (.program k context m)).KeepsLatest k calls) {p : Site}
    (hp : x.library.site? k context m = some p) :
    (x.library.program? k context m x.compiler).1 = (outcomes p.shaderName p.contextName p.key calls).findSome? id := by
  obtain ⟨b, -, -, -, hentry, hprogram⟩ := lookup_entry hx.regular hp
  obtain ⟨rfl, hin⟩ := Library.in_of_site? hp
  have hquiet : Relation.ReflTransGen Quiet x (x.step (.program p.shader context m)) :=
    IsLookup.quiet hx.regular (Or.inr rfl)
  have hin' := in_step hx hin (generation?_of_quiet hquiet hx.regular p.shader)
  have hkept : ((x.step (.program p.shader context m)).kept? p).bind Combination.program =
      (outcomes p.shaderName p.contextName p.key calls).findSome? id :=
    h p rfl hin'
  rw [hentry, Option.bind_some] at hkept
  exact hprogram.trans hkept

/-- So there is a program just if the shader is loaded, has the context, and a build has succeeded. -/
theorem KeepsLatest.program_eq_some_iff {x : Session σ} (hx : x.library.Lawful) {k : ShaderKey}
    {calls : List CompilerCall} {context : String} {m : Mask}
    (h : (x.step (.program k context m)).KeepsLatest k calls) (q : Program) :
    (x.library.program? k context m x.compiler).1 = some q ↔
      ∃ s i, x.library.shader? k = some s ∧ s.isLoaded = true ∧ s.findContext? context = some i ∧
        (outcomes s.name context (s.combinationKey x.library.workspace i m).1 calls).findSome? id = some q := by
  cases hp : x.library.site? k context m with
  | none =>
    rw [program_of_none x hp]
    refine ⟨(nomatch ·), ?_⟩
    rintro ⟨s, i, hs, -, hi, -⟩
    rw [site?_eq_none hp hs] at hi
    cases hi
  | some p =>
    rw [h.program hx hp]
    obtain ⟨-, hin⟩ := Library.in_of_site? hp
    obtain ⟨s, i, hs, hi, rfl⟩ := Library.site?_eq_some_iff.1 hp
    obtain ⟨s', hs', hwithin⟩ := hin
    cases hs.symm.trans hs'
    refine ⟨fun h => ⟨s, i, hs, hwithin.isLoaded (hx.regular.shaders k s hs), hi, h⟩, ?_⟩
    rintro ⟨t, j, ht, -, hj, h⟩
    cases hs.symm.trans ht
    cases hi.symm.trans hj
    exact h

theorem mem_programs_of_program {x : Session σ} (hx : x.library.Regular) {k : ShaderKey} {context : String} {m : Mask}
    {q : Program} (h : (x.library.program? k context m x.compiler).1 = some q) :
    q ∈ (x.step (.program k context m)).library.programs := by
  cases hp : x.library.site? k context m with
  | none =>
    rw [program_of_none x hp] at h
    cases h
  | some p =>
    obtain ⟨b, -, -, -, hentry, hprogram⟩ := lookup_entry hx hp
    obtain ⟨s, hs, hb⟩ := Option.bind_eq_some_iff.1 hentry
    obtain ⟨ctx, hctx, hb⟩ := Option.bind_eq_some_iff.1 hb
    have hheld := Context.mem_programs hb (hprogram.symm.trans h)
    exact Library.mem_programs hs (Shader.mem_programs (List.mem_of_getElem? hctx) hheld)

theorem isLive_of_program {x : Session DryRun} (hx : x.Orderly) {k : ShaderKey} {context : String} {m : Mask}
    {q : Program} (h : (x.library.program? k context m x.compiler).1 = some q)
    (hrange : (x.step (.program k context m)).compiler.successes < 2 ^ 32) :
    (x.step (.program k context m)).compiler.isLive q = true := by
  have howns := (orderly_run hx [.program k context m]).owns hrange
  exact (howns.live_iff q).2 (mem_programs_of_program hx.regular h)

end Session

open Session in
/-- In every reachable state, with any compiler, looking up a program answers with one just if the shader is loaded, it has
the context, and a build of the combination has succeeded since the shader was loaded, reloaded, or had its programs
taken, the build of the look-up among them. It is the program of the latest such build. It is read from a combination that
is there whenever the look-up of the combination says so; and in a dry run it lives.

Only the last part takes `successes < 2 ^ 32`, behind the look-up: dry runs number programs by a plain 32-bit counter, and
when this wraps a release may concern another program of the same number. -/
theorem program_latest {σ : Type} [ProgramCompiler σ] (loader : Loader) (settings : Settings) (c : σ)
    (ops : List Operation) (k : ShaderKey) (context : String) (m : Mask) :
    let x := (start loader settings c).run ops
    let d := (start loader settings DryRun.empty).run ops
    let since := (start loader settings c).callsSince k [] (ops ++ [.program k context m])
    (∀ q, x.answer (.program k context m) = .program (some q) ↔
      ∃ s i, x.library.shader? k = some s ∧ s.isLoaded = true ∧ s.findContext? context = some i ∧
        (outcomes s.name context (s.combinationKey x.library.workspace i m).1 since).findSome? id = some q) ∧
    (∀ b, x.answer (.getCombination k context m) = .combination (.ok b) →
      ∃ p, x.library.site? k context m = some p ∧ (x.step (.getCombination k context m)).kept? p = some b) ∧
    ∀ q, d.answer (.program k context m) = .program (some q) →
      (d.step (.program k context m)).compiler.successes < 2 ^ 32 →
        (d.step (.program k context m)).compiler.isLive q = true := by
  intro x d since
  have hx : x.library.Lawful := (Library.Reachable.run (.new loader settings) ops).lawful
  have hkept : (x.step (.program k context m)).KeepsLatest k since := by
    have hrun := keepsLatest_run loader settings c k (ops ++ [.program k context m])
    rwa [Session.run, List.foldl_append] at hrun
  refine ⟨fun q => ?_, fun b hb => ?_, fun q hq => ?_⟩
  · show Answer.program _ = _ ↔ _
    rw [Answer.program.injEq]
    exact hkept.program_eq_some_iff hx q
  · exact kept_of_getCombination hx.regular (Answer.combination.inj hb)
  · exact isLive_of_program (orderly_run (orderly_start loader settings trivial rfl rfl) ops) (Answer.program.inj hq)

def jointError : Operation :=
  .updateFragment ⟨1, 1⟩ (["#ifdef SKINNING\n", "#error no joint\n", "#endif\n"].flatMap String.toList)

def jointOps : List Operation := litOps ++ [jointError]

open Session in
/-- The combination cannot be built again, so the program of the second build is answered. -/
theorem program_latest_jointOps :
    ((start default default DryRun.empty).run jointOps).answer (.program ⟨1, 1⟩ "LIT" 1) = .program (some ⟨2⟩) ∧
      outcomes "lit" "LIT" 1 ((start default default DryRun.empty).callsSince ⟨1, 1⟩ []
        (jointOps ++ [.program ⟨1, 1⟩ "LIT" 1])) = [none, some ⟨2⟩, some ⟨1⟩] ∧
        (((start default default DryRun.empty).run jointOps).step (.program ⟨1, 1⟩ "LIT" 1)).compiler.isLive ⟨2⟩ = true := by
  obtain ⟨hanswer, -, hlive⟩ := program_latest default default DryRun.empty jointOps ⟨1, 1⟩ "LIT" 1
  have hrun : (∃ s ∈ ((start default default DryRun.empty).run jointOps).library.shader? ⟨1, 1⟩,
      s.isLoaded = true ∧ s.findContext? "LIT" = some 0 ∧ s.name = "lit" ∧
        (s.combinationKey ((start default default DryRun.empty).run jointOps).library.workspace 0 1).1 = 1) ∧
      outcomes "lit" "LIT" 1 ((start default default DryRun.empty).callsSince ⟨1, 1⟩ []
        (jointOps ++ [.program ⟨1, 1⟩ "LIT" 1])) = [none, some ⟨2⟩, some ⟨1⟩] ∧
      (((start default default DryRun.empty).run jointOps).step (.program ⟨1, 1⟩ "LIT" 1)).compiler.successes < 2 ^ 32 := by
    decide +kernel
  obtain ⟨⟨s, hs, hload, hi, hname, hkey⟩, hout, hrange⟩ := hrun
  have hfirst := (hanswer ⟨2⟩).2 ⟨s, 0, hs, hload, hi, by rw [hname, hkey, hout]; rfl⟩
  exact ⟨hfirst, hout, hlive ⟨2⟩ hfirst hrange⟩

/-! ## Later look-ups -/

namespace Library

theorem key_of_site? {l : Library} {k : ShaderKey} {context : String} {m : Mask} {p : Site}
    (h : l.site? k context m = some p) (hl : l.settings.maskUnusedFlags = false) : p.key = m := by
  obtain ⟨s, i, -, -, rfl⟩ := site?_eq_some_iff.1 h
  show (s.combinationKey l.workspace i m).1 = m
  rw [Shader.combinationKey_fst, show l.workspace.settings.maskUnusedFlags = false from hl, if_neg Bool.false_ne_true]

/-- All masks of a context have their combinations at one place, under different keys. -/
theorem exists_site?_of_in {l : Library} (hl : l.Declared) {p : Site} (hp : p.In l) (m : Mask) :
    ∃ key, l.site? p.shader p.contextName m = some { p with key } := by
  obtain ⟨s, hs, hname, ctx, hctx, hcontext⟩ := hp
  have hi : s.findContext? p.contextName = some p.index := by
    cases hfind : s.findContext? p.contextName with
    | none =>
      have hno := List.findIdx?_eq_none_iff.1 hfind ctx (List.mem_of_getElem? hctx)
      rw [hcontext, beq_self_eq_true] at hno
      cases hno
    | some j =>
      obtain ⟨hlt, hj, -⟩ := List.findIdx?_eq_some_iff_getElem.1 hfind
      exact congrArg some
        ((hl p.shader s hs).index_eq (List.getElem?_eq_getElem hlt) hctx ((beq_iff_eq.1 hj).trans hcontext.symm))
  rw [site?_of_shader hs, hi, Option.map_some, hname]
  exact ⟨_, rfl⟩

end Library

namespace Session

/-- As long as no operation concerns its shader, a mask keeps its site but for the key. -/
theorem exists_site?_run {x : Session σ} (hx : x.library.Lawful) {k : ShaderKey} {context : String} {m : Mask} {p : Site}
    (hp : x.library.site? k context m = some p) {ops : List Operation} (hkeep : ∀ op ∈ ops, op.concerns k = false) :
    ∃ key, (x.run ops).library.site? k context m = some { p with key } := by
  obtain ⟨rfl, hin⟩ := Library.in_of_site? hp
  obtain rfl := Library.contextName_of_site? hp
  exact Library.exists_site?_of_in (lawful_run hx ops).declared (callsSince_of_kept hx hin [] hkeep).1 m

/-- A combination that was built successfully has a program when it is looked up again, unless an operation has concerned
the shader. -/
theorem KeepsLatest.exists_program {x : Session σ} (hx : x.library.Lawful) {p : Site} {calls : List CompilerCall}
    (hkept : x.KeepsLatest p.shader calls) (hp : p.In x.library)
    (hbuilt : ((outcomes p.shaderName p.contextName p.key calls).findSome? id).isSome = true) {more : List Operation}
    (hkeep : ∀ op ∈ more, op.concerns p.shader = false) {m : Mask}
    (hsite : (x.run more).library.site? p.shader p.contextName m = some p) :
    ∃ r, ((x.run more).library.program? p.shader p.contextName m (x.run more).compiler).1 = some r := by
  have hall : ∀ op ∈ more ++ [.program p.shader p.contextName m], op.concerns p.shader = false :=
    List.forall_mem_append.2 ⟨hkeep, List.forall_mem_singleton.2 rfl⟩
  have hrun := hkept.run hx (more ++ [.program p.shader p.contextName m])
  rw [(callsSince_of_kept hx hp calls hall).2, Session.run, List.foldl_append] at hrun
  refine Option.isSome_iff_exists.1 ?_
  rw [hrun.program (lawful_run hx more) hsite, outcomes, List.filterMap_append, List.findSome?_append, Option.isSome_or]
  exact Bool.or_eq_true_iff.2 (Or.inr hbuilt)

end Session

open Session in
/-- Once a program was answered for a mask, one is answered for it at every later look-up, and it lives, whatever has been
done in between but for operations that concern the shader. The exception are look-ups for which the key of the mask has
changed, which takes masks that are reduced to the flags in use: if no build of the combination with the new key has
succeeded, there is no program. -/
theorem program_kept (loader : Loader) (settings : Settings) (ops more : List Operation) {k : ShaderKey}
    {context : String} {m : Mask} {q : Program}
    (hprog : ((start loader settings DryRun.empty).run ops).answer (.program k context m) = .program (some q))
    (hkeep : ∀ op ∈ more, op.concerns k = false) :
    let look : Operation := .program k context m
    let x := (start loader settings DryRun.empty).run ops
    let y := (x.step look).run more
    let since := (start loader settings DryRun.empty).callsSince k [] (ops ++ look :: (more ++ [look]))
    (∃ r, y.answer look = .program (some r) ∧
      ((y.step look).compiler.successes < 2 ^ 32 → (y.step look).compiler.isLive r = true)) ∨
    (y.answer look = .program none ∧ ∃ p key, x.library.site? k context m = some p ∧
      y.library.site? k context m = some { p with key } ∧ key ≠ p.key ∧
        (x.library.settings.maskUnusedFlags = true ∨ y.library.settings.maskUnusedFlags = true) ∧
          ∀ r ∈ outcomes p.shaderName context key since, r = none) := by
  intro look x y since
  have hx : x.library.Lawful := (Library.Reachable.run (.new loader settings) ops).lawful
  have horderly : y.Orderly :=
    orderly_run (orderly_run (orderly_run (orderly_start loader settings trivial rfl rfl) ops) [look]) more
  have hprog : (x.library.program? k context m x.compiler).1 = some q := Answer.program.inj hprog
  have hkept : (x.step look).KeepsLatest k ((start loader settings DryRun.empty).callsSince k [] (ops ++ [look])) := by
    have hrun := keepsLatest_run loader settings DryRun.empty k (ops ++ [look])
    rwa [Session.run, List.foldl_append] at hrun
  have hlast : (y.step look).KeepsLatest k since := by
    have hrun := keepsLatest_run loader settings DryRun.empty k (ops ++ look :: (more ++ [look]))
    rwa [Session.run, List.foldl_append, List.foldl_cons, List.foldl_append] at hrun
  cases hp : x.library.site? k context m with
  | none =>
    rw [program_of_none x hp] at hprog
    cases hprog
  | some p =>
    have hall : ∀ op ∈ look :: more, op.concerns k = false := List.forall_mem_cons.2 ⟨rfl, hkeep⟩
    obtain ⟨key, hsite⟩ : ∃ key, y.library.site? k context m = some { p with key } :=
      show ∃ key, (x.run (look :: more)).library.site? k context m = _ from exists_site?_run hx hp hall
    have hx' := lawful_step hx look
    have hy : y.library.Lawful := lawful_run hx' more
    obtain ⟨rfl, hin⟩ := Library.in_of_site? hp
    obtain rfl := Library.contextName_of_site? hp
    have hlook : ∀ op ∈ [look], op.concerns p.shader = false := List.forall_mem_singleton.2 rfl
    have hin' : p.In (x.step look).library := (callsSince_of_kept hx hin [] hlook).1
    cases hr : (y.library.program? p.shader p.contextName m y.compiler).1 with
    | some r => exact Or.inl ⟨r, congrArg _ hr, isLive_of_program horderly hr⟩
    | none =>
      have hkey : key ≠ p.key := by
        rintro rfl
        have hbuilt := congrArg Option.isSome ((hkept.program hx hp).symm.trans hprog)
        obtain ⟨r, hr'⟩ := hkept.exists_program hx' hin' hbuilt hkeep hsite
        rw [hr] at hr'
        cases hr'
      refine Or.inr ⟨congrArg _ hr, p, key, rfl, hsite, hkey, ?_, ?_⟩
      · by_contra hoff
        rw [not_or, Bool.not_eq_true, Bool.not_eq_true] at hoff
        exact hkey ((Library.key_of_site? hsite hoff.2).trans (Library.key_of_site? hp hoff.1).symm)
      · rw [hlast.program hy hsite] at hr
        exact List.findSome?_eq_none_iff.1 hr

open Session in
/-- In the short run masks are not reduced, so the program stays although the fragment becomes an error. -/
theorem program_kept_jointError :
    ∃ r, ((litRun.step (.program ⟨1, 1⟩ "LIT" 1)).step jointError).answer (.program ⟨1, 1⟩ "LIT" 1) = .program (some r) ∧
      (((litRun.step (.program ⟨1, 1⟩ "LIT" 1)).step jointError).step (.program ⟨1, 1⟩ "LIT" 1)).compiler.isLive r =
        true := by
  have hrun : litRun.answer (.program ⟨1, 1⟩ "LIT" 1) = .program (some ⟨2⟩) ∧
      litRun.library.settings.maskUnusedFlags = false ∧
      ((litRun.step (.program ⟨1, 1⟩ "LIT" 1)).step jointError).library.settings.maskUnusedFlags = false ∧
      (((litRun.step (.program ⟨1, 1⟩ "LIT" 1)).step jointError).step (.program ⟨1, 1⟩ "LIT" 1)).compiler.successes <
        2 ^ 32 := by
    decide +kernel
  obtain ⟨hprog, hx, hy, hrange⟩ := hrun
  rcases program_kept default default litOps [jointError] hprog (List.forall_mem_singleton.2 rfl) with
    ⟨r, hr, hlive⟩ | ⟨-, p, key, -, -, -, hreduced, -⟩
  · exact ⟨r, hr, hlive hrange⟩
  · rcases hreduced with hreduced | hreduced
    · exact absurd (hx.symm.trans hreduced) Bool.false_ne_true
    · exact absurd (hy.symm.trans hreduced) Bool.false_ne_true

/-- A shader with a fragment that does not use the flag, with masks reduced. -/
def unskinnedRun : Session DryRun :=
  (Session.start default reducing .empty).run
    [.addFragment "skin" "vec4 joint;\n".toList, .loadShaderText "lit" litSource]

/-- With masks reduced, the change of the fragment changes the key. The program under the old key is not found any more. -/
theorem program_lost :
    unskinnedRun.answer (.program ⟨1, 1⟩ "LIT" 1) = .program (some ⟨1⟩) ∧ jointError.concerns ⟨1, 1⟩ = false ∧
      ((unskinnedRun.step (.program ⟨1, 1⟩ "LIT" 1)).step jointError).answer (.program ⟨1, 1⟩ "LIT" 1) = .program none ∧
      (((unskinnedRun.step (.program ⟨1, 1⟩ "LIT" 1)).step jointError).step (.program ⟨1, 1⟩ "LIT" 1)).compiler.isLive
        ⟨1⟩ = true := by
  decide +kernel

end ShaderVariant
