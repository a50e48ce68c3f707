import ShaderVariant.Proofs.Library.BuildOnce

/-!
# Builds on their own

Looking up a combination, or its program, changes nothing but what is kept at its own site.

* `Shader.Unmoved`, `Shader.Undisturbed` : a shader differs at most by what is derived from its content. Preparing a build
  does no more than that (`undisturbed_prepare`);
* `Shader.Writes` : the same, and one entry is written;
* `Lookup` : what a look-up makes of an entry, answers, and asks of the compiler. It finds the entry, keeps a failure
  beside the program that was there, or installs a program and releases the one that it replaces;
* `build_lookup`, `getCombinationAt_lookup`, `Session.step_lookup` : every look-up is one, at each level;
* `lookup_apart` : the main statement.
-/

namespace ShaderVariant

open Relation (ReflTransGen)

/-! ## Shaders with the same content -/

namespace Shader

/-- A shader after steps that touch at most its links, its assembled texts and its combinations. -/
structure Unmoved (s s' : Shader) : Prop extends Frame s s' where
  preLoad : s'.preLoad = s.preLoad
  uniforms : s'.uniforms = s.uniforms
  ready : s'.ready = s.ready

namespace Unmoved

variable {s s' s'' : Shader}

theorem refl (s : Shader) : Unmoved s s := ⟨.refl s, rfl, rfl, rfl⟩

theorem trans (h : Unmoved s s') (h' : Unmoved s' s'') : Unmoved s s'' :=
  ⟨h.toFrame.trans h'.toFrame, h'.preLoad.trans h.preLoad, h'.uniforms.trans h.uniforms, h'.ready.trans h.ready⟩

theorem modifyContext {f : Context → Context} (hf : ∀ c, (f c).decl = c.decl) (s : Shader) (i : Nat) :
    Unmoved s (s.modifyContext i f) :=
  ⟨.modifyContext hf s i, rfl, rfl, rfl⟩

end Unmoved

/-- A shader after steps that leave its combinations, too. -/
structure Undisturbed (s s' : Shader) : Prop extends Unmoved s s' where
  kept : ∀ i key, s'.kept? i key = s.kept? i key

namespace Undisturbed

variable {s s' s'' : Shader}

theorem refl (s : Shader) : Undisturbed s s := ⟨.refl s, fun _ _ => rfl⟩

theorem trans (h : Undisturbed s s') (h' : Undisturbed s' s'') : Undisturbed s s'' :=
  ⟨h.toUnmoved.trans h'.toUnmoved, fun i key => (h'.kept i key).trans (h.kept i key)⟩

theorem link (s : Shader) (fragments : FragmentStore) (i : Nat) : Undisturbed s (s.link fragments i) :=
  ⟨.modifyContext (decl_linked s fragments) s i, fun j key => kept?_modifyContext (combinations_linked s fragments) s i j key⟩

theorem combinationKey {w : Workspace} {i : Nat} {m key : Mask} (h : s.combinationKey w i m = (key, s')) :
    Undisturbed s s' := by
  rcases combinationKey_cases h with rfl | rfl
  · exact .refl s'
  · exact .link s w.fragments i

theorem assembles {w : Workspace} (h : ReflTransGen (Assembles w) s s') : Undisturbed s s' := by
  induction h with
  | refl => exact .refl s
  | tail _ hstep ih =>
    obtain ⟨i, t, -, rfl⟩ := hstep
    exact ih.trans ⟨⟨⟨rfl, rfl, rfl, rfl, rfl, rfl, rfl, rfl⟩, rfl, rfl, rfl⟩, fun _ _ => rfl⟩

end Undisturbed

/-- Preparing a build links and assembles. -/
theorem undisturbed_prepare {w : Workspace} {s s' : Shader} (hr : s.Remembers w) {i : Nat} {d : ContextDecl} {key : Mask}
    {r : Except ShaderError (List StageSource)} (he : s.prepare w i d key = (r, s')) : Undisturbed s s' := by
  unfold prepare at he
  split at he
  · cases he
    exact .refl s
  · have hlink := Undisturbed.link s w.fragments i
    have hchain := (stageSources_spec key d.stages.toList (remembers_of_frame hr hlink.toFrame rfl)).2
    rw [he] at hchain
    exact hlink.trans (.assembles hchain)

/-- A shader after steps that write one combination. -/
structure Writes (s s' : Shader) (i : Nat) (key : Mask) (b : Combination) : Prop extends Unmoved s s' where
  kept : ∀ j key', s'.kept? j key' = if i = j ∧ key = key' then some b else s.kept? j key'

namespace Writes

variable {s s' s'' : Shader} {i : Nat} {key : Mask} {b : Combination}

theorem after (h : Undisturbed s s') (h' : Writes s' s'' i key b) : Writes s s'' i key b :=
  ⟨h.toUnmoved.trans h'.toUnmoved, fun j key' => by rw [h'.kept, h.kept]⟩

theorem before (h : Writes s s' i key b) (h' : Undisturbed s' s'') : Writes s s'' i key b :=
  ⟨h.toUnmoved.trans h'.toUnmoved, fun j key' => by rw [h'.kept, h.kept]⟩

theorem put {c : Context} (hc : s.contexts[i]? = some c) (key : Mask) (b : Combination) :
    Writes s (s.modifyContext i (·.put key b)) i key b :=
  ⟨.modifyContext (by intro; rfl) s i, kept?_put hc key b⟩

/-- Finding a combination is like writing it once more. -/
theorem of_kept (h : Undisturbed s s') (hb : s.kept? i key = some b) : Writes s s' i key b := by
  refine ⟨h.toUnmoved, fun j key' => ?_⟩
  rw [h.kept]
  split
  · next he => rw [← he.1, ← he.2, hb]
  · rfl

theorem self (h : Writes s s' i key b) : s'.kept? i key = some b := (h.kept i key).trans (if_pos ⟨rfl, rfl⟩)

end Writes

end Shader

/-! ## Look-ups -/

/-- What a look-up in a generation makes of the entry `old` of a key: what it answers, the entry after it, and the calls
to the compiler, the latest first. An entry that is not there counts as a new one. -/
inductive Lookup (g : Generation) (old : Option Combination) (key : Mask) :
    Except ShaderError Combination → Combination → List CompilerCall → Prop
  | found {b : Combination} (hold : old = some b) (hfresh : b.isStale g = false) : Lookup g old key b.result b []
  | failed (e : ShaderError) {calls : List CompilerCall} (hstale : ∀ b, old = some b → b.isStale g = true)
      (hcalls : calls = [] ∨ ∃ q, calls = [.compile q none]) :
      Lookup g old key (.error e) ((old.getD (.new key)).fail e g) calls
  | built (p : Program) (digest : XXH3.Hash128) (slots : Slots) (q : CompileRequest)
      (hstale : ∀ b, old = some b → b.isStale g = true) :
      Lookup g old key (.ok ((old.getD (.new key)).install p g digest slots))
        ((old.getD (.new key)).install p g digest slots)
        ((old.bind Combination.program).toList.map .release ++ [.compile q (some p)])

namespace Shader

variable {σ : Type} [ProgramCompiler σ]

theorem calls_releaseReplaced (old : Option Program) (t : Traced σ) :
    (releaseReplaced old t).calls = old.toList.map .release ++ t.calls := by
  cases old <;> rfl

/-- A build of what is missing or stale. -/
theorem build_lookup {w : Workspace} {s : Shader} (hr : s.Remembers w) {i : Nat} {ctx : Context}
    (hctx : s.contexts[i]? = some ctx) {key : Mask}
    (hstale : ∀ b, s.kept? i key = some b → b.isStale s.generation = true) (t : Traced σ) :
    ∃ b calls, Writes s (s.build w i ctx.decl key t).2.1 i key b ∧
      (s.build w i ctx.decl key t).2.2.calls = calls ++ t.calls ∧
        Lookup s.generation (s.kept? i key) key (s.build w i ctx.decl key t).1 b calls := by
  cases hp : s.prepare w i ctx.decl key with
  | mk r s₁ =>
    have hsame := undisturbed_prepare hr hp
    have hgen : s₁.generation = s.generation := hsame.generation
    obtain ⟨ctx₁, hctx₁, hdecl⟩ := hsame.toFrame.exists_context hctx
    -- Preparation keeps the entry, which the failure or the program is then written to.
    have hentry : ctx₁.entry key = (s.kept? i key).getD (.new key) := by
      rw [← hsame.kept, kept?_of_context hctx₁]
      rfl
    have hprogram : (ctx₁.entry key).program = (s.kept? i key).bind Combination.program := by
      rw [program_entry, ← hsame.kept, kept?_of_context hctx₁]
    unfold build
    rw [hp]
    cases r with
    | error e =>
      simp only [recordFailure_eq hctx₁, hentry, hgen]
      exact ⟨_, [], .after hsame (.put hctx₁ key _), rfl, .failed e hstale (.inl rfl)⟩
    | ok stages =>
      cases hc : ProgramCompiler.compile (s₁.request ctx.decl key stages) t with
      | mk x t₁ =>
        have hcalls := Traced.calls_compile hc
        cases x with
        | error f =>
          simp only [hc, recordFailure_eq hctx₁, hentry, hgen]
          exact ⟨_, [.compile _ none], .after hsame (.put hctx₁ key _), hcalls, .failed _ hstale (.inr ⟨_, rfl⟩)⟩
        | ok p =>
          have hentry₁ : s₁.entry i key = ctx₁.entry key := by rw [entry, hctx₁]
          simp only [hc, hentry₁, hprogram, hgen]
          rw [hentry]
          refine ⟨_, _, .after hsame (.put hctx₁ key _), ?_, .built p _ _ (s₁.request ctx.decl key stages) hstale⟩
          rw [calls_releaseReplaced, hcalls, List.append_assoc]
          rfl

/-- Getting a combination is ensuring it, without the mark of a new build. -/
theorem getCombinationAt_eq (w : Workspace) (s : Shader) (i : Nat) (m : Mask) (c : σ) :
    s.getCombinationAt w i m c = ((s.ensure w i m c).1.map Prod.fst, (s.ensure w i m c).2.1, (s.ensure w i m c).2.2) := by
  unfold getCombinationAt
  rcases s.ensure w i m c with ⟨_ | ⟨b, _⟩, s', c'⟩ <;> rfl

/-- Getting the combination of a mask is a look-up of its key. -/
theorem getCombinationAt_lookup {w : Workspace} {s : Shader} (hr : s.Remembers w) (hload : s.isLoaded = true) {i : Nat}
    {ctx : Context} (hctx : s.contexts[i]? = some ctx) (m : Mask) (t : Traced σ) :
    ∃ b calls, Writes s (s.getCombinationAt w i m t).2.1 i (s.combinationKey w i m).1 b ∧
      (s.getCombinationAt w i m t).2.2.calls = calls ++ t.calls ∧
        Lookup s.generation (s.kept? i (s.combinationKey w i m).1) (s.combinationKey w i m).1
          (s.getCombinationAt w i m t).1 b calls := by
  rw [getCombinationAt_eq]
  rcases ensure_cases w i m s t with ⟨e, he | ⟨-, he⟩, -⟩ | ⟨ctx', key, s₁, -, hctx', hk, hcase⟩
  · rw [loadError?_of_isLoaded hload] at he
    cases he
  · rw [hctx] at he
    cases he
  · obtain rfl : ctx = ctx' := Option.some.inj (hctx.symm.trans hctx')
    have hsame := Undisturbed.combinationKey hk
    have hgen : s₁.generation = s.generation := hsame.generation
    have hkept : s.kept? i key = ctx.combination? key := kept?_of_context hctx key
    rw [hk]
    rcases hcase with ⟨b, hb, hfresh, he⟩ | ⟨hstale, he⟩
    · rw [he]
      have hres : (b.lastError.elim (.ok (b, false)) .error : Except ShaderError (Combination × Bool)).map Prod.fst =
          b.result := by
        unfold Combination.result
        cases b.lastError <;> rfl
      rw [hres]
      exact ⟨b, [], .of_kept hsame (hkept.trans hb), rfl, .found (hkept.trans hb) (hgen ▸ hfresh)⟩
    · obtain ⟨ctx₁, hctx₁, hdecl⟩ := hsame.toFrame.exists_context hctx
      have hr₁ : s₁.Remembers w := by
        rcases combinationKey_cases hk with rfl | rfl
        · exact hr
        · exact remembers_of_frame hr hsame.toFrame rfl
      have hstale₁ : ∀ b, s₁.kept? i key = some b → b.isStale s₁.generation = true := fun b hb =>
        hstale b (by rwa [hsame.kept, hkept] at hb)
      obtain ⟨b, calls, hwrites, hcalls, hlookup⟩ := build_lookup hr₁ hctx₁ hstale₁ t
      rw [hdecl] at hwrites hcalls hlookup
      rw [hsame.kept, hgen] at hlookup
      rw [he]
      have hres : ∀ r : Except ShaderError Combination, (r.map (·, true)).map Prod.fst = r := fun r => by cases r <;> rfl
      rw [hres]
      exact ⟨b, calls, .after hsame hwrites, hcalls, hlookup⟩

end Shader

namespace Session

variable {σ : Type} [ProgramCompiler σ]

/-! ## Operations -/

omit [ProgramCompiler σ] in
/-- Looking for the program to fall back to disturbs nothing. -/
theorem undisturbed_retainedProgram {l : Library} {k : ShaderKey} {s : Shader} (hs : l.shader? k = some s)
    (context : String) (m : Mask) :
    ∃ t, (l.retainedProgram k context m).2 = l.setShader k t ∧ Shader.Undisturbed s t := by
  unfold Library.retainedProgram
  rw [hs]
  simp only
  cases hi : s.findContext? context with
  | none => exact ⟨s, (Library.setShader_eq_self hs).symm, .refl s⟩
  | some i =>
    cases hk : s.combinationKey l.workspace i m with
    | mk key t => exact ⟨t, by simp only [hk], .combinationKey hk⟩

/-- Getting a combination is a look-up at its site. -/
theorem getCombination_lookup {x : Session (Traced σ)} (hx : x.library.Regular) {k : ShaderKey} {context : String} {m : Mask}
    {p : Site} (hp : x.library.site? k context m = some p) :
    ∃ s s' t b calls, x.library.shader? k = some s ∧
      (x.library.getCombination k context m x.compiler).2 = (x.library.setShader k s', t) ∧
        Shader.Writes s s' p.index p.key b ∧ t.calls = calls ++ x.compiler.calls ∧
          Lookup (x.generationOf k) (x.kept? p) p.key (x.library.getCombination k context m x.compiler).1 b calls := by
  obtain ⟨-, hin⟩ := Library.in_of_site? hp
  obtain ⟨s, i, hs, hi, rfl⟩ := Library.site?_eq_some_iff.1 hp
  obtain ⟨s', hs', hwithin⟩ := hin
  cases hs.symm.trans hs'
  have hreg := hx.shaders k s hs
  have hload := hwithin.isLoaded hreg
  obtain ⟨ctx, hctx⟩ := Shader.exists_context_of_findContext? hi
  obtain ⟨b, calls, hwrites, hcalls, hlookup⟩ :=
    Shader.getCombinationAt_lookup hreg.remembers hload hctx m x.compiler
  refine ⟨s, _, _, b, calls, hs, ?_, hwrites, hcalls, ?_⟩
  · unfold Library.getCombination Shader.getCombination
    simp only [hs, Shader.loadError?_of_isLoaded hload, hi]
  · rw [generationOf_eq hs, kept?_eq hs]
    unfold Library.getCombination Shader.getCombination
    simp only [hs, Shader.loadError?_of_isLoaded hload, hi]
    exact hlookup

theorem program_lookup {x : Session (Traced σ)} (hx : x.library.Regular) {k : ShaderKey} {context : String} {m : Mask}
    {p : Site} (hp : x.library.site? k context m = some p) :
    ∃ s s' t b calls, x.library.shader? k = some s ∧
      (x.library.program? k context m x.compiler).2 = (x.library.setShader k s', t) ∧
        Shader.Writes s s' p.index p.key b ∧ t.calls = calls ++ x.compiler.calls ∧
          Lookup (x.generationOf k) (x.kept? p) p.key (x.library.getCombination k context m x.compiler).1 b calls := by
  obtain ⟨s, s', t, b, calls, hs, hget, hwrites, hcalls, hlookup⟩ := getCombination_lookup hx hp
  suffices h : ∃ s'', (x.library.program? k context m x.compiler).2 = (x.library.setShader k s'', t) ∧
      Shader.Undisturbed s' s'' by
    obtain ⟨s'', hprogram, hsame⟩ := h
    exact ⟨s, s'', t, b, calls, hs, hprogram, hwrites.before hsame, hcalls, hlookup⟩
  unfold Library.program?
  cases hr : x.library.getCombination k context m x.compiler with
  | mk r after =>
    rw [hr] at hget
    cases hget
    cases r with
    | ok b => exact ⟨s', rfl, .refl s'⟩
    | error e =>
      have hset := Library.shader?_setShader_self hs s'
      obtain ⟨u, hu, hsame⟩ := undisturbed_retainedProgram hset context m
      rw [Library.setShader_setShader] at hu
      exact ⟨u, congrArg (·, t) hu, hsame⟩

/-- A look-up at the site of its mask, with the calls that it makes. -/
theorem step_lookup {x : Session σ} (hx : x.library.Regular) {k : ShaderKey} {context : String} {m : Mask}
    {op : Operation} (hop : op.IsLookup k context m) {p : Site} (hp : x.library.site? k context m = some p) :
    ∃ s s' b, x.library.shader? k = some s ∧ (x.step op).library = x.library.setShader k s' ∧
      Shader.Writes s s' p.index p.key b ∧
        Lookup (x.generationOf k) (x.kept? p) p.key (x.library.getCombination k context m x.compiler).1 b
          (x.calls [op]) := by
  have hsame : (x.traced.step op).library = (x.step op).library := (traced_run x [op]).1
  -- Writing calls down changes no answer.
  have hanswer : (x.library.getCombination k context m x.traced.compiler).1 =
      (x.library.getCombination k context m x.compiler).1 := by
    obtain ⟨r, l, c, d, hc, hd, -⟩ :=
      Traced.simulates.getShaderCombination (l := x.library) (c := x.traced.compiler) (d := x.compiler) rfl k context m
    rw [hc, hd]
  suffices h : ∃ s s' t b calls, x.library.shader? k = some s ∧
      x.traced.step op = ofPair (x.library.setShader k s', t) ∧ Shader.Writes s s' p.index p.key b ∧
        t.calls = calls ++ [] ∧ Lookup (x.generationOf k) (x.kept? p) p.key
          (x.library.getCombination k context m x.traced.compiler).1 b calls by
    obtain ⟨s, s', t, b, calls, hs, hstep, hwrites, hcalls, hlookup⟩ := h
    have ht : x.calls [op] = calls := by
      show (x.traced.step op).compiler.calls = calls
      rw [hstep, ← List.append_nil calls]
      exact hcalls
    rw [hanswer] at hlookup
    rw [ht, ← hsame, hstep]
    exact ⟨s, s', b, hs, rfl, hwrites, hlookup⟩
  rcases hop with rfl | rfl
  · obtain ⟨s, s', t, b, calls, hs, hget, hrest⟩ := getCombination_lookup (x := x.traced) hx hp
    exact ⟨s, s', t, b, calls, hs, congrArg ofPair hget, hrest⟩
  · obtain ⟨s, s', t, b, calls, hs, hprogram, hrest⟩ := program_lookup (x := x.traced) hx hp
    exact ⟨s, s', t, b, calls, hs, congrArg ofPair hprogram, hrest⟩

theorem step_of_none (x : Session σ) {k : ShaderKey} {context : String} {m : Mask} {op : Operation}
    (hop : op.IsLookup k context m) (h : x.library.site? k context m = none) : x.step op = x := by
  have hget := getCombination_of_none x h
  rcases hop with rfl | rfl
  · rw [step, hget]
    rfl
  · have hretained : x.library.retainedProgram k context m = (none, x.library) := by
      unfold Library.retainedProgram
      cases hs : x.library.shader? k with
      | none => rfl
      | some s => simp only [site?_eq_none h hs]
    rw [step, Library.program?, hget]
    simp only [hretained]
    rfl

end Session

open Session in
/-- In every reachable library, with any compiler, looking up the combination of a mask, or its program,

* leaves fragments, names, settings and loader, every other shader, and of the shader itself all that it declares, its
  generation and what is asked for ahead;
* leaves every combination but the one at the site of the mask. Without a site it does nothing;
* makes of that one what `Lookup` says: it is found, or a failure of any kind is kept beside the program, the digest and
  the slots that were there, or a program is installed. Only that releases a program, the one that is replaced. -/
theorem lookup_apart {σ : Type} [ProgramCompiler σ] {x : Session σ} (hx : x.library.Reachable) {k : ShaderKey}
    {context : String} {m : Mask} {op : Operation} (hop : op.IsLookup k context m) :
    let y := x.step op
    (y.library.fragments = x.library.fragments ∧ y.library.names = x.library.names ∧
      y.library.settings = x.library.settings ∧ y.library.loader = x.library.loader) ∧
    (∀ j, j ≠ k → y.library.shader? j = x.library.shader? j) ∧
    (∀ s, x.library.shader? k = some s → ∃ s', y.library.shader? k = some s' ∧ s.Unmoved s') ∧
    (x.library.site? k context m = none → y = x ∧ x.calls [op] = []) ∧
    ∀ p, x.library.site? k context m = some p →
      (∀ q : Site, ¬(q.shader = p.shader ∧ q.index = p.index ∧ q.key = p.key) → y.kept? q = x.kept? q) ∧
      ∃ b, y.kept? p = some b ∧
        Lookup (x.generationOf k) (x.kept? p) p.key (x.library.getCombination k context m x.compiler).1 b
          (x.calls [op]) := by
  intro y
  cases hsite : x.library.site? k context m with
  | none =>
    have hy : y = x := step_of_none x hop hsite
    have hcalls : x.calls [op] = [] := congrArg (·.compiler.calls) (step_of_none x.traced hop hsite)
    rw [hy]
    exact ⟨⟨rfl, rfl, rfl, rfl⟩, fun _ _ => rfl, fun s hs => ⟨s, hs, .refl s⟩, fun _ => ⟨rfl, hcalls⟩, nofun⟩
  | some p =>
    obtain ⟨s, s', b, hs, hstep, hwrites, hlookup⟩ := step_lookup hx.regular hop hsite
    obtain ⟨hpk, -⟩ := Library.in_of_site? hsite
    have hy : y.library = x.library.setShader k s' := hstep
    have hs' : y.library.shader? k = some s' := hy ▸ Library.shader?_setShader_self hs s'
    have hothers : ∀ j, j ≠ k → y.library.shader? j = x.library.shader? j := fun j hj => by
      rw [hy, Library.shader?_setShader, if_neg (Ne.symm hj)]
    refine ⟨by rw [hy]; exact ⟨rfl, rfl, rfl, rfl⟩, hothers, fun t ht => ?_, nofun, fun p' hp' => ?_⟩
    · cases hs.symm.trans ht
      exact ⟨s', hs', hwrites.toUnmoved⟩
    · cases hp'
      refine ⟨fun q hq => ?_, b, ?_, hlookup⟩
      · by_cases hk : q.shader = k
        · rw [kept?_eq (hk ▸ hs'), kept?_eq (hk ▸ hs), hwrites.kept, if_neg]
          exact fun he => hq ⟨hk.trans hpk.symm, he.1.symm, he.2.symm⟩
        · unfold kept?
          rw [hothers q.shader hk]
      · rw [kept?_eq (hpk ▸ hs')]
        exact hwrites.self

/-- After the fragment has changed, the first combination is built anew, and the program that it had is released behind the
compilation. -/
theorem lookup_apart_litEdit :
    ∃ p, (litStart.step litEdit).library.site? ⟨1, 1⟩ "LIT" 1 = some p ∧
      (∃ b, ((litStart.step litEdit).step (.program ⟨1, 1⟩ "LIT" 1)).kept? p = some b ∧
        Lookup ((litStart.step litEdit).generationOf ⟨1, 1⟩) ((litStart.step litEdit).kept? p) p.key
          ((litStart.step litEdit).library.getCombination ⟨1, 1⟩ "LIT" 1 (litStart.step litEdit).compiler).1 b
          ((litStart.step litEdit).calls [.program ⟨1, 1⟩ "LIT" 1])) ∧
      ((litStart.step litEdit).calls [.program ⟨1, 1⟩ "LIT" 1]).map Recorder.released? = [some ⟨1⟩, none] := by
  have hreach : (litStart.step litEdit).library.Reachable := .run (.new default default) (litOps.take 3 ++ [litEdit])
  have hsome : ((litStart.step litEdit).library.site? ⟨1, 1⟩ "LIT" 1).isSome = true := by decide +kernel
  obtain ⟨p, hp⟩ := Option.isSome_iff_exists.1 hsome
  exact ⟨p, hp, ((lookup_apart hreach (.inr rfl)).2.2.2.2 p hp).2, by decide +kernel⟩

end ShaderVariant
