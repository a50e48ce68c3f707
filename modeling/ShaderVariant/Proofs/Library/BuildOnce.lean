import ShaderVariant.Proofs.Library.Lookup

/-!
# One build in a generation

* `Session.Still` : a run in which a shader stays, of one generation. Of its operations only the release of the programs
  by the host takes combinations from the shader (`concerns_of_still`);
* `turnover_run`, `compiled_run` : what such a run makes of an account, and how often it compiles;
* `built_once` : from one change of a generation to the next, a combination is built once at most, and all look-ups
  answer the same.
-/

namespace ShaderVariant

open Relation (ReflTransGen)

variable {σ τ : Type} [ProgramCompiler σ] [ProgramCompiler τ]

/-- Whether an operation reloads a shader, takes its programs, or removes it. -/
def Operation.concerns (k : ShaderKey) (op : Operation) : Bool := decide (op.shaderKey? = some k)

theorem Operation.concerns_eq_false {k : ShaderKey} {op : Operation} (h : op.concerns k = false) :
    op.shaderKey? ≠ some k :=
  of_decide_eq_false h

/-- Whether an operation has the programs of a shader released by the host. -/
def Operation.releases (k : ShaderKey) : Operation → Bool
  | releaseShader k' => k' = k
  | _ => false

theorem Operation.releases_iff {k : ShaderKey} {op : Operation} : op.releases k = true ↔ op = .releaseShader k := by
  cases op <;> simp [releases]

theorem Operation.countP_releases {k : ShaderKey} {ops : List Operation} (h : releaseShader k ∉ ops) :
    ops.countP (·.releases k) = 0 :=
  List.countP_eq_zero.2 fun _ hop hr => h (releases_iff.1 hr ▸ hop)

/-- Whether an operation gets a combination or a program for a mask. -/
def Operation.IsLookup (k : ShaderKey) (context : String) (m : Mask) (op : Operation) : Prop :=
  op = .getCombination k context m ∨ op = .program k context m

namespace Session

omit [ProgramCompiler σ] in
def generation? (x : Session σ) (k : ShaderKey) : Option Generation := (x.library.shader? k).map Shader.generation

/-- The shader with a key stays, of one generation, through operations. -/
def Still (x : Session σ) (k : ShaderKey) : List Operation → Prop
  | [] => True
  | op :: ops => (x.step op).generation? k = x.generation? k ∧ (x.step op).Still k ops

instance instDecidableStill (x : Session σ) (k : ShaderKey) : (ops : List Operation) → Decidable (x.Still k ops)
  | [] => .isTrue trivial
  | op :: ops => @instDecidableAnd _ _ _ (instDecidableStill (x.step op) k ops)

def builds (x : Session σ) (k : ShaderKey) (i : Nat) (key : Mask) : UInt32 :=
  ((x.cached? k i key).map fun e => e.2.2.builds).getD 0

omit [ProgramCompiler σ] in
theorem builds_eq (x : Session σ) (p : Site) :
    x.builds p.shader p.index p.key = ((x.kept? p).map Combination.builds).getD 0 := by
  unfold builds cached? kept?
  cases x.library.shader? p.shader with
  | none => rfl
  | some s =>
    cases hctx : s.contexts[p.index]? with
    | none => simp [hctx, Shader.kept?]
    | some ctx => cases hb : ctx.combination? p.key <;> simp [hctx, hb, Shader.kept?_of_context hctx]

/-! ## Still runs -/

omit [ProgramCompiler σ] in
theorem generation?_eq {x : Session σ} {k : ShaderKey} {s : Shader} (hs : x.library.shader? k = some s) :
    x.generation? k = some s.generation := by
  rw [generation?, hs]
  rfl

omit [ProgramCompiler σ] in
theorem exists_shader_of_generation? {x : Session σ} {k : ShaderKey} {g : Generation} (h : x.generation? k = some g) :
    ∃ s, x.library.shader? k = some s ∧ s.generation = g :=
  Option.map_eq_some_iff.1 h

omit [ProgramCompiler σ] in
theorem generationOf_congr {x y : Session σ} {k : ShaderKey} (h : y.generation? k = x.generation? k) :
    y.generationOf k = x.generationOf k :=
  congrArg (fun g : Option Generation => g.getD .zero) h

theorem generationOf_run {x : Session σ} {k : ShaderKey} {ops : List Operation} (h : x.Still k ops) :
    (x.run ops).generationOf k = x.generationOf k := by
  induction ops generalizing x with
  | nil => rfl
  | cons op ops ih => exact (ih h.2).trans (generationOf_congr h.1)

theorem still_iff {R : σ → τ → Prop} (hR : Simulates R) {x : Session σ} {y : Session τ} (h : x.Alike R y)
    (k : ShaderKey) (ops : List Operation) : x.Still k ops ↔ y.Still k ops := by
  induction ops generalizing x y with
  | nil => exact Iff.rfl
  | cons op ops ih =>
    have hstep := hR.step h op
    have hbefore : x.generation? k = y.generation? k := by unfold generation?; rw [h.1]
    have hafter : (x.step op).generation? k = (y.step op).generation? k := by unfold generation?; rw [hstep.1]
    rw [Still, Still, hbefore, hafter, ih hstep]

/-- A still operation leaves what the shader declares, so its sites stay. -/
theorem in_step {x : Session σ} (hx : x.library.Lawful) {p : Site} (hp : p.In x.library) {op : Operation}
    (hg : (x.step op).generation? p.shader = x.generation? p.shader) : p.In (x.step op).library := by
  obtain ⟨s, hs, hin⟩ := hp
  obtain ⟨s', hs', hgen⟩ := exists_shader_of_generation? (hg.trans (generation?_eq hs))
  exact ⟨s', hs', hin.frame ((move_step hx.regular op).frame hx hs hs' hgen)⟩

/-- New content moves the generation. -/
theorem generation?_reloaded {x : Session σ} (hx : x.library.Regular) {k : ShaderKey} {s : Shader}
    (hs : x.library.shader? k = some s) {p : Except ShaderError BuildReport × Library × σ}
    (h : x.library.Reloaded k s x.compiler p) : (ofPair p.2).generation? k ≠ x.generation? k := by
  have hne {l : Library} {c : σ} {t : Shader} (ht : l.shader? k = some t) (hg : t.generation = s.generation.next) :
      (⟨l, c⟩ : Session σ).generation? k ≠ x.generation? k := by
    rw [generation?_eq ht, generation?_eq hs, hg]
    exact fun he => Generation.next_ne _ (Option.some.inj he)
  cases h with
  | failed h =>
    exact hne (Library.shader?_setShader_self ((shader?_loaded (h.loaded hx.fragments) k).trans hs) _) rfl
  | applied h => exact hne (Library.shader?_setShader_self ((shader?_loaded h k).trans hs) _) rfl
  | @compiled source sections l' report s' c' h _ hc =>
    have hremembers : (s.apply source sections).Remembers l'.workspace := Shader.remembers_of_memo_nil rfl
    have hwork := Shader.compileContexts_work hremembers (Shader.releaseAll s.programs x.compiler)
    rw [hc] at hwork
    exact hne (Library.shader?_setShader_self ((shader?_loaded h k).trans hs) s')
      (Shader.Work.frame_of_steps hwork).generation

/-- An operation that leaves the generation of a shader neither reloads nor removes it. -/
theorem concerns_of_still {x : Session σ} (hx : x.library.Regular) {k : ShaderKey} {s : Shader}
    (hs : x.library.shader? k = some s) {op : Operation} (hg : (x.step op).generation? k = x.generation? k)
    (hop : op ≠ .releaseShader k) : op.concerns k = false := by
  by_contra hc
  rw [Bool.not_eq_false] at hc
  have hk : op.shaderKey? = some k := of_decide_eq_true hc
  cases op with
  | reloadShader k' =>
    cases hk
    exact generation?_reloaded hx hs (Library.reloaded_reloadShader hx.fragments hs x.compiler) hg
  | reloadShaderText k' t =>
    cases hk
    exact generation?_reloaded hx hs (Library.reloaded_reloadShaderText hx.fragments x.library.loader hs t x.compiler) hg
  | removeShader k' =>
    cases hk
    have hgone : (x.step (.removeShader k)).library.shader? k = none := by
      rw [step, Library.removeShader]
      simp only [hs]
      exact (SlotMap.get?_remove x.library.shaders k k).trans (if_pos rfl)
    rw [generation?, hgone, generation?_eq hs] at hg
    cases hg
  | releaseShader k' =>
    cases hk
    exact hop rfl
  | _ => cases hk

/-- A still run without a release is a turnover of each account of the shader. -/
theorem turnover_run {x : Session (Traced σ)} (hx : x.library.Lawful) {p : Site} (hp : p.In x.library)
    {ops : List Operation} (hstill : x.Still p.shader ops) (hops : Operation.releaseShader p.shader ∉ ops) :
    Turnover (x.generationOf p.shader) (x.account p) ((x.run ops).account p) := by
  induction ops generalizing x with
  | nil => exact .same _
  | cons op ops ih =>
    obtain ⟨hg, hstill⟩ := hstill
    have ⟨s, hs, _⟩ := hp
    have hk := concerns_of_still hx.regular hs hg (List.ne_of_not_mem_cons hops).symm
    obtain ⟨hp', hturn⟩ := (move_step hx.regular op).turnover hx (Operation.concerns_eq_false hk) hp
    have hrest := ih (lawful_step hx op) hp' hstill (List.not_mem_of_not_mem_cons hops)
    rw [generationOf_congr hg] at hturn hrest
    exact hturn.trans hrest

/-- A still run compiles a combination once, and once more for each release of the programs of the shader. What is of the
generation is not compiled before that. -/
theorem compiled_run {x : Session (Traced σ)} (hx : x.library.Lawful) {p : Site} (hp : p.In x.library)
    {ops : List Operation} (hstill : x.Still p.shader ops) :
    ((x.run ops).account p).outcomes.length ≤
        (x.account p).outcomes.length + 1 + ops.countP (·.releases p.shader) ∧
      ((x.account p).Fresh (x.generationOf p.shader) → ((x.run ops).account p).outcomes.length ≤
        (x.account p).outcomes.length + ops.countP (·.releases p.shader)) := by
  induction ops generalizing x with
  | nil => exact ⟨Nat.le_add_right _ _, fun _ => Nat.le_add_right _ _⟩
  | cons op ops ih =>
    obtain ⟨hg, hstill⟩ := hstill
    have hmove := move_step hx.regular op
    have hp' := in_step hx hp hg
    obtain ⟨hany, hfresh⟩ := ih (lawful_step hx op) hp' hstill
    have hturn := hmove.turnover_from hx hp'
    rw [generationOf_congr hg] at hturn hfresh
    rw [run_cons, List.countP_cons]
    cases hop : op.releases p.shader with
    | false =>
      have ⟨s, hs, _⟩ := hp
      have hc := concerns_of_still hx.regular hs hg fun h => absurd (Operation.releases_iff.2 h) (Bool.eq_false_iff.1 hop)
      rw [if_neg (Operation.concerns_eq_false hc)] at hturn
      rcases hturn.outcomes_length with hlen | ⟨hstale, hnow, hlen⟩
      · refine ⟨by simpa [hlen] using hany, fun hold => ?_⟩
        simpa [hlen] using hfresh (hturn.fresh hold)
      · refine ⟨?_, fun hold => absurd hold hstale⟩
        have := hfresh hnow
        simp only [Bool.false_eq_true, if_false, Nat.add_zero]
        omega
    | true =>
      obtain rfl := Operation.releases_iff.1 hop
      rw [if_pos (show (Operation.releaseShader p.shader).shaderKey? = some p.shader from rfl)] at hturn
      have hsame : (x.account p).dropped.outcomes = (x.account p).outcomes := rfl
      rcases hturn.outcomes_length with hlen | ⟨-, hnow, hlen⟩
      · rw [hsame] at hlen
        simp only [if_true]
        exact ⟨by omega, fun _ => by omega⟩
      · rw [hsame] at hlen
        have := hfresh hnow
        simp only [if_true]
        exact ⟨by omega, fun _ => by omega⟩

/-! ## Look-ups in still runs -/

theorem generation?_of_quiet {x y : Session σ} (h : ReflTransGen Quiet x y) (hx : x.library.Regular) (k : ShaderKey) :
    y.generation? k = x.generation? k := by
  cases hy : y.library.shader? k with
  | none =>
    have hsome := isSome_of_quiet h k
    rw [hy] at hsome
    have hnone : x.library.shader? k = none := Option.not_isSome_iff_eq_none.1 (by rw [← hsome]; exact Bool.false_ne_true)
    unfold generation?
    rw [hy, hnone]
  | some s' =>
    obtain ⟨s, hs, hframe⟩ := frame_of_quiet h hx hy
    rw [generation?_eq hy, generation?_eq hs, hframe.generation]

/-- A still operation that is no release leaves the sites of a shader, and why others have none. -/
theorem site?_step {x : Session σ} (hx : x.library.Lawful) {k : ShaderKey} {op : Operation}
    (hg : (x.step op).generation? k = x.generation? k) (hop : op ≠ .releaseShader k) (context : String) :
    (∀ m, (x.step op).library.site? k context m = x.library.site? k context m) ∧
      (x.step op).library.missing k context = x.library.missing k context := by
  have hmove := move_step hx.regular op
  cases hs : x.library.shader? k with
  | none =>
    have hs' : (x.step op).library.shader? k = none := by
      rw [generation?, generation?, hs] at hg
      exact Option.map_eq_none_iff.1 hg
    refine ⟨fun m => ?_, ?_⟩
    · unfold Library.site?
      rw [hs, hs', Option.bind_none, Option.bind_none]
    · unfold Library.missing
      rw [hs, hs']
  | some s =>
    obtain ⟨s', hs', hgen⟩ := exists_shader_of_generation? (hg.trans (generation?_eq hs))
    have hframe := hmove.frame hx hs hs' hgen
    have hk := Operation.concerns_eq_false (concerns_of_still hx.regular hs hg hop)
    refine ⟨fun m => ?_, ?_⟩
    · by_cases hload : s.isLoaded = true
      · exact hmove.site?_eq hx hk hs hload (generationOf_congr hg) context m
      · have hnone : s.findContext? context = none := by
          unfold Shader.findContext?
          rw [(hx.regular.shaders k s hs).unloaded (Bool.eq_false_iff.2 hload)]
          rfl
        rw [Library.site?_of_shader hs, Library.site?_of_shader hs', hframe.findContext?, hnone, Option.map_none,
          Option.map_none]
    · unfold Library.missing Shader.loadError? Shader.noContext
      simp only [hs, hs', hframe.diagnostic, hframe.name]

theorem site?_run {x : Session σ} (hx : x.library.Lawful) {k : ShaderKey} {ops : List Operation}
    (hstill : x.Still k ops) (hops : Operation.releaseShader k ∉ ops) (context : String) :
    (∀ m, (x.run ops).library.site? k context m = x.library.site? k context m) ∧
      (x.run ops).library.missing k context = x.library.missing k context := by
  induction ops generalizing x with
  | nil => exact ⟨fun _ => rfl, rfl⟩
  | cons op ops ih =>
    obtain ⟨hg, hstill⟩ := hstill
    obtain ⟨hsites, hmissing⟩ := site?_step hx hg (List.ne_of_not_mem_cons hops).symm context
    obtain ⟨hsites', hmissing'⟩ := ih (lawful_step hx op) hstill (List.not_mem_of_not_mem_cons hops)
    exact ⟨fun m => (hsites' m).trans (hsites m), hmissing'.trans hmissing⟩

/-- What is kept of the generation stays in a still run without a release. -/
theorem kept?_run {x : Session σ} (hx : x.library.Lawful) {p : Site} (hp : p.In x.library) {ops : List Operation}
    (hstill : x.Still p.shader ops) (hops : Operation.releaseShader p.shader ∉ ops) {b : Combination}
    (hb : x.kept? p = some b) (hfresh : b.isStale (x.generationOf p.shader) = false) : (x.run ops).kept? p = some b := by
  have hstill' : x.traced.Still p.shader ops := (still_iff Traced.simulates ⟨rfl, rfl⟩ p.shader ops).2 hstill
  have hturn := turnover_run (x := x.traced) hx hp hstill' hops
  have hsame := congrArg Account.entry (hturn.eq_of_fresh ⟨b, hb, hfresh⟩)
  have hentry : (x.run ops).kept? p = (x.traced.run ops).kept? p := by
    unfold kept?
    rw [(traced_run x ops).1]
  exact hentry.trans (hsame.trans hb)

theorem IsLookup.quiet {x : Session σ} (hx : x.library.Regular) {k : ShaderKey} {context : String} {m : Mask}
    {op : Operation} (h : op.IsLookup k context m) : ReflTransGen Quiet x (x.step op) := by
  rcases h with rfl | rfl
  · exact quiet_getCombination hx x.compiler k context m
  · exact quiet_program hx x.compiler k context m

theorem IsLookup.ne_releaseShader {k : ShaderKey} {context : String} {m : Mask} {op : Operation}
    (h : op.IsLookup k context m) : Operation.releaseShader k ≠ op := by
  rcases h with rfl | rfl <;> exact nofun

/-- After a look-up, all look-ups at its site answer the same in a still run. -/
theorem lookup_run {x : Session σ} (hx : x.library.Lawful) {k : ShaderKey} {context : String} {m : Mask} {op : Operation}
    (hop : op.IsLookup k context m) {ops : List Operation} (hstill : (x.step op).Still k ops)
    (hops : Operation.releaseShader k ∉ ops) {m' : Mask}
    (hm : x.library.site? k context m' = x.library.site? k context m) :
    ((x.step op).run ops).answer (.getCombination k context m') = x.answer (.getCombination k context m) ∧
      ((x.step op).run ops).answer (.program k context m') = x.answer (.program k context m) := by
  have hstep := generation?_of_quiet (IsLookup.quiet hx.regular hop) hx.regular k
  have hall : Operation.releaseShader k ∉ op :: ops :=
    List.not_mem_cons_of_ne_of_not_mem (IsLookup.ne_releaseShader hop) hops
  have hstill' : x.Still k (op :: ops) := ⟨hstep, hstill⟩
  obtain ⟨hsites, hmissing⟩ := site?_run hx hstill' hall context
  rw [run_cons] at hsites hmissing
  have hy := lawful_run (lawful_step hx op) ops
  have hsite := (hsites m').trans hm
  show Answer.combination _ = .combination _ ∧ Answer.program _ = .program _
  cases hp : x.library.site? k context m with
  | none =>
    rw [hp] at hsite
    rw [getCombination_of_none _ hsite, getCombination_of_none x hp, program_of_none _ hsite, program_of_none x hp, hmissing]
    exact ⟨rfl, rfl⟩
  | some p =>
    rw [hp] at hsite
    obtain ⟨rfl, hin⟩ := Library.in_of_site? hp
    obtain ⟨b, hfresh, hget, hres, hprogram, hres'⟩ := lookup_entry hx.regular hp
    obtain ⟨b', -, hget', hgot, -, hgot'⟩ := lookup_entry hy.regular hsite
    have hb : (x.step op).kept? p = some b := by
      rcases hop with rfl | rfl
      · exact hget
      · exact hprogram
    -- The combination is of the generation, so it is still there when it is looked up again.
    have hin' := in_step hx hin hstep
    have hfresh' : b.isStale ((x.step op).generationOf p.shader) = false := by rwa [generationOf_congr hstep]
    have hkept := kept?_run (lawful_step hx op) hin' hstill hops hb hfresh'
    have hsame : ((x.step op).run ops).generationOf p.shader = (x.step op).generationOf p.shader :=
      generationOf_run hstill
    have hlast : ((x.step op).run ops).Still p.shader [.getCombination p.shader context m'] :=
      ⟨generation?_of_quiet (quiet_getCombination hy.regular _ p.shader context m') hy.regular p.shader, trivial⟩
    have hlater := kept?_run hy (Library.in_of_site? hsite).2 hlast (by simp) hkept (by rwa [hsame])
    cases hget'.symm.trans hlater
    exact ⟨congrArg _ (hgot.trans hres.symm), congrArg _ (hgot'.trans hres'.symm)⟩

omit [ProgramCompiler σ] in
/-- Where an account starts from in an operation, with no calls written down before. -/
theorem account_base (x : Session σ) (p : Site) (op : Operation) :
    let a := if op.shaderKey? = some p.shader then (x.traced.account p).dropped else x.traced.account p
    a.outcomes = [] ∧ a.builds = if op.concerns p.shader then 0 else x.builds p.shader p.index p.key := by
  intro a
  by_cases hk : op.shaderKey? = some p.shader
  · have ha : a = (x.traced.account p).dropped := if_pos hk
    have hc : op.concerns p.shader = true := decide_eq_true hk
    rw [ha, hc]
    exact ⟨rfl, rfl⟩
  · have ha : a = x.traced.account p := if_neg hk
    have hc : op.concerns p.shader = false := decide_eq_false hk
    rw [ha, hc, builds_eq]
    exact ⟨rfl, rfl⟩

/-- In a still run behind an operation a combination is compiled once, and once more for each release of the programs of
the shader. Without one, it is built once at most. -/
theorem account_run {x : Session σ} (hx : x.library.Lawful) {p : Site} {op : Operation} (hp : p.In (x.step op).library)
    {ops : List Operation} (hstill : (x.step op).Still p.shader ops) :
    let a := (x.traced.run (op :: ops)).account p
    let before := if op.concerns p.shader then 0 else x.builds p.shader p.index p.key
    a.outcomes.length ≤ 1 + ops.countP (·.releases p.shader) ∧
      (Operation.releaseShader p.shader ∉ ops →
        a.builds = before ∧ a.outcomes = [] ∨ a.builds = before + 1) := by
  intro a before
  have hlib : (x.traced.step op).library = (x.step op).library := (traced_run x [op]).1
  have hp' : p.In (x.traced.step op).library := hlib ▸ hp
  have hstill' : (x.traced.step op).Still p.shader ops :=
    (still_iff Traced.simulates (Traced.simulates.step (x := x.traced) (y := x) ⟨rfl, rfl⟩ op) p.shader ops).2 hstill
  have hx' : (x.traced.step op).library.Lawful := lawful_step (x := x.traced) hx op
  obtain ⟨hnone, hbefore⟩ := account_base x p op
  have hturn := (move_step (x := x.traced) hx.regular op).turnover_from hx hp'
  obtain ⟨hany, hfresh⟩ := compiled_run hx' hp' hstill'
  refine ⟨?_, fun h => ?_⟩
  · rcases hturn.outcomes_length with hlen | ⟨-, hnow, hlen⟩
    · rw [hnone] at hlen
      exact hany.trans (by rw [hlen]; exact Nat.le_of_eq (by simp))
    · rw [hnone] at hlen
      exact (hfresh hnow).trans (by rw [hlen]; exact Nat.le_of_eq (by simp))
  · have hrest := turnover_run hx' hp' hstill' h
    rcases (hturn.trans hrest).builds with heq | hone
    · have ha : a = if op.shaderKey? = some p.shader then (x.traced.account p).dropped else x.traced.account p := heq
      rw [ha]
      exact Or.inl ⟨hbefore, hnone⟩
    · exact Or.inr (hone.trans (congrArg (· + 1) hbefore))

end Session

open Session in
/-- From every reachable library, with any compiler, after an operation and a run in which a shader keeps its generation,

* the compiler was asked to build each combination of the shader once at most, and once more for each time that the host
  released the programs of the shader in the run;
* if it did not, each combination was built once at most, whether that succeeded, was refused or could not be assembled;
  counted from what was there before, or from nothing if the first operation has dropped it;
* if it did not and the first operation was a look-up, look-ups of all masks with the same key answer as it did. -/
theorem built_once {x : Session σ} (hx : x.library.Reachable) {k : ShaderKey} {op : Operation} {ops : List Operation}
    (hstill : (x.step op).Still k ops) :
    let y := (x.step op).run ops
    (∀ s i ctx key, (x.step op).library.shader? k = some s → s.contexts[i]? = some ctx →
      let compiled := outcomes s.name ctx.name key (x.calls (op :: ops))
      let before := if op.concerns k then 0 else x.builds k i key
      compiled.length ≤ 1 + ops.countP (·.releases k) ∧
        (Operation.releaseShader k ∉ ops → compiled.length ≤ 1 ∧
          (y.builds k i key = before ∧ compiled = [] ∨ y.builds k i key = before + 1))) ∧
    (Operation.releaseShader k ∉ ops → ∀ context m, op.IsLookup k context m →
      ∀ m', x.library.site? k context m' = x.library.site? k context m →
        y.answer (.getCombination k context m') = x.answer (.getCombination k context m) ∧
          y.answer (.program k context m') = x.answer (.program k context m)) := by
  intro y
  have hlawful := hx.lawful
  refine ⟨fun s i ctx key hs hctx => ?_, fun h context m hop m' hm => lookup_run hlawful hop hstill h hm⟩
  intro compiled before
  let p : Site := ⟨k, i, key, s.name, ctx.name⟩
  have hp : p.In (x.step op).library := ⟨s, hs, rfl, ctx, hctx, rfl⟩
  obtain ⟨hcompiled, hbuilt⟩ := account_run hlawful hp hstill
  have hbuilds : y.builds k i key = ((x.traced.run (op :: ops)).account p).builds := by
    rw [show y.builds k i key = y.builds p.shader p.index p.key from rfl, builds_eq]
    unfold Account.builds account kept?
    rw [(traced_run x (op :: ops)).1]
    rfl
  refine ⟨hcompiled, fun h => ⟨?_, ?_⟩⟩
  · rwa [Operation.countP_releases h] at hcompiled
  · rw [hbuilds]
    exact hbuilt h

/-- The session before the fragment changes in the short run. -/
def litStart : Session DryRun := (Session.start default default .empty).run (litOps.take 3)

def litEdit : Operation := .updateFragment ⟨1, 1⟩ (skinSource "mat4")

def litLookups : List Operation :=
  [.program ⟨1, 1⟩ "BAD" 0, .getCombination ⟨1, 1⟩ "LIT" 1, .preLoadMask ⟨1, 1⟩ 1, .compileContexts ⟨1, 1⟩,
    .compileAll, .getCombination ⟨1, 1⟩ "BAD" 0, .program ⟨1, 1⟩ "LIT" 1]

/-- After the fragment has changed, the context that compiles and the one that does not are each compiled once, for all
look-ups. A failure is answered again. -/
theorem built_once_litStart :
    (∃ s ctx, (litStart.step litEdit).library.shader? ⟨1, 1⟩ = some s ∧ s.contexts[1]? = some ctx ∧
      (outcomes s.name ctx.name 0 (litStart.calls (litEdit :: litLookups))).length ≤ 1 ∧
      outcomes s.name ctx.name 0 (litStart.calls (litEdit :: litLookups)) = [none] ∧
      ((litStart.step litEdit).run litLookups).builds ⟨1, 1⟩ 1 0 = litStart.builds ⟨1, 1⟩ 1 0 + 1) ∧
    (litStart.run litLookups).answer (.getCombination ⟨1, 1⟩ "BAD" 0) =
      litStart.answer (.getCombination ⟨1, 1⟩ "BAD" 0) ∧
    ∃ e, litStart.answer (.getCombination ⟨1, 1⟩ "BAD" 0) = .combination (.error e) := by
  have hreach : litStart.library.Reachable := .run (.new default default) (litOps.take 3)
  have hstill : (litStart.step litEdit).Still ⟨1, 1⟩ litLookups ∧
      (litStart.step (.program ⟨1, 1⟩ "BAD" 0)).Still ⟨1, 1⟩ litLookups.tail := by
    decide +kernel
  have hrun : ∃ s ∈ (litStart.step litEdit).library.shader? ⟨1, 1⟩, ∃ ctx ∈ s.contexts[1]?,
      outcomes s.name ctx.name 0 (litStart.calls (litEdit :: litLookups)) = [none] := by
    decide +kernel
  have herr : (litStart.library.getCombination ⟨1, 1⟩ "BAD" 0 litStart.compiler).1.toOption.isNone = true := by
    decide +kernel
  obtain ⟨s, hs, ctx, hctx, hcompiled⟩ := hrun
  obtain ⟨honce, hbuilds⟩ := ((built_once hreach hstill.1).1 s 1 ctx 0 hs hctx).2 (by simp [litLookups])
  obtain ⟨e, p, he⟩ := exists_eq_of_isNone herr
  refine ⟨⟨s, ctx, hs, hctx, honce, hcompiled, hbuilds.resolve_left ?_⟩, ?_, e, ?_⟩
  · rintro ⟨-, hnone⟩
    rw [hcompiled] at hnone
    cases hnone
  · exact ((built_once hreach hstill.2).2 (by simp [litLookups]) "BAD" 0 (Or.inr rfl) 0 rfl).1
  · exact congrArg (fun r => Answer.combination r.1) he

end ShaderVariant
