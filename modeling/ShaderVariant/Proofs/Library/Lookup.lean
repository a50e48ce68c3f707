import ShaderVariant.Proofs.Library.Preview
import ShaderVariant.Proofs.Library.Turnover

/-!
# Looking up combinations

* `Combination.result` : what a combination answers: itself, or the error that it keeps;
* `lookup_entry` : getting a combination, or its program, leaves one of the present generation at its site and answers
  with it;
* `Library.site?` : the site of a mask. Within a generation it stays the same (`Move.site?_eq`).
-/

namespace ShaderVariant

open Relation (ReflTransGen)

/-- What a combination that was built answers. -/
def Combination.result (b : Combination) : Except ShaderError Combination := b.lastError.elim (.ok b) .error

theorem Combination.eq_of_result {b b' : Combination} (h : b'.result = .ok b) : b' = b := by
  unfold result at h
  cases he : b'.lastError with
  | some e =>
    rw [he] at h
    cases h
  | none =>
    rw [he] at h
    exact Except.ok.inj h

namespace Shader

variable {σ : Type} [ProgramCompiler σ]

/-! ## Keys -/

/-- The flags in use of a context that a mask is reduced to. -/
def reducedFlags (w : Workspace) (s : Shader) (i : Nat) : Option Mask :=
  (s.contexts[i]?).map fun c => (s.linked w.fragments c).usedFlags

/-- The key of a mask is its part in use, or the mask itself, as the settings say. -/
theorem combinationKey_fst (w : Workspace) (s : Shader) (i : Nat) (m : Mask) :
    (s.combinationKey w i m).1 =
      if w.settings.maskUnusedFlags then (s.reducedFlags w i).elim m (m &&& ·) else m := by
  unfold combinationKey reducedFlags
  cases s.contexts[i]? with
  | none => simp
  | some c => cases w.settings.maskUnusedFlags <;> rfl

theorem linked_linked (s : Shader) (fragments : FragmentStore) (c : Context) :
    s.linked fragments (s.linked fragments c) = s.linked fragments c := by
  have hat : (s.linked fragments c).linkedAt = some s.generation := by
    unfold linked
    split
    · next h => exact h
    · rfl
  exact if_pos hat

/-- Frames see the same flags in contexts that are linked alike. -/
theorem Frame.usedFlags_linked {s s' : Shader} (h : Frame s s') (fragments : FragmentStore) {c c' : Context}
    (hdecl : c'.decl = c.decl) (hat : c'.linkedAt = c.linkedAt) (hflags : c'.usedFlags = c.usedFlags) :
    (s'.linked fragments c').usedFlags = (s.linked fragments c).usedFlags := by
  unfold linked
  rw [hat, h.generation]
  split
  · exact hflags
  · exact (h.usedFlags fragments c'.decl).trans (congrArg _ hdecl)

/-- Changing a context without its flags changes none. -/
theorem reducedFlags_modifyContext {w : Workspace} {s : Shader} {j : Nat} {f : Context → Context}
    (h : ∀ c, s.contexts[j]? = some c → (s.linked w.fragments (f c)).usedFlags = (s.linked w.fragments c).usedFlags)
    (i : Nat) : (s.modifyContext j f).reducedFlags w i = s.reducedFlags w i := by
  have hsame : ∀ c, (s.modifyContext j f).linked w.fragments c = s.linked w.fragments c := fun _ => rfl
  unfold reducedFlags
  rw [getElem?_modifyContext]
  split
  · next hj =>
    subst hj
    cases hc : s.contexts[j]? with
    | none => rfl
    | some c =>
      simp only [Option.map_some, hsame]
      rw [h c hc]
  · simp only [hsame]

/-- Work does not change the flags that masks are reduced to. -/
theorem Work.reducedFlags {w : Workspace} {x y : Shader × σ} (h : Work w x y) (i : Nat) :
    y.1.reducedFlags w i = x.1.reducedFlags w i := by
  cases h with
  | link s c j => exact reducedFlags_modifyContext (fun c _ => by rw [linked_linked]) i
  | assemble s c h =>
    obtain ⟨j, t, -, rfl⟩ := h
    rfl
  | fail s c key e =>
    refine reducedFlags_modifyContext (fun ctx _ => ?_) i
    exact (Frame.refl s).usedFlags_linked w.fragments rfl rfl rfl
  | install s c key p =>
    refine reducedFlags_modifyContext (fun ctx _ => ?_) i
    exact (Frame.refl s).usedFlags_linked w.fragments rfl rfl rfl
  | cover s c j =>
    refine reducedFlags_modifyContext (fun ctx _ => ?_) i
    exact (Frame.refl s).usedFlags_linked w.fragments rfl rfl rfl
  | ready s c => rfl
  | ask s c m =>
    show (s.preLoadMask m).reducedFlags w i = _
    unfold preLoadMask
    split <;> rfl
  | adjust s c => rfl

theorem Work.combinationKey_of_steps {w : Workspace} {x y : Shader × σ} (h : ReflTransGen (Work w) x y) (i : Nat)
    (m : Mask) : (y.1.combinationKey w i m).1 = (x.1.combinationKey w i m).1 := by
  have hflags : y.1.reducedFlags w i = x.1.reducedFlags w i := by
    induction h with
    | refl => rfl
    | tail _ hstep ih => exact (hstep.reducedFlags i).trans ih
  rw [combinationKey_fst, combinationKey_fst, hflags]

/-- A shader that sees no difference has the same keys. -/
theorem combinationKey_of_view {l l' : Library} {s : Shader} (h : l.SameView l' s) (i : Nat) (m : Mask) :
    (s.combinationKey l'.workspace i m).1 = (s.combinationKey l.workspace i m).1 := by
  have hflags : s.reducedFlags l'.workspace i = s.reducedFlags l.workspace i := by
    unfold reducedFlags
    refine congrArg (Option.map · _) (funext fun c => ?_)
    unfold linked
    split
    · rfl
    · exact h.flags c.decl
  rw [combinationKey_fst, combinationKey_fst, hflags, h.text.settings]

/-! ## Entries -/

/-- A build leaves what it answers with. -/
theorem build_entry {w : Workspace} {s : Shader} {i : Nat} {ctx : Context} (hr : s.Remembers w)
    (hctx : s.contexts[i]? = some ctx) (key : Mask) (c : σ) :
    ∃ b, (s.build w i ctx.decl key c).2.1.kept? i key = some b ∧ b.stamp = s.generation ∧
      (s.build w i ctx.decl key c).1 = b.result := by
  have hput : ∀ {t : Shader} {a : Context}, t.contexts[i]? = some a → ∀ b,
      (t.modifyContext i (·.put key b)).kept? i key = some b := by
    intro t a ha b
    exact (kept?_put ha key b i key).trans (if_pos ⟨rfl, rfl⟩)
  cases hp : s.prepare w i ctx.decl key with
  | mk r s₁ =>
    obtain ⟨hwork, hsame, -⟩ := prepare_spec hr hp c
    obtain ⟨ctx₁, hctx₁, -, -⟩ := getElem?_prepare hsame hctx
    have hgen : s₁.generation = s.generation := (Work.frame_of_steps hwork).generation
    unfold build
    rw [hp]
    cases r with
    | error e =>
      simp only [recordFailure_eq hctx₁]
      exact ⟨_, hput hctx₁ _, hgen, rfl⟩
    | ok stages =>
      cases hc : ProgramCompiler.compile (s₁.request ctx.decl key stages) c with
      | mk x c₁ =>
        cases x with
        | error f =>
          simp only [hc, recordFailure_eq hctx₁]
          exact ⟨_, hput hctx₁ _, hgen, rfl⟩
        | ok p =>
          simp only [hc]
          exact ⟨_, hput hctx₁ _, hgen, rfl⟩

/-- Getting a combination leaves one of the present generation, and answers with it. -/
theorem getCombinationAt_entry {w : Workspace} {s : Shader} {i : Nat} {ctx : Context} (hr : s.Remembers w)
    (hload : s.isLoaded = true) (hctx : s.contexts[i]? = some ctx) (m : Mask) (c : σ) :
    ∃ b, (s.getCombinationAt w i m c).2.1.kept? i (s.combinationKey w i m).1 = some b ∧
      b.isStale s.generation = false ∧ (s.getCombinationAt w i m c).1 = b.result := by
  have hat : s.getCombinationAt w i m c =
      ((s.ensure w i m c).1.map Prod.fst, (s.ensure w i m c).2.1, (s.ensure w i m c).2.2) := by
    unfold getCombinationAt
    rcases s.ensure w i m c with ⟨_ | ⟨b, _⟩, t, d⟩ <;> rfl
  rw [hat]
  rcases ensure_cases w i m s c with ⟨e, he | ⟨-, he⟩, -⟩ | ⟨ctx', key, s₁, -, hctx', hk, hcase⟩
  · rw [loadError?_of_isLoaded hload] at he
    cases he
  · rw [hctx] at he
    cases he
  · obtain rfl : ctx = ctx' := Option.some.inj (hctx.symm.trans hctx')
    have hkey := combinationKey_cases hk
    have hwork : ReflTransGen (Work w) (s, c) (s₁, c) := by
      rcases hkey with rfl | rfl
      · exact .refl
      · exact .single (.link s c i)
    have hgen : s₁.generation = s.generation := (Work.frame_of_steps hwork).generation
    obtain ⟨ctx₁, hctx₁, hdecl, hcomb⟩ := getElem?_prepare (hkey.imp_right (congrArg contexts)) hctx
    rw [hk]
    rcases hcase with ⟨b, hb, hfresh, he⟩ | ⟨-, he⟩
    · rw [he]
      refine ⟨b, ?_, hgen ▸ hfresh, ?_⟩
      · show (s₁.contexts[i]?).bind _ = _
        rw [hctx₁, Option.bind_some, Context.combination?, hcomb]
        exact hb
      · unfold Combination.result
        cases b.lastError <;> rfl
    · obtain ⟨b, hentry, hstamp, hres⟩ := build_entry (Work.remembers_of_steps hwork hr) hctx₁ key c
      rw [hdecl] at hentry hres
      rw [he]
      refine ⟨b, hentry, ?_, ?_⟩
      · rw [Combination.isStale, hstamp, hgen]
        exact Generation.isNewerThan_self _
      · show ((s₁.build w i ctx.decl key c).1.map _).map _ = _
        rw [hres]
        unfold Combination.result
        cases b.lastError <;> rfl

end Shader

/-! ## Sites -/

namespace Library

/-- The site of the combination of a mask in a context. -/
def site? (l : Library) (k : ShaderKey) (context : String) (m : Mask) : Option Site :=
  (l.shader? k).bind fun s => (s.findContext? context).map fun i =>
    ⟨k, i, (s.combinationKey l.workspace i m).1, s.name, context⟩

theorem site?_eq_some_iff {l : Library} {k : ShaderKey} {context : String} {m : Mask} {p : Site} :
    l.site? k context m = some p ↔ ∃ s i, l.shader? k = some s ∧ s.findContext? context = some i ∧
      p = ⟨k, i, (s.combinationKey l.workspace i m).1, s.name, context⟩ := by
  simp only [site?, Option.bind_eq_some_iff, Option.map_eq_some_iff]
  constructor
  · rintro ⟨s, hs, i, hi, rfl⟩
    exact ⟨s, i, hs, hi, rfl⟩
  · rintro ⟨s, i, hs, hi, rfl⟩
    exact ⟨s, hs, i, hi, rfl⟩

theorem site?_of_shader {l : Library} {k : ShaderKey} {s : Shader} (hs : l.shader? k = some s) (context : String)
    (m : Mask) : l.site? k context m =
      (s.findContext? context).map fun i => ⟨k, i, (s.combinationKey l.workspace i m).1, s.name, context⟩ := by
  unfold site?
  rw [hs]
  rfl

theorem in_of_site? {l : Library} {k : ShaderKey} {context : String} {m : Mask} {p : Site}
    (h : l.site? k context m = some p) : p.shader = k ∧ p.In l := by
  obtain ⟨s, i, hs, hi, rfl⟩ := site?_eq_some_iff.1 h
  obtain ⟨hlt, hname, -⟩ := List.findIdx?_eq_some_iff_getElem.1 hi
  exact ⟨rfl, s, hs, rfl, s.contexts[i], List.getElem?_eq_getElem hlt, beq_iff_eq.1 hname⟩

theorem contextName_of_site? {l : Library} {k : ShaderKey} {context : String} {m : Mask} {p : Site}
    (h : l.site? k context m = some p) : p.contextName = context := by
  obtain ⟨s, i, -, -, he⟩ := site?_eq_some_iff.1 h
  rw [he]

/-- Why a shader has no site for any mask. -/
def missing (l : Library) (k : ShaderKey) (context : String) : ShaderError :=
  match l.shader? k with
  | none => noShader k
  | some s => s.loadError?.getD (s.noContext context)

end Library

namespace Session

variable {σ : Type} [ProgramCompiler σ]

/-! ## Answers -/

/-- What getting a combination does at the site of a mask. -/
theorem getCombination_site {x : Session σ} (hx : x.library.Regular) {k : ShaderKey} {context : String} {m : Mask}
    {p : Site} (hp : x.library.site? k context m = some p) :
    ∃ s s' b c, x.library.shader? k = some s ∧ s.findContext? context = some p.index ∧
      ReflTransGen (Shader.Work x.library.workspace) (s, x.compiler) (s', c) ∧
      x.library.getCombination k context m x.compiler = (b.result, x.library.setShader k s', c) ∧
      s'.kept? p.index p.key = some b ∧ b.isStale (x.generationOf k) = false := by
  obtain ⟨-, hin⟩ := Library.in_of_site? hp
  obtain ⟨s, i, hs, hi, rfl⟩ := Library.site?_eq_some_iff.1 hp
  obtain ⟨s', hs', hwithin⟩ := hin
  cases hs.symm.trans hs'
  have hreg := hx.shaders k s hs
  have hload := hwithin.isLoaded hreg
  obtain ⟨ctx, hctx⟩ := Shader.exists_context_of_findContext? hi
  obtain ⟨b, hb, hfresh, hres⟩ := Shader.getCombinationAt_entry hreg.remembers hload hctx m x.compiler
  have hwork := Shader.getCombinationAt_work hreg.remembers i m x.compiler
  refine ⟨s, _, b, _, hs, hi, hwork, ?_, hb, generationOf_eq hs ▸ hfresh⟩
  unfold Library.getCombination Shader.getCombination
  simp only [hs, Shader.loadError?_of_isLoaded hload, hi, hres]

omit [ProgramCompiler σ] in
/-- The program to fall back to is that of the combination which is kept under the key of the mask. -/
theorem retainedProgram_of_kept {l : Library} {k : ShaderKey} {s : Shader} (hs : l.shader? k = some s) {context : String}
    {i : Nat} (hi : s.findContext? context = some i) {m : Mask} {b : Combination}
    (hb : s.kept? i (s.combinationKey l.workspace i m).1 = some b) :
    ∃ t, l.retainedProgram k context m = (b.program, l.setShader k t) ∧
      t.kept? i (s.combinationKey l.workspace i m).1 = some b := by
  cases hk : s.combinationKey l.workspace i m with
  | mk key t =>
    rw [hk] at hb
    have hkept : t.kept? i key = some b := by
      rcases Shader.combinationKey_cases hk with rfl | rfl
      · exact hb
      · exact (Shader.kept?_modifyContext (Shader.combinations_linked s l.workspace.fragments) s i i key).trans hb
    refine ⟨t, ?_, hkept⟩
    unfold Library.retainedProgram
    simp only [hs, hi, hk]
    exact congrArg (fun r : Option Combination => (r.bind Combination.program, l.setShader k t)) hkept

/-- Getting a combination or a program leaves one combination of the present generation at the site of the mask, and
answers with it or with its program, whether the last build has succeeded or not. -/
theorem lookup_entry {x : Session σ} (hx : x.library.Regular) {k : ShaderKey} {context : String} {m : Mask} {p : Site}
    (hp : x.library.site? k context m = some p) :
    ∃ b, b.isStale (x.generationOf k) = false ∧
      (x.step (.getCombination k context m)).kept? p = some b ∧
      (x.library.getCombination k context m x.compiler).1 = b.result ∧
      (x.step (.program k context m)).kept? p = some b ∧
      (x.library.program? k context m x.compiler).1 = b.program := by
  obtain ⟨rfl, -⟩ := Library.in_of_site? hp
  obtain ⟨s, s', b, c, hs, hi, hwork, hget, hb, hfresh⟩ := getCombination_site hx hp
  have hset := Library.shader?_setShader_self hs s'
  have hafter : ∀ {t : Shader} {d : σ}, t.kept? p.index p.key = some b →
      (ofPair (x.library.setShader p.shader t, d)).kept? p = some b := by
    intro t d ht
    exact (kept?_eq (Library.shader?_setShader_self hs t)).trans ht
  suffices h : ∃ t, x.library.program? p.shader context m x.compiler = (b.program, x.library.setShader p.shader t, c) ∧
      t.kept? p.index p.key = some b by
    obtain ⟨t, ht, hentry⟩ := h
    refine ⟨b, hfresh, ?_, by rw [hget], ?_, by rw [ht]⟩
    · rw [step, hget]
      exact hafter hb
    · rw [step, ht]
      exact hafter hentry
  unfold Library.program?
  rw [hget]
  cases herr : b.lastError with
  | none =>
    have hres : b.result = .ok b := by rw [Combination.result, herr]; rfl
    rw [hres]
    exact ⟨s', rfl, hb⟩
  | some e =>
    have hres : b.result = .error e := by rw [Combination.result, herr]; rfl
    -- The key that is computed again is the one that the failing look-up has used.
    have hkey : (s'.combinationKey (x.library.setShader p.shader s').workspace p.index m).1 = p.key := by
      obtain ⟨t, i, ht, hti, he⟩ := Library.site?_eq_some_iff.1 hp
      cases hs.symm.trans ht
      rw [he]
      exact Shader.Work.combinationKey_of_steps hwork i m
    have hi' : s'.findContext? context = some p.index := ((Shader.Work.frame_of_steps hwork).findContext? context).trans hi
    obtain ⟨t, hretained, hkept⟩ := retainedProgram_of_kept hset hi' (hkey.symm ▸ hb)
    rw [hkey] at hkept
    rw [Library.setShader_setShader] at hretained
    rw [hres]
    simp only [hretained]
    exact ⟨t, rfl, hkept⟩

omit [ProgramCompiler σ] in
theorem site?_eq_none {l : Library} {k : ShaderKey} {context : String} {m : Mask} (h : l.site? k context m = none)
    {s : Shader} (hs : l.shader? k = some s) : s.findContext? context = none := by
  rw [Library.site?_of_shader hs, Option.map_eq_none_iff] at h
  exact h

theorem getCombination_of_none (x : Session σ) {k : ShaderKey} {context : String} {m : Mask}
    (h : x.library.site? k context m = none) :
    x.library.getCombination k context m x.compiler = (.error (x.library.missing k context), x.library, x.compiler) := by
  unfold Library.getCombination Library.missing
  cases hs : x.library.shader? k with
  | none => rfl
  | some s =>
    have hi := site?_eq_none h hs
    unfold Shader.getCombination
    cases hload : s.loadError? with
    | some e => simp only [hload, Library.setShader_eq_self hs, Option.getD_some]
    | none => simp only [hload, hi, Library.setShader_eq_self hs, Option.getD_none]

theorem program_of_none (x : Session σ) {k : ShaderKey} {context : String} {m : Mask}
    (h : x.library.site? k context m = none) : (x.library.program? k context m x.compiler).1 = none := by
  have hretained : x.library.retainedProgram k context m = (none, x.library) := by
    unfold Library.retainedProgram
    cases hs : x.library.shader? k with
    | none => rfl
    | some s =>
      have hi := site?_eq_none h hs
      simp only [hi]
  unfold Library.program?
  rw [getCombination_of_none x h]
  simp only [hretained]

/-- What getting a combination answers with is there, at the site of the mask. -/
theorem kept_of_getCombination {x : Session σ} (hx : x.library.Regular) {k : ShaderKey} {context : String} {m : Mask}
    {b : Combination} (h : (x.library.getCombination k context m x.compiler).1 = .ok b) :
    ∃ p, x.library.site? k context m = some p ∧ (x.step (.getCombination k context m)).kept? p = some b := by
  cases hp : x.library.site? k context m with
  | none =>
    rw [getCombination_of_none x hp] at h
    cases h
  | some p =>
    obtain ⟨b', -, hkept, hres, -⟩ := lookup_entry hx hp
    obtain rfl := Combination.eq_of_result (hres.symm.trans h)
    exact ⟨p, rfl, hkept⟩

/-! ## Sites within a generation -/

omit [ProgramCompiler σ] in
theorem site?_congr {x y : Session σ} {k : ShaderKey} {s s' : Shader} (hs : x.library.shader? k = some s)
    (hs' : y.library.shader? k = some s') (hframe : Shader.Frame s s') {m : Mask}
    (hkey : ∀ i, (s'.combinationKey y.library.workspace i m).1 = (s.combinationKey x.library.workspace i m).1)
    (context : String) : y.library.site? k context m = x.library.site? k context m := by
  rw [Library.site?_of_shader hs', Library.site?_of_shader hs, hframe.findContext?, hframe.name]
  simp only [hkey]

theorem Quiet.site?_eq {x y : Session σ} (h : Quiet x y) (hx : x.library.Regular) (k : ShaderKey) (context : String)
    (m : Mask) : y.library.site? k context m = x.library.site? k context m := by
  cases hy : y.library.shader? k with
  | none =>
    have hsome := h.isSome k
    rw [hy] at hsome
    have hnone : x.library.shader? k = none := Option.not_isSome_iff_eq_none.1 (by rw [← hsome]; exact Bool.false_ne_true)
    unfold Library.site?
    rw [hy, hnone, Option.bind_none, Option.bind_none]
  | some s' =>
    obtain ⟨s, hs, ⟨rfl, hv⟩ | ⟨hw, hwork⟩⟩ := h.shader hx hy
    · exact site?_congr hs hy (.refl s') (fun i => Shader.combinationKey_of_view hv i m) context
    · refine site?_congr hs hy hwork.frame (fun i => ?_) context
      rw [hw]
      exact Shader.Work.combinationKey_of_steps (.single hwork) i m

theorem site?_of_quiet {x y : Session σ} (h : ReflTransGen Quiet x y) (hx : x.library.Regular) (k : ShaderKey)
    (context : String) (m : Mask) : y.library.site? k context m = x.library.site? k context m := by
  induction h with
  | refl => rfl
  | tail hsteps hstep ih => exact (hstep.site?_eq (regular_of_quiet hsteps hx) k context m).trans ih

/-- A turn that leaves the generation of a shader leaves what it declares. -/
theorem Turn.frame {x y : Session σ} (h : Turn x y) (hx : x.library.Regular) {k : ShaderKey} {s s' : Shader}
    (hs : x.library.shader? k = some s) (hs' : y.library.shader? k = some s') (hg : s'.generation = s.generation) :
    Shader.Frame s s' := by
  cases h.shader hx hs' with
  | stays hs₀ =>
    cases hs.symm.trans hs₀
    exact .refl s
  | stale hs₀ =>
    cases hs.symm.trans hs₀
    exact absurd hg (Generation.next_ne _)
  | refilled hs₀ _ hr =>
    cases hs.symm.trans hs₀
    cases hr with
    | cleared =>
      refine ⟨rfl, rfl, rfl, rfl, rfl, rfl, rfl, ?_⟩
      show (s.contexts.map Context.cleared).map Context.decl = _
      rw [List.map_map]
      rfl
    | failed => exact absurd hg (Generation.next_ne _)
    | applied => exact absurd hg (Generation.next_ne _)
  | registered hs₀ =>
    rw [hs] at hs₀
    cases hs₀

theorem Move.frame {k? : Option ShaderKey} {x y : Session σ} (h : Move k? x y) (hx : x.library.Lawful) {k : ShaderKey}
    {s s' : Shader} (hs : x.library.shader? k = some s) (hs' : y.library.shader? k = some s')
    (hg : s'.generation = s.generation) : Shader.Frame s s' := by
  cases h with
  | quiet _ h =>
    obtain ⟨t, ht, hframe⟩ := frame_of_quiet h hx.regular hs'
    cases hs.symm.trans ht
    exact hframe
  | @turn l l' c v y hload h hq =>
    have hx' : Library.Lawful l' := Quiet.lawful (.load c hload) hx
    obtain ⟨t, ht, hframe⟩ := frame_of_quiet hq (h.turn.lawful hx').regular hs'
    exact (h.turn.frame hx'.regular ((shader?_loaded hload k).trans hs) ht (hframe.generation.symm.trans hg)).trans hframe

/-- An operation that leaves the generation of a loaded shader, and is not about it, leaves its sites. -/
theorem Move.site?_eq {k? : Option ShaderKey} {x y : Session σ} (h : Move k? x y) (hx : x.library.Lawful) {k : ShaderKey}
    (hk : k? ≠ some k) {s : Shader} (hs : x.library.shader? k = some s) (hload : s.isLoaded = true)
    (hg : y.generationOf k = x.generationOf k) (context : String) (m : Mask) :
    y.library.site? k context m = x.library.site? k context m := by
  cases h with
  | quiet _ h => exact site?_of_quiet h hx.regular k context m
  | @turn l l' c v y hloaded h hq =>
    have hx' : Library.Lawful l' := Quiet.lawful (.load c hloaded) hx
    have hs' : l'.shader? k = some s := (shader?_loaded hloaded k).trans hs
    have hfirst := Quiet.site?_eq (.load c hloaded) hx.regular k context m
    rw [site?_of_quiet hq (h.turn.lawful hx').regular, ← hfirst]
    have hgv : v.generationOf k = s.generation := by
      rw [← generationOf_of_quiet hq, hg]
      exact generationOf_eq hs
    have hv : v.library.shader? k = some s := by
      refine (h.keeps k s hk hs' hload).resolve_right fun hstale => ?_
      rw [generationOf_eq hstale] at hgv
      exact Generation.next_ne _ hgv
    have hview : l'.SameView v.library s ∨ v.library.workspace = l'.workspace := by
      cases h.turn.shader hx'.regular hv with
      | stays _ hview => exact Or.inl hview
      | stale hs₀ => exact absurd (congrArg Shader.generation (Option.some.inj (hs'.symm.trans hs₀))) (Generation.next_ne _)
      | refilled _ hw _ => exact Or.inr hw
      | registered hs₀ =>
        have hs₀ : l'.shader? k = none := hs₀
        rw [hs'] at hs₀
        cases hs₀
    refine site?_congr (x := ⟨l', c⟩) hs' hv (.refl s) (fun i => ?_) context
    rcases hview with hview | hw
    · exact Shader.combinationKey_of_view hview i m
    · rw [hw]

end Session

end ShaderVariant
