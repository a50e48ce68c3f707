import ShaderVariant.Proofs.Library.Declared
import ShaderVariant.Proofs.Library.Simulation
import ShaderVariant.Proofs.Shader.Coherent

/-!
# Accounts of combinations

What is kept of one combination, and what the calls that compile it have given.

* `outcomes` : what the compilations of a combination gave, read off the calls of a compiler;
* `Account` : what is kept of a combination, with these outcomes;
* `Turnover` : within a generation an account stays as it is, or is built once. That one build is a failure that keeps the
  program, with a compilation or without, or a success (`Turnover.trans`, `Turnover.eq_of_fresh`);
* `Work.turnover` : every step of work on a shader is a turnover of each of its accounts.
-/

namespace ShaderVariant

/-! ## Outcomes of compilations -/

/-- What a compilation of a combination gave, if a call is one. -/
def CompilerCall.outcome? (shader context : String) (key : Mask) : CompilerCall → Option (Option Program)
  | .compile q r => if q.shader = shader ∧ q.context = context ∧ q.mask = key then some r else none
  | .release _ => none

/-- What the compilations of a combination gave, in the order of the calls. -/
def outcomes (shader context : String) (key : Mask) (calls : List CompilerCall) : List (Option Program) :=
  calls.filterMap (·.outcome? shader context key)

section Outcomes

variable {shader context : String} {key : Mask} {calls : List CompilerCall}

theorem outcomes_release (p : Program) : outcomes shader context key (.release p :: calls) = outcomes shader context key calls :=
  rfl

theorem outcomes_compile {q : CompileRequest} {r : Option Program} (hs : q.shader = shader) (hc : q.context = context)
    (hk : q.mask = key) : outcomes shader context key (.compile q r :: calls) = r :: outcomes shader context key calls :=
  List.filterMap_cons_some (if_pos ⟨hs, hc, hk⟩)

theorem outcomes_compile_of_ne {q : CompileRequest} {r : Option Program}
    (h : ¬(q.shader = shader ∧ q.context = context ∧ q.mask = key)) :
    outcomes shader context key (.compile q r :: calls) = outcomes shader context key calls :=
  List.filterMap_cons_none (if_neg h)

end Outcomes

namespace Traced

variable {σ : Type} [ProgramCompiler σ]

theorem calls_compile {q : CompileRequest} {t t' : Traced σ} {r : Except CompileFailure Program}
    (h : ProgramCompiler.compile q t = (r, t')) : t'.calls = .compile q r.toOption :: t.calls := by
  have hq : ProgramCompiler.compile q t = ((ProgramCompiler.compile q t.compiler).1,
      ⟨(ProgramCompiler.compile q t.compiler).2,
        .compile q (ProgramCompiler.compile q t.compiler).1.toOption :: t.calls⟩) :=
    rfl
  cases hq.symm.trans h
  rfl

theorem outcomes_releaseReplaced (shader context : String) (key : Mask) (old : Option Program) (t : Traced σ) :
    outcomes shader context key (Shader.releaseReplaced old t).calls = outcomes shader context key t.calls := by
  cases old with
  | none => rfl
  | some p => rfl

theorem outcomes_releaseAll (shader context : String) (key : Mask) (ps : List Program) (t : Traced σ) :
    outcomes shader context key (Shader.releaseAll ps t).calls = outcomes shader context key t.calls := by
  induction ps generalizing t with
  | nil => rfl
  | cons p ps ih => exact (ih _).trans (outcomes_release p)

end Traced

/-! ## Accounts -/

/-- What is kept of a combination, and what its compilations gave, the latest first. -/
structure Account where
  entry : Option Combination
  outcomes : List (Option Program)

namespace Account

def program? (a : Account) : Option Program := a.entry.bind Combination.program

def builds (a : Account) : UInt32 := (a.entry.map Combination.builds).getD 0

def latest? (a : Account) : Option Program := a.outcomes.findSome? id

def dropped (a : Account) : Account := { a with entry := none }

/-- What is kept is of a generation. -/
def Fresh (g : Generation) (a : Account) : Prop := ∃ b, a.entry = some b ∧ b.isStale g = false

end Account

/-- What may become of an account while the shader is of a generation. -/
inductive Turnover (g : Generation) : Account → Account → Prop
  | same (a : Account) : Turnover g a a
  | failed {a : Account} {b : Combination} {os : List (Option Program)} (hstale : ¬a.Fresh g) (hstamp : b.stamp = g)
      (hprogram : b.program = a.program?) (hbuilds : b.builds = a.builds + 1) (hos : os = [] ∨ os = [none]) :
      Turnover g a ⟨some b, os ++ a.outcomes⟩
  | built {a : Account} {b : Combination} {p : Program} (hstale : ¬a.Fresh g) (hstamp : b.stamp = g)
      (hprogram : b.program = some p) (hbuilds : b.builds = a.builds + 1) :
      Turnover g a ⟨some b, some p :: a.outcomes⟩

namespace Turnover

variable {g : Generation} {a b c : Account}

theorem eq_of_fresh (h : Turnover g a b) (ha : a.Fresh g) : b = a := by
  cases h with
  | same => rfl
  | failed hstale => exact absurd ha hstale
  | built hstale => exact absurd ha hstale

theorem fresh_of_stamp {entry : Combination} {os : List (Option Program)} (h : entry.stamp = g) :
    Account.Fresh g ⟨some entry, os⟩ := by
  refine ⟨entry, rfl, ?_⟩
  rw [Combination.isStale, h]
  exact Generation.isNewerThan_self g

theorem trans (h : Turnover g a b) (h' : Turnover g b c) : Turnover g a c := by
  cases h with
  | same => exact h'
  | failed hstale hstamp hprogram hbuilds hos =>
    rw [h'.eq_of_fresh (fresh_of_stamp hstamp)]
    exact .failed hstale hstamp hprogram hbuilds hos
  | built hstale hstamp hprogram hbuilds =>
    rw [h'.eq_of_fresh (fresh_of_stamp hstamp)]
    exact .built hstale hstamp hprogram hbuilds

theorem fresh (h : Turnover g a b) (ha : a.Fresh g) : b.Fresh g := by
  rw [h.eq_of_fresh ha]
  exact ha

/-- The program that is kept goes on being the one that was compiled last. -/
theorem latest (h : Turnover g a b) (ha : a.program? = a.latest?) : b.program? = b.latest? := by
  cases h with
  | same => exact ha
  | @failed entry os hstale hstamp hprogram hbuilds hos =>
    have hlatest : Account.latest? ⟨some entry, os ++ a.outcomes⟩ = a.latest? := by
      rcases hos with rfl | rfl <;> rfl
    rw [hlatest, ← ha]
    exact hprogram
  | built hstale hstamp hprogram hbuilds => exact hprogram

/-- Nothing is built, or one build is counted. -/
theorem builds (h : Turnover g a b) : b = a ∨ b.builds = a.builds + 1 := by
  cases h with
  | same => exact Or.inl rfl
  | failed _ _ _ hbuilds => exact Or.inr hbuilds
  | built _ _ _ hbuilds => exact Or.inr hbuilds

/-- What is compiled is of the generation afterwards, and it was not before. -/
theorem outcomes_length (h : Turnover g a b) :
    b.outcomes.length = a.outcomes.length ∨
      ¬a.Fresh g ∧ b.Fresh g ∧ b.outcomes.length = a.outcomes.length + 1 := by
  cases h with
  | same => exact Or.inl rfl
  | failed hstale hstamp _ _ hos =>
    rcases hos with rfl | rfl
    · exact Or.inl rfl
    · exact Or.inr ⟨hstale, fresh_of_stamp hstamp, rfl⟩
  | built hstale hstamp => exact Or.inr ⟨hstale, fresh_of_stamp hstamp, rfl⟩

end Turnover

namespace Shader

theorem Frame.symm {s s' : Shader} (h : Frame s s') : Frame s' s :=
  ⟨h.name.symm, h.diagnostic.symm, h.vocabulary.symm, h.sections.symm, h.samplers.symm, h.buffers.symm,
    h.generation.symm, h.decls.symm⟩

theorem Frame.exists_context {s s' : Shader} (h : Frame s s') {i : Nat} {ctx : Context} (hctx : s.contexts[i]? = some ctx) :
    ∃ ctx', s'.contexts[i]? = some ctx' ∧ ctx'.decl = ctx.decl := by
  have hi : (s'.contexts.map Context.decl)[i]? = some ctx.decl := by
    rw [h.decls, List.getElem?_map, hctx]
    rfl
  rw [List.getElem?_map] at hi
  exact Option.map_eq_some_iff.1 hi

variable {σ : Type}

def kept? (s : Shader) (i : Nat) (key : Mask) : Option Combination := (s.contexts[i]?).bind (·.combination? key)

theorem kept?_of_context {s : Shader} {i : Nat} {ctx : Context} (h : s.contexts[i]? = some ctx) (key : Mask) :
    s.kept? i key = ctx.combination? key := by
  rw [kept?, h, Option.bind_some]

theorem kept?_modifyContext {f : Context → Context} (hf : ∀ c, (f c).combinations = c.combinations) (s : Shader)
    (j i : Nat) (key : Mask) : (s.modifyContext j f).kept? i key = s.kept? i key := by
  unfold kept?
  rw [getElem?_modifyContext]
  split
  · cases s.contexts[i]? with
    | none => rfl
    | some c =>
      show (f c).combination? key = c.combination? key
      unfold Context.combination?
      rw [hf]
  · rfl

theorem kept?_put {s : Shader} {j : Nat} {c : Context} (hc : s.contexts[j]? = some c) (key' : Mask) (b : Combination)
    (i : Nat) (key : Mask) :
    (s.modifyContext j (·.put key' b)).kept? i key = if j = i ∧ key' = key then some b else s.kept? i key := by
  unfold kept?
  rw [getElem?_modifyContext]
  by_cases hi : j = i
  · subst hi
    rw [if_pos rfl, hc]
    show (c.put key' b).combination? key = _
    rw [Context.combination?_put]
    by_cases hk : key' = key
    · rw [if_pos hk, if_pos ⟨rfl, hk⟩]
    · rw [if_neg hk, if_neg fun h => hk h.2]
      rfl
  · rw [if_neg hi, if_neg fun h => hi h.1]

def account (x : Shader × Traced σ) (i : Nat) (context : String) (key : Mask) : Account :=
  ⟨x.1.kept? i key, outcomes x.1.name context key x.2.calls⟩

theorem account_modifyContext {f : Context → Context} (hf : ∀ c, (f c).combinations = c.combinations) (s : Shader)
    (j : Nat) (t : Traced σ) (i : Nat) (context : String) (key : Mask) :
    account (s.modifyContext j f, t) i context key = account (s, t) i context key :=
  congrArg (Account.mk · _) (kept?_modifyContext hf s j i key)

theorem not_fresh {g : Generation} {ctx : Context} {key : Mask}
    (h : ∀ b, ctx.combination? key = some b → b.isStale g = true) (os : List (Option Program)) :
    ¬Account.Fresh g ⟨ctx.combination? key, os⟩ := by
  rintro ⟨b, hb, hfresh⟩
  rw [h b hb] at hfresh
  cases hfresh

theorem program_entry (ctx : Context) (key : Mask) :
    (ctx.entry key).program = (ctx.combination? key).bind Combination.program := by
  unfold Context.entry
  cases ctx.combination? key <;> rfl

theorem builds_entry (ctx : Context) (key : Mask) :
    (ctx.entry key).builds = ((ctx.combination? key).map Combination.builds).getD 0 := by
  unfold Context.entry
  cases ctx.combination? key <;> rfl

theorem turnover_fail {g : Generation} {ctx : Context} {key : Mask}
    (hstale : ∀ b, ctx.combination? key = some b → b.isStale g = true) (e : ShaderError) {os : List (Option Program)}
    (hos : os = [] ∨ os = [none]) (l : List (Option Program)) :
    Turnover g ⟨ctx.combination? key, l⟩ ⟨some ((ctx.entry key).fail e g), os ++ l⟩ :=
  .failed (not_fresh hstale l) rfl (program_entry ctx key) (congrArg (· + 1) (builds_entry ctx key)) hos

theorem turnover_install {g : Generation} {ctx : Context} {key : Mask}
    (hstale : ∀ b, ctx.combination? key = some b → b.isStale g = true) (p : Program) (digest : XXH3.Hash128) (slots : Slots)
    (l : List (Option Program)) :
    Turnover g ⟨ctx.combination? key, l⟩ ⟨some ((ctx.entry key).install p g digest slots), [some p] ++ l⟩ :=
  .built (not_fresh hstale l) rfl rfl (congrArg (· + 1) (builds_entry ctx key))

/-- Writing one combination is a turnover of every account, if it is one of that combination's. -/
theorem turnover_put {s : Shader} {t t' : Traced σ} {i j : Nat} {c : Context} (hc : s.contexts[j]? = some c)
    {key key' : Mask} {context : String} {b : Combination} {os : List (Option Program)}
    (hb : ∀ l, Turnover s.generation ⟨c.combination? key', l⟩ ⟨some b, os ++ l⟩)
    (hout : outcomes s.name context key t'.calls =
      if j = i ∧ key' = key then os ++ outcomes s.name context key t.calls else outcomes s.name context key t.calls) :
    Turnover s.generation (account (s, t) i context key) (account (s.modifyContext j (·.put key' b), t') i context key) := by
  unfold account
  rw [kept?_put hc]
  show Turnover _ _ ⟨_, outcomes s.name context key t'.calls⟩
  rw [hout]
  by_cases hi : j = i ∧ key' = key
  · obtain ⟨rfl, rfl⟩ := hi
    rw [if_pos ⟨rfl, rfl⟩, if_pos ⟨rfl, rfl⟩, kept?_of_context hc]
    exact hb _
  · rw [if_neg hi, if_neg hi]
    exact .same _

/-- A request for a context compiles a combination just of the context and key that it is for. -/
theorem Declared.outcomes_request {s : Shader} (h : s.Declared) {i j : Nat} {ctx c : Context}
    (hctx : s.contexts[i]? = some ctx) (hc : s.contexts[j]? = some c) (key key' : Mask) (sources : List StageSource)
    (r : Option Program) (calls : List CompilerCall) :
    outcomes s.name ctx.name key (.compile (s.request c.decl key' sources) r :: calls) =
      if j = i ∧ key' = key then [r] ++ outcomes s.name ctx.name key calls else outcomes s.name ctx.name key calls := by
  split
  · next hi =>
    obtain ⟨rfl, rfl⟩ := hi
    cases hctx.symm.trans hc
    exact outcomes_compile rfl rfl rfl
  · next hi => exact outcomes_compile_of_ne fun ⟨_, hname, hkey⟩ => hi ⟨h.index_eq hc hctx hname, hkey⟩

variable [ProgramCompiler σ]

/-- Every step of work is a turnover of every account of the shader. -/
theorem Work.turnover {w : Workspace} {x y : Shader × Traced σ} (h : Work w x y) (hd : x.1.Declared) {i : Nat}
    {ctx : Context} (hctx : x.1.contexts[i]? = some ctx) (key : Mask) :
    Turnover x.1.generation (account x i ctx.name key) (account y i ctx.name key) := by
  cases h with
  | link s t j =>
    rw [Shader.link, account_modifyContext (combinations_linked s w.fragments)]
    exact .same _
  | assemble s t h =>
    obtain ⟨j, text, -, rfl⟩ := h
    exact .same _
  | fail s t key' e hload hc hstale hfails =>
    rw [recordFailure_eq hc]
    cases hfails with
    | unplanned => exact turnover_put hc (turnover_fail hstale e (Or.inl rfl)) (by simp)
    | refused _ hcompile =>
      refine turnover_put hc (turnover_fail hstale _ (Or.inr rfl)) ?_
      rw [Traced.calls_compile hcompile]
      exact hd.outcomes_request hctx hc key key' _ _ _
  | install s t key' p sources hload hc hstale hplan hcompile =>
    refine turnover_put hc (turnover_install hstale p _ _) ?_
    rw [Traced.outcomes_releaseReplaced, Traced.calls_compile hcompile]
    exact hd.outcomes_request hctx hc key key' sources _ _
  | cover s t j =>
    rw [account_modifyContext (f := fun c => { c with compiled := true }) fun _ => rfl]
    exact .same _
  | ready s t hload => exact .same _
  | ask s t m =>
    have hcontexts : account (s.preLoadMask m, t) i ctx.name key = account (s, t) i ctx.name key := by
      unfold preLoadMask
      split <;> rfl
    rw [hcontexts]
    exact .same _
  | adjust s t => exact .same _

/-- Work on a shader compiles no combination of one with another name. -/
theorem Work.outcomes_of_ne {w : Workspace} {x y : Shader × Traced σ} (h : Work w x y) {shader : String}
    (hs : x.1.name ≠ shader) (context : String) (key : Mask) :
    outcomes shader context key y.2.calls = outcomes shader context key x.2.calls := by
  cases h with
  | fail s t key' e hload hc hstale hfails =>
    cases hfails with
    | unplanned => rfl
    | refused _ hcompile =>
      rw [Traced.calls_compile hcompile]
      exact outcomes_compile_of_ne fun h => hs h.1
  | install s t key' p sources hload hc hstale hplan hcompile =>
    refine (Traced.outcomes_releaseReplaced shader context key _ _).trans ?_
    rw [Traced.calls_compile hcompile]
    exact outcomes_compile_of_ne fun h => hs h.1
  | _ => rfl

end Shader

end ShaderVariant
