import ShaderVariant.Proofs.Library.Reachable

/-!
# The standing of shaders

* `Shader.standing` : the flags of a shader, the masks that were asked for, and whether it is loaded. Building and
  looking up do not change it (`standing_compileContexts`, `standing_getCombination`, `standing_assembleStageSources`);
* `Library.Works` : shaders are worked on, which changes the standing of none and nothing else (`Works.fragments`,
  `Works.standing?`). That is all that the operations do which build, look up and release.
-/

namespace ShaderVariant

open Relation (ReflTransGen)

/-! ## Work on a shader -/

namespace Shader

/-- Why the shader is not loaded, its flags, and the masks that were asked for. -/
def standing (s : Shader) : Option String × Vocabulary × List Mask := (s.diagnostic, s.vocabulary, s.preLoad)

theorem standing_combinationKey (w : Workspace) (i : Nat) (m : Mask) (s : Shader) :
    (s.combinationKey w i m).2.standing = s.standing := by
  unfold combinationKey
  split
  · rfl
  · split <;> rfl

theorem standing_assembledSection (w : Workspace) (i : Nat) (s : Shader) :
    (s.assembledSection w i).2.standing = s.standing := by
  unfold assembledSection
  split
  · rfl
  · split
    · rfl
    · split
      · rfl
      · simp only
        split <;> rfl

theorem standing_stageSources (w : Workspace) (m : Mask) (bound : List (Stage × Nat)) (s : Shader) :
    (s.stageSources w m bound).2.standing = s.standing := by
  induction bound generalizing s with
  | nil => rfl
  | cons b bound ih =>
    have ha := standing_assembledSection w b.2 s
    unfold stageSources
    split
    · next he => rwa [he] at ha
    · next s₁ he =>
      rw [he] at ha
      split
      · exact ha
      · have hrest := ih s₁
        split <;> next he => rw [he] at hrest; exact hrest.trans ha

theorem standing_assembleStageSources (w : Workspace) (i : Nat) (m : Mask) (s : Shader) :
    (s.assembleStageSources w i m).2.standing = s.standing := by
  unfold assembleStageSources
  split
  · rfl
  · split
    · rfl
    · exact standing_stageSources w m _ s

theorem standing_prepare (w : Workspace) (i : Nat) (d : ContextDecl) (key : Mask) (s : Shader) :
    (s.prepare w i d key).2.standing = s.standing := by
  unfold prepare
  split
  · rfl
  · exact standing_stageSources w key _ _

variable {σ : Type} [ProgramCompiler σ]

theorem standing_build (w : Workspace) (i : Nat) (d : ContextDecl) (key : Mask) (s : Shader) (c : σ) :
    (s.build w i d key c).2.1.standing = s.standing := by
  have hp := standing_prepare w i d key s
  unfold build
  split
  · next he => rwa [he] at hp
  · next he =>
    rw [he] at hp
    split <;> exact hp

theorem standing_ensure (w : Workspace) (i : Nat) (m : Mask) (s : Shader) (c : σ) :
    (s.ensure w i m c).2.1.standing = s.standing := by
  rcases ensure_cases w i m s c with ⟨e, -, he⟩ | ⟨ctx, key, s₁, -, -, hk, hcase⟩
  · rw [he]
  · have hkey := standing_combinationKey w i m s
    rw [hk] at hkey
    rcases hcase with ⟨b, -, -, he⟩ | ⟨-, he⟩
    · rw [he]
      exact hkey
    · rw [he]
      exact (standing_build w i ctx.decl key s₁ c).trans hkey

theorem standing_getCombination (w : Workspace) (context : String) (m : Mask) (s : Shader) (c : σ) :
    (s.getCombination w context m c).2.1.standing = s.standing := by
  unfold getCombination
  split
  · rfl
  · split
    · rfl
    · next i _ =>
      have he := standing_ensure w i m s c
      unfold getCombinationAt
      split <;> next h => rwa [h] at he

theorem standing_ensureAll (w : Workspace) (i : Nat) (ms : List Mask) (s : Shader) (c : σ) :
    (s.ensureAll w i ms c).2.1.standing = s.standing := by
  induction ms generalizing s c with
  | nil => rfl
  | cons m ms ih => exact (ih _ _).trans (standing_ensure w i m s c)

theorem standing_compileEach (w : Workspace) (masks : List Mask) (is : List Nat) (s : Shader) (c : σ) :
    (s.compileEach w masks is c).2.1.standing = s.standing := by
  induction is generalizing s c with
  | nil => rfl
  | cons i is ih => exact (ih _ _).trans (standing_ensureAll w i masks (s.link w.fragments i) c)

theorem standing_compileContexts (w : Workspace) (s : Shader) (c : σ) :
    (s.compileContexts w c).2.1.standing = s.standing := by
  unfold compileContexts
  split
  · rfl
  · exact standing_compileEach w s.preLoad _ s c

end Shader

/-! ## Work on the shaders of a library -/

namespace Library

variable {l l' : Library}

def standing? (l : Library) (k : ShaderKey) : Option (Option String × Vocabulary × List Mask) :=
  (l.shader? k).map Shader.standing

/-- Shaders of the same standing are put in the place of others, and nothing else happens. -/
def Works : Library → Library → Prop :=
  ReflTransGen fun l l' => ∃ k s s', l.shader? k = some s ∧ s'.standing = s.standing ∧ l' = l.setShader k s'

namespace Works

theorem single {k : ShaderKey} {s s' : Shader} (hs : l.shader? k = some s) (h : s'.standing = s.standing) :
    l.Works (l.setShader k s') :=
  ReflTransGen.single ⟨k, s, s', hs, h, rfl⟩

theorem fragments (h : l.Works l') : l'.fragments = l.fragments := by
  induction h with
  | refl => rfl
  | tail _ hstep ih =>
    obtain ⟨k, s, s', -, -, rfl⟩ := hstep
    exact ih

theorem standing? (h : l.Works l') (x : ShaderKey) : l'.standing? x = l.standing? x := by
  induction h with
  | refl => rfl
  | @tail l₁ _ _ hstep ih =>
    obtain ⟨k, s, s', hs, hst, rfl⟩ := hstep
    refine Eq.trans ?_ ih
    unfold Library.standing?
    rw [shader?_setShader]
    split
    · next hk =>
      subst hk
      rw [hs]
      exact congrArg some hst
    · rfl

end Works

theorem works_retainedProgram (l : Library) (k : ShaderKey) (context : String) (m : Mask) :
    l.Works (l.retainedProgram k context m).2 := by
  unfold retainedProgram
  split
  · exact .refl
  · next s hs =>
    split
    · exact .refl
    · next i _ => exact .single hs (Shader.standing_combinationKey l.workspace i m s)

theorem works_assembleStageSources (l : Library) (k : ShaderKey) (context : String) (m : Mask) :
    l.Works (l.assembleStageSources k context m).2 := by
  unfold assembleStageSources
  split
  · exact .refl
  · next s hs =>
    split
    · exact .refl
    · next i _ => exact .single hs (Shader.standing_assembleStageSources l.workspace i m s)

theorem works_setFloatParam (l : Library) (k : ShaderKey) (kind : Int) (i : Nat) (param : Int) (component : Nat)
    (a : Binary32) : l.Works (Session.setFloatParam l k kind i param component a) := by
  unfold Session.setFloatParam
  split
  · exact .refl
  · next s' h =>
    obtain ⟨s, hs, hset⟩ := Option.bind_eq_some_iff.1 h
    refine .single hs ?_
    unfold Shader.setFloatParam? at hset
    split at hset
    · obtain ⟨u, -, rfl⟩ := Option.map_eq_some_iff.1 hset
      rfl
    · cases hset

variable {σ : Type} [ProgramCompiler σ]

theorem works_compileContexts (l : Library) (k : ShaderKey) (c : σ) : l.Works (l.compileContexts k c).2.1 := by
  unfold compileContexts
  split
  · exact .refl
  · next s hs => exact .single hs (Shader.standing_compileContexts l.workspace s c)

theorem works_compileEach (ks : List ShaderKey) (l : Library) (c : σ) : l.Works (l.compileEach ks c).2.1 := by
  induction ks generalizing l c with
  | nil => exact .refl
  | cons k ks ih =>
    unfold compileEach
    split
    · exact ih l c
    · next s hs =>
      split
      · exact (Works.single hs (Shader.standing_compileContexts l.workspace s c)).trans (ih _ _)
      · exact ih l c

theorem works_getCombination (l : Library) (k : ShaderKey) (context : String) (m : Mask) (c : σ) :
    l.Works (l.getCombination k context m c).2.1 := by
  unfold getCombination
  split
  · exact .refl
  · next s hs => exact .single hs (Shader.standing_getCombination l.workspace context m s c)

theorem works_program (l : Library) (k : ShaderKey) (context : String) (m : Mask) (c : σ) :
    l.Works (l.program? k context m c).2.1 := by
  have h := works_getCombination l k context m c
  unfold program?
  split
  · next he => rwa [he] at h
  · next he =>
    rw [he] at h
    exact h.trans (works_retainedProgram _ k context m)

theorem works_releaseShader (l : Library) (k : ShaderKey) (c : σ) : l.Works (Session.releaseShader l k c).1 := by
  unfold Session.releaseShader
  split
  · exact .refl
  · next s hs => exact .single hs rfl

end Library

end ShaderVariant
