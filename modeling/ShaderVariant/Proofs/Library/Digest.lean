import ShaderVariant.Proofs.Library.Described
import ShaderVariant.Proofs.Shader.Digest

/-!
# Digests of programs

* `Shader.inOrder_of_assembleStageSources` : stage sources stand in pipeline order, whatever is kept;
* `digest_eq_iff` : programs of plain sources have the same digest just if their sources are the same, or collide;
* `digest_shared` : the same digest for programs of different sources, one of which is not plain.
-/

namespace ShaderVariant

namespace Shader

theorem stages_of_stageSources {w : Workspace} {m : Mask} {bound : List (Stage × Nat)} {s : Shader}
    {xs : List StageSource} (h : (s.stageSources w m bound).1 = .ok xs) :
    xs.map StageSource.stage = bound.map Prod.fst := by
  induction bound generalizing s xs with
  | nil =>
    cases h
    rfl
  | cons b bound ih =>
    obtain ⟨stage, i⟩ := b
    unfold stageSources at h
    split at h
    · cases h
    · split at h
      · cases h
      · split at h
        · cases h
        · next hrest =>
          cases h
          rw [List.map_cons, List.map_cons, ih (congrArg Prod.fst hrest)]

theorem inOrder_of_assembleStageSources {s : Shader} {w : Workspace} {i : Nat} {m : Mask} {xs : List StageSource}
    (h : (s.assembleStageSources w i m).1 = .ok xs) : Stage.InOrder (xs.map StageSource.stage) := by
  unfold assembleStageSources at h
  split at h
  · cases h
  · split at h
    · cases h
    · rw [stages_of_stageSources h]
      exact Stage.inOrder_of_sublist (stages_toList_sublist _)

end Shader

open Session in
theorem Session.digest_of_cached (loader : Loader) (settings : Settings) (ops : List Operation)
    (hrange : ((start loader settings DryRun.empty).run ops).compiler.successes < 2 ^ 32) {k : ShaderKey} {i : Nat}
    {key : Mask} {s : Shader} {ctx : Context} {b : Combination} {p : Program}
    (hb : ((start loader settings DryRun.empty).run ops).cached? k i key = some (s, ctx, b))
    (hp : b.program = some p) :
    ∃ xs, ((start loader settings DryRun.empty).run ops).compiler.sources? p = some xs ∧
      b.digest = Shader.digest xs ∧ Stage.InOrder (xs.map StageSource.stage) := by
  have horderly : (start loader settings DryRun.empty).Orderly := orderly_start loader settings trivial rfl rfl
  have hempty : (start loader settings DryRun.empty).Described := fun _ k s hs => nomatch hs
  obtain ⟨hs, hctx, hcached⟩ := cached?_eq_some_iff.1 hb
  have hmem := List.mem_of_getElem? hctx
  obtain ⟨xs, hxs, hd⟩ := described_run horderly hempty ops hrange k s hs ctx hmem key b p hcached hp
  exact ⟨xs, hxs, hd.digest, Stage.inOrder_of_sublist hd.ordered⟩

open Session Shader in
/-- Let no label of a later stage stand between zeros in the sources of two lists.

* If shaders assemble the two, they are hashed as the same bytes just if they are the same.
* In every reachable state, the compiler holds the sources of all programs. Two combinations whose programs were built
  from the two lists have the same digest just if the lists are the same, or the hash collides on different bytes. As
  long as the 32-bit numbers of programs last.

The labels cannot be left out of it: a list is hashed like the one in which two stages in a row are one, with the label
of the latter between zeros. -/
theorem digest_eq_iff (xs ys : List StageSource) (hx : ∀ x ∈ xs, x.Plain) (hy : ∀ y ∈ ys, y.Plain) :
    (∀ (s s' : Shader) (w w' : Workspace) (i i' : Nat) (m m' : Mask),
      (s.assembleStageSources w i m).1 = .ok xs → (s'.assembleStageSources w' i' m').1 = .ok ys →
        (encodeSources xs = encodeSources ys ↔ xs = ys)) ∧
    (∀ loader settings ops z, z = (start loader settings DryRun.empty).run ops → z.compiler.successes < 2 ^ 32 →
      ∀ k i key s ctx b p k' i' key' s' ctx' b' p', z.cached? k i key = some (s, ctx, b) → b.program = some p →
        z.cached? k' i' key' = some (s', ctx', b') → b'.program = some p' →
        (z.compiler.sources? p).isSome ∧ (z.compiler.sources? p').isSome ∧
        (z.compiler.sources? p = some xs → z.compiler.sources? p' = some ys →
          (b.digest = b'.digest ↔ xs = ys ∨ encodeSources xs ≠ encodeSources ys ∧
            XXH3.hash128 (encodeSources xs) = XXH3.hash128 (encodeSources ys)))) ∧
    (∀ before stage a t b after, xs = before ++ ⟨stage, a⟩ :: ⟨t, b⟩ :: after →
      encodeSources (before ++ ⟨stage, a ++ nul :: t.label.toList ++ nul :: b⟩ :: after) = encodeSources xs) := by
  have hinj (hxs : Stage.InOrder (xs.map StageSource.stage)) (hys : Stage.InOrder (ys.map StageSource.stage)) :
      encodeSources xs = encodeSources ys ↔ xs = ys :=
    encodeSources_inj.trans ⟨eq_of_frames hxs hys hx hy, congrArg frames⟩
  refine ⟨fun s s' w w' i i' m m' hxs hys =>
    hinj (inOrder_of_assembleStageSources hxs) (inOrder_of_assembleStageSources hys), ?_, ?_⟩
  · rintro loader settings ops _ rfl hrange k i key s ctx b p k' i' key' s' ctx' b' p' hb hp hb' hp'
    obtain ⟨zs, hzs, hdigest, horder⟩ := digest_of_cached loader settings ops hrange hb hp
    obtain ⟨zs', hzs', hdigest', horder'⟩ := digest_of_cached loader settings ops hrange hb' hp'
    refine ⟨Option.isSome_of_eq_some hzs, Option.isSome_of_eq_some hzs', fun hxs hys => ?_⟩
    cases hzs.symm.trans hxs
    cases hzs'.symm.trans hys
    have hsame := hinj horder horder'
    rw [hdigest, hdigest']
    unfold digest
    constructor
    · intro hhash
      by_cases hbytes : encodeSources xs = encodeSources ys
      · exact Or.inl (hsame.1 hbytes)
      · exact Or.inr ⟨hbytes, hhash⟩
    · rintro (rfl | ⟨-, hhash⟩)
      · rfl
      · exact hhash
  · rintro before stage a t b after rfl
    exact encodeSources_split before after stage t a b

def bothMasks : List Operation :=
  [.addFragment "skin" (skinSource "vec4"), .loadShaderText "lit" litSource, .getCombination ⟨1, 1⟩ "LIT" 0,
    .getCombination ⟨1, 1⟩ "LIT" 1]

open Session Shader in
/-- The two programs were built from different plain sources, so that only a collision gives them the same digest. -/
theorem digest_eq_iff_bothMasks :
    ∃ s ctx b s' ctx' b' xs ys,
      ((start default default DryRun.empty).run bothMasks).cached? ⟨1, 1⟩ 0 0 = some (s, ctx, b) ∧
      ((start default default DryRun.empty).run bothMasks).cached? ⟨1, 1⟩ 0 1 = some (s', ctx', b') ∧ xs ≠ ys ∧
      ((start default default DryRun.empty).run bothMasks).compiler.sources? ⟨1⟩ = some xs ∧
      ((start default default DryRun.empty).run bothMasks).compiler.sources? ⟨2⟩ = some ys ∧
      (b.digest = b'.digest ↔ encodeSources xs ≠ encodeSources ys ∧
        XXH3.hash128 (encodeSources xs) = XXH3.hash128 (encodeSources ys)) := by
  have hrun : ((start default default DryRun.empty).run bothMasks).compiler.successes < 2 ^ 32 ∧
      (∃ e ∈ ((start default default DryRun.empty).run bothMasks).cached? ⟨1, 1⟩ 0 0, e.2.2.program = some ⟨1⟩) ∧
      (∃ e ∈ ((start default default DryRun.empty).run bothMasks).cached? ⟨1, 1⟩ 0 1, e.2.2.program = some ⟨2⟩) ∧
      ∃ xs ∈ ((start default default DryRun.empty).run bothMasks).compiler.sources? ⟨1⟩,
        ∃ ys ∈ ((start default default DryRun.empty).run bothMasks).compiler.sources? ⟨2⟩, xs ≠ ys ∧
          (∀ x ∈ xs, nul ∉ x.source) ∧ ∀ y ∈ ys, nul ∉ y.source := by
    decide +kernel
  obtain ⟨hrange, ⟨⟨s, ctx, b⟩, hb, hp⟩, ⟨⟨s', ctx', b'⟩, hb', hp'⟩, xs, hxs, ys, hys, hne, hx, hy⟩ := hrun
  have hxplain : ∀ x ∈ xs, x.Plain := fun x hmem => StageSource.plain_of_not_mem (hx x hmem)
  have hyplain : ∀ y ∈ ys, y.Plain := fun y hmem => StageSource.plain_of_not_mem (hy y hmem)
  obtain ⟨-, -, hdigest⟩ := (digest_eq_iff xs ys hxplain hyplain).2.1 default default bothMasks _ rfl hrange
    _ _ _ _ _ _ _ _ _ _ _ _ _ _ hb hp hb' hp'
  exact ⟨s, ctx, b, s', ctx', b', xs, ys, hb, hb', hne, hxs, hys, (hdigest hxs hys).trans (or_iff_right hne)⟩

/-- Two contexts: the fragment stage of the first one holds the label of a geometry stage between zeros, the second one
has such a stage. -/
def zeroSource : Text :=
  ["[[FX]]\n", "context ONE \x7b\n", "VertexShader = compile GLSL VS;\n", "PixelShader = compile GLSL FG;\n", "\x7d\n",
    "context TWO \x7b\n", "VertexShader = compile GLSL VS;\n", "PixelShader = compile GLSL FS;\n",
    "GeometryShader = compile GLSL GS;\n", "\x7d\n", "[[VS]]\n", "v\n", "[[FG]]\n", "f\n", "\x00geometry\x00g\n",
    "[[FS]]\n", "f\n", "[[GS]]\n", "g\n"].flatMap String.toList

def zeroRun : Session DryRun :=
  (Session.start default default .empty).run
    [.loadShaderText "lit" zeroSource, .getCombination ⟨1, 1⟩ "ONE" 0, .getCombination ⟨1, 1⟩ "TWO" 0]

/-- Their programs were built from different sources that are hashed as the same bytes. So the digests are the same. -/
theorem digest_shared :
    ∃ xs ys, (∃ l, zeroRun.library.assembleStageSources ⟨1, 1⟩ "ONE" 0 = (.ok xs, l)) ∧
      (∃ l, zeroRun.library.assembleStageSources ⟨1, 1⟩ "TWO" 0 = (.ok ys, l)) ∧ xs ≠ ys ∧
      Shader.encodeSources xs = Shader.encodeSources ys ∧
      ∃ s ctx b s' ctx' b', zeroRun.cached? ⟨1, 1⟩ 0 0 = some (s, ctx, b) ∧ b.program = some ⟨1⟩ ∧
        zeroRun.compiler.sources? ⟨1⟩ = some xs ∧ zeroRun.cached? ⟨1, 1⟩ 1 0 = some (s', ctx', b') ∧
        b'.program = some ⟨2⟩ ∧ zeroRun.compiler.sources? ⟨2⟩ = some ys ∧ b.digest = b'.digest := by
  have hrun : zeroRun.compiler.successes < 2 ^ 32 ∧
      (∃ xs ∈ (zeroRun.library.assembleStageSources ⟨1, 1⟩ "ONE" 0).1.toOption,
        ∃ ys ∈ (zeroRun.library.assembleStageSources ⟨1, 1⟩ "TWO" 0).1.toOption, xs ≠ ys ∧
          Shader.encodeSources xs = Shader.encodeSources ys ∧ zeroRun.compiler.sources? ⟨1⟩ = some xs ∧
            zeroRun.compiler.sources? ⟨2⟩ = some ys) ∧
      (∃ e ∈ zeroRun.cached? ⟨1, 1⟩ 0 0, e.2.2.program = some ⟨1⟩) ∧
      ∃ e ∈ zeroRun.cached? ⟨1, 1⟩ 1 0, e.2.2.program = some ⟨2⟩ := by
    decide +kernel
  obtain ⟨hrange, ⟨xs, hxs, ys, hys, hne, hbytes, hone, htwo⟩, ⟨⟨s, ctx, b⟩, hb, hp⟩, ⟨s', ctx', b'⟩, hb', hp'⟩ := hrun
  obtain ⟨xs', hxs', hdigest, -⟩ := Session.digest_of_cached default default _ hrange hb hp
  obtain ⟨ys', hys', hdigest', -⟩ := Session.digest_of_cached default default _ hrange hb' hp'
  cases hone.symm.trans hxs'
  cases htwo.symm.trans hys'
  refine ⟨xs, ys, ⟨_, Prod.ext (toOption_eq_some_iff.1 hxs) rfl⟩, ⟨_, Prod.ext (toOption_eq_some_iff.1 hys) rfl⟩, hne,
    hbytes, s, ctx, b, s', ctx', b', hb, hp, hone, hb', hp', htwo, ?_⟩
  rw [hdigest, hdigest']
  exact congrArg XXH3.hash128 hbytes

end ShaderVariant
