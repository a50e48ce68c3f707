import ShaderVariant.Proofs.Flag.Encoding
import ShaderVariant.Proofs.Library.Session
import ShaderVariant.Proofs.Shader.Preview

/-!
# Masks without bits that no flag owns

* `gate_fullMask`, `Vocabulary.namesIn_fullMask` : gating and the definitions of flags see bits of declared flags only;
* `Shader.assembleStageSources_fullMask` : so do the stage sources, with all that is kept on the way;
* `coding_exact` : names and masks are coded into one another without loss, as far as the flags are declared.
-/

namespace ShaderVariant

namespace Vocabulary

variable (v : Vocabulary)

theorem isSet_fullMask_of_bitOf? {name : String} {i : Nat} (h : v.bitOf? name = some i) : v.fullMask.isSet i = true :=
  (v.isSet_fullMask_iff i).2 (List.getElem?_eq_some_iff.1 ((v.agrees.bitOf? name i).1 h)).1

theorem namesIn_fullMask (m : Mask) : v.namesIn (m &&& v.fullMask) = v.namesIn m :=
  namesIn_restrict_iff.2 fun _ _ hi _ => v.isSet_fullMask_of_bitOf? hi

end Vocabulary

/-- Text is gated by the bits of declared flags only. -/
theorem gate_fullMask (v : Vocabulary) (m : Mask) (t : Text) : gate v (m &&& v.fullMask) t = gate v m t := by
  symm
  refine (gate_restrict_iff v v.fullMask t).2 (fun rs hrows r hr _ _ => ?_) m
  refine bit_of_gateRows hrows (P := fun i => v.fullMask.isSet i = true) (fun l _ i hi => ?_) r hr
  obtain ⟨name, -, hbit⟩ := Option.bind_eq_some_iff.1 hi
  exact v.isSet_fullMask_of_bitOf? hbit

namespace Shader

theorem finishStage_fullMask (s : Shader) (settings : Settings) (stage : Stage) (m : Mask) (t : Text) :
    s.finishStage settings stage (m &&& s.vocabulary.fullMask) t = s.finishStage settings stage m t := by
  unfold finishStage stageHeader
  rw [gate_fullMask, Vocabulary.namesIn_fullMask]

theorem assembledSection_vocabulary (s : Shader) (w : Workspace) (i : Nat) :
    (s.assembledSection w i).2.vocabulary = s.vocabulary := by
  unfold assembledSection
  split
  · rfl
  · split
    · rfl
    · split
      · rfl
      · split <;> rfl

theorem stageSources_fullMask (s : Shader) (w : Workspace) (m : Mask) (bound : List (Stage × Nat)) :
    s.stageSources w (m &&& s.vocabulary.fullMask) bound = s.stageSources w m bound := by
  induction bound generalizing s with
  | nil => rfl
  | cons b bound ih =>
    obtain ⟨stage, i⟩ := b
    have hvoc := s.assembledSection_vocabulary w i
    unfold stageSources
    cases ha : s.assembledSection w i with
    | mk r s₁ =>
      -- The shader behind the section has kept its flags, so the rest is assembled by the same full mask.
      rw [ha] at hvoc
      cases r with
      | error e => rfl
      | ok t =>
        simp only [← hvoc, finishStage_fullMask, ih]

/-- Stage sources are assembled by the bits of declared flags only. -/
theorem assembleStageSources_fullMask (s : Shader) (w : Workspace) (i : Nat) (m : Mask) :
    s.assembleStageSources w i (m &&& s.vocabulary.fullMask) = s.assembleStageSources w i m := by
  unfold assembleStageSources
  cases s.loadError? with
  | some e => rfl
  | none =>
    cases s.contexts[i]? with
    | none => rfl
    | some c => exact s.stageSources_fullMask w m c.decl.stages.toList

end Shader

/-- For every vocabulary of up to 32 flags, lists of names and masks are coded as follows.

* Lists have the same mask just if they have the same declared names, in any order and number.
* The names in the mask of a list are the declared names in it, in order of declaration.
* The mask of the names in a mask is the part of it that is in the mask of all flags, which has a bit for each of them
  and no other bit.
* The strict mask of a list is its mask, or, if some names in it are not declared, fails with the first of them.

The stage sources of a shader, and all that is kept when they are assembled, are the same for a mask and for the part of
it that is in the mask of all flags of the shader, also if the context is asked for by its name in a library. -/
theorem coding_exact (v : Vocabulary) :
    (∀ S T, v.encode S = v.encode T ↔ ∀ name ∈ v.names, (name ∈ S ↔ name ∈ T)) ∧
    (∀ S, v.namesIn (v.encode S) = v.names.filter (· ∈ S)) ∧
    (∀ m, v.encode (v.namesIn m) = m &&& v.fullMask) ∧
    (∀ i, v.fullMask.isSet i = true ↔ i < v.names.length) ∧
    (∀ S, v.unknownNames S = S.filter (· ∉ v.names)) ∧
    (∀ S, v.encodeStrict S =
      match (v.unknownNames S).head? with
      | none => .ok (v.encode S)
      | some name => .error name) ∧
    (∀ (s : Shader) (w : Workspace) (i : Nat) (m : Mask),
      s.assembleStageSources w i m = s.assembleStageSources w i (m &&& s.vocabulary.fullMask)) ∧
    (∀ (l : Library) (k : ShaderKey) (s : Shader), l.shader? k = some s → ∀ context m,
      l.assembleStageSources k context m = l.assembleStageSources k context (m &&& s.vocabulary.fullMask)) := by
  refine ⟨v.encode_eq_iff, v.namesIn_encode, v.encode_namesIn, v.isSet_fullMask_iff, v.unknownNames_eq,
    v.encodeStrict_eq, fun s w i m => (s.assembleStageSources_fullMask w i m).symm, fun l k s hk context m => ?_⟩
  unfold Library.assembleStageSources
  rw [hk]
  simp only [Shader.assembleStageSources_fullMask]

/-- In a short run, the sources for all 32 bits are those for the one flag that is declared, and there are such. -/
theorem coding_exact_litRun :
    ∃ s sources, litRun.library.shader? ⟨1, 1⟩ = some s ∧ s.vocabulary.fullMask = 1 ∧ sources ≠ [] ∧
      (litRun.library.assembleStageSources ⟨1, 1⟩ "LIT" Mask.all).1 = .ok sources ∧
      litRun.library.assembleStageSources ⟨1, 1⟩ "LIT" Mask.all =
        litRun.library.assembleStageSources ⟨1, 1⟩ "LIT" 1 := by
  have hrun : (litRun.library.shader? ⟨1, 1⟩).any fun s => decide (s.vocabulary.fullMask = 1) &&
      (litRun.library.assembleStageSources ⟨1, 1⟩ "LIT" Mask.all).1.toOption.any (decide <| · ≠ []) := by
    decide +kernel
  obtain ⟨s, hs, hrun⟩ := (Option.any_eq_true _ _).1 hrun
  rw [Bool.and_eq_true] at hrun
  obtain ⟨hfull, hany⟩ := hrun
  obtain ⟨sources, hsources, hne⟩ := (Option.any_eq_true _ _).1 hany
  have hpart := (coding_exact s.vocabulary).2.2.2.2.2.2.2 litRun.library ⟨1, 1⟩ s hs "LIT" Mask.all
  rw [of_decide_eq_true hfull, show Mask.all &&& 1 = 1 by decide] at hpart
  exact ⟨s, sources, hs, of_decide_eq_true hfull, of_decide_eq_true hne, toOption_eq_some_iff.1 hsources, hpart⟩

/-- With 32 flags the mask of all of them has every bit. Unknown and repeated names add nothing to a mask. -/
example : (Vocabulary.ofNames ((List.range 32).map fun i => toString i)).toOption.map
    (fun v => (v.fullMask == Mask.all, v.namesIn (v.encode ["7", "no", "3", "7"]))) = some (true, ["3", "7"]) := by
  decide +kernel

end ShaderVariant
