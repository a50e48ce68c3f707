import ShaderVariant.Proofs.Shader.Outcome
import ShaderVariant.Proofs.Source.Gate

/-!
# Sources for a mask and for a part of it

* `Shader.exists_freshSources` : whether sources are assembled does not depend on the mask;
* `Vocabulary.Covered` : a mask has every flag of another one that is declared;
* `Shader.freshSources_restrict_iff` : just when the sources for a mask are those for a part of it;
* `Shader.SeesUsedOnly` : that condition, for a context and the part of a mask that it uses.
-/

namespace ShaderVariant

namespace Shader

/-! ## Success -/

theorem freshSource_eq_ok {w : Workspace} {m : Mask} {s : Shader} {b : Stage × Nat} {x : StageSource} :
    s.freshSource w m b = .ok x ↔
      ∃ t gated, s.expandSection w b.2 = .ok t ∧ gate s.vocabulary m t = .ok gated ∧
        x = ⟨b.1, s.stageHeader w.settings b.1 m ++ gated⟩ := by
  unfold freshSource finishStage
  constructor
  · intro h
    cases ht : s.expandSection w b.2 with
    | error e =>
      rw [ht] at h
      cases h
    | ok t =>
      rw [ht] at h
      cases hg : gate s.vocabulary m t with
      | error e =>
        simp only [hg] at h
        cases h
      | ok gated =>
        simp only [hg] at h
        cases h
        exact ⟨t, gated, rfl, hg, rfl⟩
  · rintro ⟨t, gated, ht, hg, rfl⟩
    rw [ht]
    simp only [hg]
    rfl

theorem freshSources_cons_eq_ok {w : Workspace} {m : Mask} {s : Shader} {b : Stage × Nat} {bound : List (Stage × Nat)}
    {xs : List StageSource} :
    s.freshSources w m (b :: bound) = .ok xs ↔
      ∃ y ys, s.freshSource w m b = .ok y ∧ s.freshSources w m bound = .ok ys ∧ xs = y :: ys := by
  rw [freshSources]
  cases s.freshSource w m b with
  | error e => simp
  | ok y => cases s.freshSources w m bound <;> simp [Except.map, eq_comm]

/-- If there are sources for one mask, there are sources for every mask. -/
theorem exists_freshSources {w : Workspace} {n : Mask} {s : Shader} {bound : List (Stage × Nat)} {xs : List StageSource}
    (h : s.freshSources w n bound = .ok xs) (m : Mask) : ∃ ys, s.freshSources w m bound = .ok ys := by
  induction bound generalizing xs with
  | nil => exact ⟨[], rfl⟩
  | cons b bound ih =>
    obtain ⟨y, ys, hy, hys, -⟩ := freshSources_cons_eq_ok.1 h
    obtain ⟨t, gated, ht, hgated, -⟩ := freshSource_eq_ok.1 hy
    obtain ⟨out, hout⟩ := (exists_gate_iff s.vocabulary n m t).1 ⟨gated, hgated⟩
    obtain ⟨rest, hrest⟩ := ih hys
    exact ⟨_, freshSources_cons_eq_ok.2 ⟨_, rest, freshSource_eq_ok.2 ⟨t, out, ht, hout, rfl⟩, hrest, rfl⟩⟩

/-! ## Definitions of flags -/

theorem newlines_defines_cons (name : String) (names : List String) :
    (defines (name :: names)).newlines = Text.newlines name.toList + 1 + (defines names).newlines := by
  show Text.newlines ("#define ".toList ++ name.toList ++ ['\n'] ++ defines names) = _
  have hword : Text.newlines "#define ".toList = 0 := by decide
  have hend : Text.newlines ['\n'] = 1 := rfl
  simp only [Text.newlines_append, hword, hend]
  omega

theorem newlines_defines_le {xs ys : List String} (h : xs.Sublist ys) :
    (defines xs).newlines ≤ (defines ys).newlines := by
  induction h with
  | slnil => exact Nat.le_refl _
  | cons y _ ih =>
    rw [newlines_defines_cons]
    omega
  | cons_cons y _ ih =>
    rw [newlines_defines_cons, newlines_defines_cons]
    omega

/-- Fewer definitions have fewer lines. -/
theorem eq_of_newlines_defines {xs ys : List String} (h : xs.Sublist ys)
    (he : (defines xs).newlines = (defines ys).newlines) : xs = ys := by
  induction h with
  | slnil => rfl
  | cons y h ih =>
    have := newlines_defines_le h
    rw [newlines_defines_cons] at he
    omega
  | cons_cons y _ ih =>
    rw [newlines_defines_cons, newlines_defines_cons] at he
    rw [ih (Nat.add_left_cancel he)]

end Shader

namespace Vocabulary

theorem mem_namesIn {v : Vocabulary} {m : Mask} {name : String} :
    name ∈ v.namesIn m ↔ ∃ i, v.bitOf? name = some i ∧ m.isSet i = true := by
  simp only [namesIn, List.mem_filterMap, Mask.mem_setBits, bitOf?_eq_some_iff, and_comm]

theorem namesIn_restrict_sublist (v : Vocabulary) (m B : Mask) : (v.namesIn (m &&& B)).Sublist (v.namesIn m) := by
  refine List.Sublist.filterMap _ ?_
  have hset : (m &&& B).setBits = m.setBits.filter B.isSet := by
    unfold Mask.setBits
    rw [List.filter_filter]
    refine List.filter_congr fun i _ => ?_
    rw [Mask.isSet_and, Bool.and_comm]
  rw [hset]
  exact List.filter_sublist

def Covered (v : Vocabulary) (B m : Mask) : Prop :=
  ∀ name i, v.bitOf? name = some i → m.isSet i = true → B.isSet i = true

/-- The names in a part of a mask are all of them just if the part has every flag. -/
theorem namesIn_restrict_iff {v : Vocabulary} {m B : Mask} : v.namesIn (m &&& B) = v.namesIn m ↔ v.Covered B m := by
  constructor
  · intro h name i hi hm
    have hmem : name ∈ v.namesIn (m &&& B) := h ▸ mem_namesIn.2 ⟨i, hi, hm⟩
    obtain ⟨j, hj, hset⟩ := mem_namesIn.1 hmem
    rw [hi] at hj
    cases hj
    rw [Mask.isSet_and, Bool.and_eq_true] at hset
    exact hset.2
  · intro h
    have hbit : ∀ i, (v.nameOf? i).isSome → m.isSet i = (m &&& B).isSet i := by
      intro i hi
      obtain ⟨name, hname⟩ := Option.isSome_iff_exists.1 hi
      rw [Mask.isSet_and]
      cases hm : m.isSet i with
      | false => rfl
      | true => rw [h name i (bitOf?_eq_some_iff.2 hname) hm, Bool.and_self]
    unfold namesIn Mask.setBits
    rw [List.filterMap_filter, List.filterMap_filter]
    refine List.filterMap_congr fun i _ => ?_
    cases hi : v.nameOf? i with
    | none => simp
    | some name => rw [hbit i (by rw [hi]; rfl)]

end Vocabulary

namespace Shader

/-! ## Sources -/

/-- A source for a mask is that for a part of it just if header and gated text are. -/
theorem header_append_eq_iff {s : Shader} {settings : Settings} {stage : Stage} {m B : Mask} {t x y : Text}
    (hx : gate s.vocabulary m t = .ok x) (hy : gate s.vocabulary (m &&& B) t = .ok y) :
    s.stageHeader settings stage m ++ x = s.stageHeader settings stage (m &&& B) ++ y ↔
      (settings.emitFlagDefines = true → s.vocabulary.Covered B m) ∧ x = y := by
  unfold stageHeader
  rw [List.append_assoc, List.append_assoc, List.append_cancel_left_eq]
  cases settings.emitFlagDefines with
  | false => simp
  | true =>
    simp only [if_true, forall_const]
    rw [← Vocabulary.namesIn_restrict_iff]
    constructor
    · intro h
      -- Gating keeps the line feeds, so both lists of definitions have the same number of lines.
      have hlines := congrArg Text.newlines h
      rw [Text.newlines_append, Text.newlines_append, newlines_gate hx, newlines_gate hy] at hlines
      have hnames := eq_of_newlines_defines (s.vocabulary.namesIn_restrict_sublist m B) (Nat.add_right_cancel hlines).symm
      rw [hnames] at h
      exact ⟨hnames, List.append_cancel_left h⟩
    · rintro ⟨hnames, rfl⟩
      rw [hnames]

/-- The sources for a mask are those for a part of it just if the part has every flag that is defined in front of
them, and every section is gated alike. -/
theorem freshSources_restrict_iff {w : Workspace} {m B : Mask} {s : Shader} {bound : List (Stage × Nat)}
    {xs ys : List StageSource} (hx : s.freshSources w m bound = .ok xs)
    (hy : s.freshSources w (m &&& B) bound = .ok ys) :
    xs = ys ↔ ∀ b ∈ bound, (w.settings.emitFlagDefines = true → s.vocabulary.Covered B m) ∧
      ∀ t, s.expandSection w b.2 = .ok t → gate s.vocabulary m t = gate s.vocabulary (m &&& B) t := by
  induction bound generalizing xs ys with
  | nil =>
    cases hx
    cases hy
    simp
  | cons b bound ih =>
    obtain ⟨x, xs, hxb, hxs, rfl⟩ := freshSources_cons_eq_ok.1 hx
    obtain ⟨y, ys, hyb, hys, rfl⟩ := freshSources_cons_eq_ok.1 hy
    obtain ⟨t, u, ht, hu, rfl⟩ := freshSource_eq_ok.1 hxb
    obtain ⟨t', v, ht', hv, rfl⟩ := freshSource_eq_ok.1 hyb
    cases ht.symm.trans ht'
    rw [List.cons.injEq, ih hxs hys, List.forall_mem_cons, StageSource.mk.injEq, header_append_eq_iff hu hv]
    simp only [true_and, ht, hu, hv, Except.ok.injEq, forall_eq']

theorem expandSection_eq_ok {w : Workspace} {s : Shader} {i : Nat} {t : Text} :
    s.expandSection w i = .ok t ↔ ∃ f, s.sections[i]? = some f ∧ w.fragments.assembleFragment f none = .ok t := by
  unfold expandSection
  cases s.sections[i]? with
  | none => simp
  | some f => simp

/-- The flags of a mask that a context does not use make no difference: none of them is defined in front of the sources,
and the sections are gated alike without them. -/
structure SeesUsedOnly (s : Shader) (w : Workspace) (d : ContextDecl) (m : Mask) : Prop where
  covered : w.settings.emitFlagDefines = true → s.vocabulary.Covered (s.usedFlags w.fragments d) m
  gated : ∀ stage n f t, (stage, n) ∈ d.stages.toList → s.sections[n]? = some f →
    w.fragments.assembleFragment f none = .ok t →
      gate s.vocabulary m t = gate s.vocabulary (m &&& s.usedFlags w.fragments d) t

/-- A mask of flags in use has no others. -/
theorem seesUsedOnly_of_contains {s : Shader} {w : Workspace} {d : ContextDecl} {m : Mask}
    (h : (s.usedFlags w.fragments d).contains m = true) : s.SeesUsedOnly w d m := by
  have hpart : m &&& s.usedFlags w.fragments d = m := by
    rw [BitVec.and_comm]
    exact beq_iff_eq.1 h
  refine ⟨fun _ name i _ hm => Mask.contains_iff.1 h i hm, fun stage n f t _ _ _ => ?_⟩
  rw [hpart]

/-- The sources of a context that has a stage are those for the part of a mask in use just if the flags that it does not
use make no difference. -/
theorem freshSources_usedFlags_iff {w : Workspace} {m : Mask} {s : Shader} {d : ContextDecl} {xs ys : List StageSource}
    (hstages : d.stages.toList ≠ []) (hx : s.freshSources w m d.stages.toList = .ok xs)
    (hy : s.freshSources w (m &&& s.usedFlags w.fragments d) d.stages.toList = .ok ys) :
    xs = ys ↔ s.SeesUsedOnly w d m := by
  rw [freshSources_restrict_iff hx hy]
  obtain ⟨b₀, hb₀⟩ := List.exists_mem_of_ne_nil _ hstages
  constructor
  · intro h
    refine ⟨(h b₀ hb₀).1, fun stage n f t hb hf ht => ?_⟩
    exact (h (stage, n) hb).2 t (expandSection_eq_ok.2 ⟨f, hf, ht⟩)
  · rintro h ⟨stage, n⟩ hb
    refine ⟨h.covered, fun t ht => ?_⟩
    obtain ⟨f, hf, ht⟩ := expandSection_eq_ok.1 ht
    exact h.gated stage n f t hb hf ht

end Shader

end ShaderVariant
