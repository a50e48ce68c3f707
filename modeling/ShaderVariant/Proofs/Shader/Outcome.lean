import ShaderVariant.Compiler.DryRun
import ShaderVariant.Proofs.Fragment.Store
import ShaderVariant.Shader.Build

/-!
# The outcome of a build

What assembling and building give, as functions of the fragments, the settings and the content of a shader alone.

* `Shader.expandSection`, `Shader.freshSources` : a section and the stage sources, without regard to what is kept;
* `Shader.plan` : the sources of a combination that a compiler is given, or why there are none;
* `Shader.outcome` : the sources of a combination that a dry run compiles, or why there is none;
* `Shader.SameText` : two shaders in two workspaces that have the same text (`freshSources_congr`, `plan_congr`, `outcome_congr`);
* `Shader.Remembers` : what is kept is what would be assembled. Then assembling gives the fresh sources
  (`stageSources_spec`, `assembleStageSources_fst`).
-/

namespace ShaderVariant

namespace Shader

/-! ## Fresh sources -/

def expandSection (w : Workspace) (s : Shader) (i : Nat) : Except ShaderError Text :=
  match s.sections[i]? with
  | none => .error (.invalidContext s.name "" (.missingSection i))
  | some f => w.fragments.assembleFragment f none

def freshSource (w : Workspace) (m : Mask) (s : Shader) (b : Stage × Nat) : Except ShaderError StageSource :=
  match s.expandSection w b.2 with
  | .error e => .error e
  | .ok t => (s.finishStage w.settings b.1 m t).map (⟨b.1, ·⟩)

def freshSources (w : Workspace) (m : Mask) (s : Shader) : List (Stage × Nat) → Except ShaderError (List StageSource)
  | [] => .ok []
  | b :: bound =>
    match s.freshSource w m b with
    | .error e => .error e
    | .ok source => (freshSources w m s bound).map (source :: ·)

/-- The sources that a compiler is given for the combination of a key, or why it is given none. -/
def plan (w : Workspace) (d : ContextDecl) (key : Mask) (s : Shader) : Except ShaderError (List StageSource) :=
  match d.error? s.name with
  | some e => .error e
  | none => s.freshSources w key d.stages.toList

/-- The sources of the combination of a key if a dry run compiles them, or else the failure. -/
def outcome (w : Workspace) (d : ContextDecl) (key : Mask) (s : Shader) : Except ShaderError (List StageSource) :=
  match d.error? s.name with
  | some e => .error e
  | none =>
    match s.freshSources w key d.stages.toList with
    | .error e => .error e
    | .ok sources =>
      match DryRun.failure? sources with
      | some f => .error (.compile s.name d.name key f)
      | none => .ok sources

theorem outcome_eq (w : Workspace) (d : ContextDecl) (key : Mask) (s : Shader) :
    s.outcome w d key =
      match s.plan w d key with
      | .error e => .error e
      | .ok sources =>
        match DryRun.failure? sources with
        | some f => .error (.compile s.name d.name key f)
        | none => .ok sources := by
  unfold outcome plan
  split <;> rfl

/-- The sources that an outcome consists of are those that are assembled. -/
theorem freshSources_of_outcome {w : Workspace} {d : ContextDecl} {key : Mask} {s : Shader}
    {sources : List StageSource} (h : s.outcome w d key = .ok sources) :
    d.error? s.name = none ∧ s.freshSources w key d.stages.toList = .ok sources ∧
      DryRun.failure? sources = none := by
  unfold outcome at h
  split at h
  · cases h
  · next hd =>
    split at h
    · cases h
    · next hs =>
      split at h
      · cases h
      · next hf =>
        cases h
        exact ⟨hd, hs, hf⟩

/-! ## Same text -/

/-- A shader has the same text in two workspaces, or two shaders have. -/
structure SameText (w : Workspace) (s : Shader) (w' : Workspace) (s' : Shader) : Prop where
  name : s'.name = s.name
  vocabulary : s'.vocabulary = s.vocabulary
  settings : w'.settings = w.settings
  sections : ∀ i, s'.expandSection w' i = s.expandSection w i

namespace SameText

variable {w w' : Workspace} {s s' : Shader}

theorem refl (w : Workspace) (s : Shader) : SameText w s w s := ⟨rfl, rfl, rfl, fun _ => rfl⟩

theorem freshSource_congr (h : SameText w s w' s') (m : Mask) (b : Stage × Nat) :
    s'.freshSource w' m b = s.freshSource w m b := by
  unfold freshSource finishStage stageHeader
  rw [h.sections, h.settings, h.vocabulary]

theorem freshSources_congr (h : SameText w s w' s') (m : Mask) (bound : List (Stage × Nat)) :
    s'.freshSources w' m bound = s.freshSources w m bound := by
  induction bound with
  | nil => rfl
  | cons b bound ih => rw [freshSources, freshSources, h.freshSource_congr, ih]

theorem plan_congr (h : SameText w s w' s') (d : ContextDecl) (key : Mask) :
    s'.plan w' d key = s.plan w d key := by
  unfold plan
  rw [h.freshSources_congr, h.name]

theorem outcome_congr (h : SameText w s w' s') (d : ContextDecl) (key : Mask) :
    s'.outcome w' d key = s.outcome w d key := by
  rw [outcome_eq, outcome_eq, h.plan_congr, h.name]

end SameText

/-- Shaders whose names, flags and sections are the same have the same text. -/
theorem sameText_of_eq (w : Workspace) {s s' : Shader} (hn : s'.name = s.name) (hv : s'.vocabulary = s.vocabulary)
    (hs : s'.sections = s.sections) : SameText w s w s' := by
  refine ⟨hn, hv, rfl, fun i => ?_⟩
  unfold expandSection
  rw [hs, hn]

/-- A shader has the same text where the fragments that it includes are the same. -/
theorem sameText_of_agree {w w' : Workspace} {S : FragmentKey → Prop} {s : Shader} (hset : w'.settings = w.settings)
    (ha : FragmentStore.Agree w.fragments w'.fragments S) (hs : ∀ f ∈ s.sections, ∀ k ∈ f.targets, S k) :
    SameText w s w' s := by
  refine ⟨rfl, rfl, hset, fun i => ?_⟩
  unfold expandSection
  split
  · rfl
  · next f hf => exact ha.assembleFragment_congr f (hs f (List.mem_of_getElem? hf))

/-- And its contexts use the same flags there. -/
theorem usedFlags_of_agree {s t : FragmentStore} {S : FragmentKey → Prop} {x : Shader}
    (ha : FragmentStore.Agree s t S) (hs : ∀ f ∈ x.sections, ∀ k ∈ f.targets, S k) (d : ContextDecl) :
    x.usedFlags t d = x.usedFlags s d := by
  unfold usedFlags
  refine congrArg Mask.union (List.map_congr_left fun f hf => ?_)
  obtain ⟨b, -, hb⟩ := List.mem_filterMap.1 hf
  exact ha.flagBits_congr f (hs f (List.mem_of_getElem? hb)) x.vocabulary

/-! ## What is kept -/

/-- Every text that is kept is that of its section. -/
def Remembers (w : Workspace) (s : Shader) : Prop := ∀ i t, s.memo.get? i = some t → s.expandSection w i = .ok t

theorem remembers_of_memo_nil {w : Workspace} {s : Shader} (h : s.memo = []) : Remembers w s := by
  intro i t ht
  rw [h] at ht
  cases ht

def withoutMemo (s : Shader) : Shader := { s with memo := [] }

theorem remembers_withoutMemo (w : Workspace) (s : Shader) : s.withoutMemo.Remembers w := remembers_of_memo_nil rfl

theorem sameText_withoutMemo (w : Workspace) (s : Shader) : SameText w s w s.withoutMemo := sameText_of_eq w rfl rfl rfl

def remember (s : Shader) (i : Nat) (t : Text) : Shader := { s with memo := s.memo.set i t }

theorem Remembers.remember {w : Workspace} {s : Shader} (h : s.Remembers w) {i : Nat} {t : Text}
    (ht : s.expandSection w i = .ok t) : (s.remember i t).Remembers w := by
  intro j u hu
  show s.expandSection w j = .ok u
  have hset : (Assoc.set s.memo i t).get? j = some u := hu
  rw [Assoc.get?_set] at hset
  split at hset
  · next hij =>
    cases hset
    rw [← hij, ht]
  · exact h j u hset

theorem assembledSection_of_none {w : Workspace} {s : Shader} {i : Nat} (h : s.memo.get? i = none) :
    s.assembledSection w i =
      match s.expandSection w i with
      | .error e => (.error e, s)
      | .ok t => (.ok t, if w.settings.memoizeAssembly then s.remember i t else s) := by
  unfold assembledSection expandSection
  rw [h]
  cases s.sections[i]? with
  | none => rfl
  | some f =>
    simp only
    cases w.fragments.assembleFragment f none <;> rfl

/-- A section is taken from what is kept, or expanded and perhaps kept. -/
theorem assembledSection_cases {w : Workspace} {s s' : Shader} (h : s.Remembers w) {i : Nat} {r : Except ShaderError Text}
    (he : s.assembledSection w i = (r, s')) :
    r = s.expandSection w i ∧ (s' = s ∨ ∃ t, s.expandSection w i = .ok t ∧ s' = s.remember i t) := by
  cases hm : s.memo.get? i with
  | some t =>
    rw [assembledSection, hm] at he
    cases he
    exact ⟨(h i t hm).symm, Or.inl rfl⟩
  | none =>
    rw [assembledSection_of_none hm] at he
    cases hx : s.expandSection w i with
    | error e =>
      rw [hx] at he
      cases he
      exact ⟨rfl, Or.inl rfl⟩
    | ok t =>
      rw [hx] at he
      simp only at he
      split at he
      · cases he
        exact ⟨rfl, Or.inr ⟨t, rfl, rfl⟩⟩
      · cases he
        exact ⟨rfl, Or.inl rfl⟩

def Assembles (w : Workspace) (s s' : Shader) : Prop := ∃ i t, s.expandSection w i = .ok t ∧ s' = s.remember i t

open Relation (ReflTransGen)

theorem Assembles.sameText {w : Workspace} {s s' : Shader} (h : ReflTransGen (Assembles w) s s') :
    SameText w s w s' := by
  induction h with
  | refl => exact .refl w s
  | tail _ hstep ih =>
    obtain ⟨i, t, -, rfl⟩ := hstep
    exact ⟨ih.name, ih.vocabulary, rfl, ih.sections⟩

/-- Assembling gives the fresh sources, and keeps sections at most. -/
theorem stageSources_spec {w : Workspace} (m : Mask) (bound : List (Stage × Nat)) {s : Shader} (h : s.Remembers w) :
    (s.stageSources w m bound).1 = s.freshSources w m bound ∧
      ReflTransGen (Assembles w) s (s.stageSources w m bound).2 := by
  induction bound generalizing s with
  | nil => exact ⟨rfl, .refl⟩
  | cons b bound ih =>
    obtain ⟨stage, i⟩ := b
    cases ha : s.assembledSection w i with
    | mk r s₁ =>
      obtain ⟨hfst, hsnd⟩ := assembledSection_cases h ha
      have hchain : ReflTransGen (Assembles w) s s₁ := by
        rcases hsnd with rfl | ⟨t, ht, he⟩
        · exact .refl
        · exact .single ⟨i, t, ht, he⟩
      have hrem : s₁.Remembers w := by
        rcases hsnd with rfl | ⟨t, ht, rfl⟩
        · exact h
        · exact h.remember ht
      have hsame := Assembles.sameText hchain
      have hfinish : ∀ t, s₁.finishStage w.settings stage m t = s.finishStage w.settings stage m t := by
        intro t
        unfold finishStage stageHeader
        rw [hsame.vocabulary]
      rw [stageSources, ha, freshSources, freshSource, ← hfst]
      cases r with
      | error e => exact ⟨rfl, hchain⟩
      | ok t =>
        simp only [hfinish]
        cases hf : s.finishStage w.settings stage m t with
        | error e => exact ⟨rfl, hchain⟩
        | ok source =>
          obtain ⟨hrest, hmore⟩ := ih hrem
          rw [hsame.freshSources_congr] at hrest
          cases hs : s₁.stageSources w m bound with
          | mk r' s₂ =>
            rw [hs] at hrest hmore
            rw [← hrest]
            cases r' with
            | error e => exact ⟨rfl, hchain.trans hmore⟩
            | ok sources => exact ⟨rfl, hchain.trans hmore⟩

/-- The preview of a context is its fresh sources. -/
theorem assembleStageSources_fst {w : Workspace} {s : Shader} (h : s.Remembers w) (hl : s.loadError? = none) {i : Nat}
    {ctx : Context} (hctx : s.contexts[i]? = some ctx) (m : Mask) :
    (s.assembleStageSources w i m).1 = s.freshSources w m ctx.decl.stages.toList := by
  unfold assembleStageSources
  rw [hl, hctx]
  exact (stageSources_spec m _ h).1

end Shader

end ShaderVariant
