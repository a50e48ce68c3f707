import ShaderVariant.Proofs.Declaration.Sequence
import ShaderVariant.Proofs.Flag.Push

/-!
# Consistent declarations

Declarations can be added one after the other just if they are consistent as a whole: what each one asks of those before
it comes to distinct names and to 32 flags at most.

* `Grammar.Holds` : what declarations have come to;
* `Grammar.IsNew`, `Holds.exists_extends_iff` : what one more asks of those before it;
* `Grammar.consistent_concat_iff` : the same for consistent declarations;
* `Declarations.holds_of_extendsAll`, `exists_extendsAll` : declarations in a row.
-/

namespace ShaderVariant

open Grammar

namespace Grammar

/-- What declarations in a row have come to, apart from lines. -/
structure Holds (sections : List String) (e : Declarations) (ds : List Declaration) : Prop where
  flags : e.vocabulary.names = ds.filterMap Declaration.flag?
  samplers : e.samplers = ds.filterMap Declaration.sampler?
  uniforms : e.uniforms = ds.filterMap Declaration.uniform?
  buffers : e.buffers = ds.filterMap Declaration.buffer?
  contexts : e.contexts = ds.filterMap (Declaration.context? sections)

/-- The name of another declaration is not in use, and there is room for another flag. -/
structure IsNew (sections : List String) (ds : List Declaration) (decl : Declaration) : Prop where
  flag : ∀ name, decl.flag? = some name →
    name ∉ ds.filterMap Declaration.flag? ∧ (ds.filterMap Declaration.flag?).length < maxFlags
  resource : ∀ name, decl.resource? = some name → name ∉ ds.filterMap Declaration.resource?
  context : ∀ c, decl.context? sections = some c →
    c.name ∉ (ds.filterMap (Declaration.context? sections)).map ContextDecl.name

variable {sections : List String} {e e' : Declarations} {ds : List Declaration} {decl : Declaration}

/-! ## Names -/

@[simp] theorem name_samplerOf (line : UInt32) (kind : SamplerKind) (name : String) (fields : List SamplerField) :
    (samplerOf line kind name fields).name = name := by
  have hfold (s : SamplerDraft) : (fields.foldl SamplerField.applyTo s).name = s.name := by
    induction fields generalizing s with
    | nil => rfl
    | cons f fields ih =>
      rw [List.foldl_cons, ih]
      cases f <;> rfl
  exact hfold _

@[simp] theorem name_contextOf (sections : List String) (name : String) (fields : List ContextField) :
    (contextOf sections name fields).name = name := by
  have hfold (c : ContextDecl) : (fields.foldl (ContextField.applyTo sections) c).name = c.name := by
    induction fields generalizing c with
    | nil => rfl
    | cons f fields ih =>
      rw [List.foldl_cons, ih]
      cases f <;> rfl
  exact hfold _

/-- The names in use are those of the samplers, uniforms and buffers that are declared. -/
theorem Holds.mem_names_iff (h : Holds sections e ds) {name : String} :
    name ∈ e.names ↔ name ∈ ds.filterMap Declaration.resource? := by
  unfold Declarations.names
  rw [h.samplers, h.uniforms, h.buffers]
  simp only [List.mem_append, List.mem_map, List.mem_filterMap]
  constructor
  · rintro ((⟨s, ⟨d, hd, hs⟩, rfl⟩ | ⟨u, ⟨d, hd, hu⟩, rfl⟩) | ⟨d, hd, hb⟩)
    · cases d <;> cases hs
      exact ⟨_, hd, congrArg some (name_samplerOf _ _ _ _).symm⟩
    · cases d <;> cases hu
      exact ⟨_, hd, rfl⟩
    · cases d <;> cases hb
      exact ⟨_, hd, rfl⟩
  · rintro ⟨d, hd, hname⟩
    cases d with
    | sampler kind name fields =>
      cases hname
      exact Or.inl (Or.inl ⟨_, ⟨_, hd, rfl⟩, name_samplerOf _ _ _ _⟩)
    | uniform =>
      cases hname
      exact Or.inl (Or.inr ⟨_, ⟨_, hd, rfl⟩, rfl⟩)
    | buffer =>
      cases hname
      exact Or.inr ⟨_, hd, rfl⟩
    | flag | context => cases hname

/-! ## One declaration more -/

/-- A declaration can be added just if its name is new. -/
theorem Holds.exists_extends_iff (h : Holds sections e ds) :
    (∃ e', decl.Extends sections 0 e e') ↔ IsNew sections ds decl := by
  have hresource (name : String) (hname : decl.resource? = some name) (hflag : decl.flag? = none)
      (hcontext : decl.context? sections = none) : name ∉ e.names ↔ IsNew sections ds decl := by
    rw [h.mem_names_iff]
    constructor
    · intro hnew
      exact ⟨by simp [hflag], by simpa [hname] using hnew, by simp [hcontext]⟩
    · exact fun hnew => hnew.resource name hname
  cases decl with
  | flag name =>
    have hpush : (∃ i w, e.vocabulary.push name = .ok (i, w)) ↔ _ := Vocabulary.push_ok_iff
    rw [h.flags] at hpush
    constructor
    · rintro ⟨_, i, w, hw, -⟩
      refine ⟨fun n hn => ?_, fun _ hn => (nomatch hn), fun _ hn => (nomatch hn)⟩
      cases hn
      exact hpush.1 ⟨i, w, hw⟩
    · intro hnew
      obtain ⟨i, w, hw⟩ := hpush.2 (hnew.flag name rfl)
      exact ⟨_, i, w, hw, rfl⟩
  | sampler kind name fields | uniform kind name defaults | buffer name =>
    rw [← hresource name rfl rfl rfl]
    exact ⟨fun ⟨_, hnew, _⟩ => hnew, fun hnew => ⟨_, hnew, rfl⟩⟩
  | context name fields =>
    unfold Declaration.Extends
    rw [h.contexts]
    constructor
    · rintro ⟨_, hnew, -⟩
      refine ⟨fun _ hn => (nomatch hn), fun _ hn => (nomatch hn), ?_⟩
      simpa [Declaration.context?] using hnew
    · intro hnew
      have hnew := hnew.context _ rfl
      rw [name_contextOf] at hnew
      exact ⟨_, fun c hc heq => hnew (heq ▸ List.mem_map_of_mem hc), rfl⟩

theorem Holds.of_extends (h : Holds sections e ds) (hextends : decl.Extends sections 0 e e') :
    Holds sections e' (ds ++ [decl]) := by
  cases decl with
  | flag name =>
    obtain ⟨i, w, hpush, rfl⟩ := hextends
    constructor <;> simp [Vocabulary.names_of_push hpush, h.flags, h.samplers, h.uniforms, h.buffers, h.contexts,
      Declaration.flag?, Declaration.sampler?, Declaration.uniform?, Declaration.buffer?, Declaration.context?]
  | sampler | uniform | buffer | context =>
    obtain ⟨-, rfl⟩ := hextends
    constructor <;> simp [h.flags, h.samplers, h.uniforms, h.buffers, h.contexts,
      Declaration.flag?, Declaration.sampler?, Declaration.uniform?, Declaration.buffer?, Declaration.context?]

theorem nodup_filterMap_concat {α β : Type} {f : α → Option β} {xs : List α} {x : α} :
    ((xs ++ [x]).filterMap f).Nodup ↔ (xs.filterMap f).Nodup ∧ ∀ b, f x = some b → b ∉ xs.filterMap f := by
  rw [List.filterMap_append]
  cases hx : f x with
  | none => simp [hx]
  | some b =>
    rw [List.filterMap_cons_some hx, List.filterMap_nil, ← List.concat_eq_append, List.nodup_concat, and_comm]
    simp

/-- Consistent declarations stay so with another one that fits and whose name is new. -/
theorem consistent_concat_iff :
    Consistent sections (ds ++ [decl]) ↔ Consistent sections ds ∧ decl.Fits sections ∧ IsNew sections ds decl := by
  have hcontexts (xs : List Declaration) : (xs.filterMap (Declaration.context? sections)).map ContextDecl.name =
      xs.filterMap fun d => (d.context? sections).map ContextDecl.name := List.map_filterMap
  have hlength : ((ds ++ [decl]).filterMap Declaration.flag?).length ≤ maxFlags ↔
      (ds.filterMap Declaration.flag?).length ≤ maxFlags ∧
        ∀ name, decl.flag? = some name → (ds.filterMap Declaration.flag?).length < maxFlags := by
    rw [List.filterMap_append, List.length_append]
    cases hflag : decl.flag? with
    | none => simp [hflag]
    | some name =>
      rw [List.filterMap_cons_some hflag]
      simp only [List.filterMap_nil, List.length_singleton, Option.some.injEq, forall_eq']
      omega
  constructor
  · intro h
    obtain ⟨hflags, hflag⟩ := nodup_filterMap_concat.1 h.flags
    obtain ⟨hle, hlt⟩ := hlength.1 h.flags_le
    obtain ⟨hresources, hresource⟩ := nodup_filterMap_concat.1 h.resources
    obtain ⟨hcs, hcontext⟩ := nodup_filterMap_concat.1 (hcontexts _ ▸ h.contexts)
    obtain ⟨hfits, hfit⟩ := List.forall_mem_append.1 h.fits
    refine ⟨⟨hflags, hle, hresources, hcontexts _ ▸ hcs, hfits⟩, hfit _ List.mem_cons_self,
      fun name hname => ⟨hflag name hname, hlt name hname⟩, hresource, fun c hc => ?_⟩
    rw [hcontexts]
    exact hcontext _ (by rw [hc]; rfl)
  · rintro ⟨h, hfit, hnew⟩
    refine ⟨nodup_filterMap_concat.2 ⟨h.flags, fun name hname => (hnew.flag name hname).1⟩,
      hlength.2 ⟨h.flags_le, fun name hname => (hnew.flag name hname).2⟩,
      nodup_filterMap_concat.2 ⟨h.resources, hnew.resource⟩, ?_,
      List.forall_mem_append.2 ⟨h.fits, List.forall_mem_singleton.2 hfit⟩⟩
    rw [hcontexts]
    refine nodup_filterMap_concat.2 ⟨hcontexts _ ▸ h.contexts, fun name hname => ?_⟩
    obtain ⟨c, hc, rfl⟩ := Option.map_eq_some_iff.1 hname
    rw [← hcontexts]
    exact hnew.context c hc

/-- Declarations are consistent up to any of them. -/
theorem Consistent.of_append {ds' : List Declaration} (h : Consistent sections (ds ++ ds')) :
    Consistent sections ds := by
  induction ds' using List.reverseRecOn with
  | nil => rwa [List.append_nil] at h
  | append_singleton ds' d ih =>
    rw [← List.append_assoc] at h
    exact ih (consistent_concat_iff.1 h).1

end Grammar

namespace Declarations

open Grammar

variable {sections : List String} {e e' : Declarations} {ds ds' : List Declaration}

theorem holds_empty (sections : List String) : Holds sections empty [] := ⟨rfl, rfl, rfl, rfl, rfl⟩

theorem consistent_nil (sections : List String) : Consistent sections [] :=
  ⟨List.nodup_nil, Nat.zero_le _, List.nodup_nil, List.nodup_nil, List.forall_mem_nil _⟩

/-- Adding declarations in a row comes to all of them, and they are consistent. -/
theorem holds_of_extendsAll (h : Holds sections e ds) (hc : Consistent sections ds)
    (hall : ExtendsAll sections e ds' e') : Holds sections e' (ds ++ ds') ∧ Consistent sections (ds ++ ds') := by
  induction hall generalizing ds with
  | nil => rw [List.append_nil]; exact ⟨h, hc⟩
  | cons hfits hextends _ ih =>
    rw [List.append_cons]
    exact ih (h.of_extends hextends) (consistent_concat_iff.2 ⟨hc, hfits, h.exists_extends_iff.1 ⟨_, hextends⟩⟩)

/-- Consistent declarations can be added in a row. -/
theorem exists_extendsAll (h : Holds sections e ds) (hc : Consistent sections (ds ++ ds')) :
    ∃ e', ExtendsAll sections e ds' e' := by
  induction ds' generalizing e ds with
  | nil => exact ⟨e, .nil e⟩
  | cons d ds' ih =>
    rw [List.append_cons] at hc
    obtain ⟨-, hfits, hnew⟩ := consistent_concat_iff.1 hc.of_append
    obtain ⟨e₁, hextends⟩ := h.exists_extends_iff.2 hnew
    obtain ⟨e₂, hall⟩ := ih (h.of_extends hextends) hc
    exact ⟨e₂, .cons hfits hextends hall⟩

end Declarations

end ShaderVariant
