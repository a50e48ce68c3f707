import ShaderVariant.Proofs.Compiler.Identifiers
import ShaderVariant.Proofs.Shader.Coherent
import ShaderVariant.Proofs.Shader.Preview

/-!
# Combinations and the builds that they describe

* `DryRun.Binds` : what the slot of a name is in a program of some sources: its place if the sources mention it, and
  otherwise unresolved. The dry-run compiler answers so for every kind of name (`binds_uniform`, `binds_sampler`,
  `binds_buffer`);
* `Combination.Describes` : digest and slots of a combination are those of a program of some sources, whose stages are
  in pipeline order. Another default value of a uniform changes nothing of it (`Describes.congr`), nor does a failure
  (`Describes.fail`);
* `Shader.Described` : every combination describes the program that it holds. Work keeps that (`Work.described`): a
  build that fails keeps the program with its description, and one that succeeds brings both (`describes_install`).
-/

namespace ShaderVariant

open DryRunBacked (dryRun passes)
open Relation (ReflTransGen)

namespace DryRun

/-! ## Slots of names -/

/-- The slot of a name in a program of sources: the place, if some source mentions the name, or else unresolved. -/
structure Binds (sources : List StageSource) (name : String) (place : Nat) (slot : Int32) : Prop where
  used : (∃ s ∈ sources, s.source.Mentions name) → slot = Int32.ofNat place
  unused : (¬ ∃ s ∈ sources, s.source.Mentions name) → slot = unresolvedSlot

theorem binds_ite (sources : List StageSource) (name : String) (place : Nat) :
    Binds sources name place (if name ∈ names sources then Int32.ofNat place else unresolvedSlot) :=
  ⟨fun h => if_pos (mem_names_iff.2 h), fun h => if_neg fun hm => h (mem_names_iff.1 hm)⟩

theorem get?_compile {r : CompileRequest} {p : Program} {d d' : DryRun} (h : d.compile r = (.ok p, d')) :
    d'.programs.get? p = some ⟨r.stages, identifiers r.stages⟩ := by
  cases hf : failure? r.stages with
  | some f =>
    rw [compile_of_failure hf] at h
    cases h
  | none =>
    rw [compile_of_no_failure hf] at h
    cases h
    exact Assoc.get?_set_self ..

section Linked

variable {d : DryRun} {p : Program} {sources : List StageSource}
  (h : d.programs.get? p = some ⟨sources, identifiers sources⟩)

include h

theorem slot_of_linked (kind : SlotKind) (name : String) :
    Shader.slot d p kind name =
      if name ∈ names sources then
        match kind with
        | .uniform => Int32.ofNat (ordinal sources name)
        | .sampler unit => unit.toInt32
        | .buffer index => index.toInt32
      else unresolvedSlot := by
  show (d.slot? p kind name).getD unresolvedSlot = _
  unfold slot?
  rw [h, Option.bind_some, findIdx?_identifiers]
  split
  · cases kind <;> rfl
  · rfl

theorem binds_uniform (name : String) : Binds sources name (ordinal sources name) (Shader.slot d p .uniform name) := by
  rw [slot_of_linked h]
  exact binds_ite ..

theorem binds_sampler (name : String) (unit : Nat) :
    Binds sources name unit (Shader.slot d p (.sampler (UInt32.ofNat unit)) name) := by
  rw [slot_of_linked h]
  exact binds_ite ..

theorem binds_buffer (name : String) (index : Nat) :
    Binds sources name index (Shader.slot d p (.buffer (UInt32.ofNat index)) name) := by
  rw [slot_of_linked h]
  exact binds_ite ..

end Linked

end DryRun

open DryRun (Binds ordinal)

/-! ## Descriptions -/

/-- A combination describes a program of some sources: the digest is theirs, they are in pipeline order, and the slots of
the names that the shader declares, and of the engine's uniforms, are those that the names have in such a program. -/
structure Combination.Describes (b : Combination) (s : Shader) (sources : List StageSource) : Prop where
  digest : b.digest = Shader.digest sources
  ordered : (sources.map StageSource.stage).Sublist Stage.all
  samplers : ∀ i d, s.samplers[i]? = some d → Binds sources d.name d.unit (b.samplerSlot i)
  uniforms : ∀ i u, s.uniforms[i]? = some u → Binds sources u.name (ordinal sources u.name) (b.uniformSlot i)
  buffers : ∀ i name, s.buffers[i]? = some name → Binds sources name i (b.bufferSlot i)
  engine : ∀ u : EngineUniform, Binds sources u.name (ordinal sources u.name) (b.engineSlot u)

namespace Combination

variable {b : Combination} {s s' : Shader} {sources : List StageSource}

theorem Describes.congr (h : b.Describes s sources) (hs : s'.samplers = s.samplers)
    (hu : s'.uniforms.map Uniform.name = s.uniforms.map Uniform.name) (hb : s'.buffers = s.buffers) :
    b.Describes s' sources := by
  refine ⟨h.digest, h.ordered, hs ▸ h.samplers, fun i u hi => ?_, hb ▸ h.buffers, h.engine⟩
  have hname : (s.uniforms.map Uniform.name)[i]? = some u.name := by
    rw [← hu, List.getElem?_map, hi]
    rfl
  rw [List.getElem?_map] at hname
  obtain ⟨v, hv, hvu⟩ := Option.map_eq_some_iff.1 hname
  exact hvu ▸ h.uniforms i v hv

/-- A failure keeps what the combination says of its program. -/
theorem Describes.fail (h : b.Describes s sources) (e : ShaderError) (stamp : Generation) :
    (b.fail e stamp).Describes s sources :=
  ⟨h.digest, h.ordered, h.samplers, h.uniforms, h.buffers, h.engine⟩

end Combination

namespace Slots

theorem slotAt_map {α : Type} {as : List α} {i : Nat} {a : α} (h : as[i]? = some a) (f : α → Int32) :
    slotAt (as.map f) i = f a := by
  rw [slotAt, List.getD_eq_getElem?_getD, List.getElem?_map, h]
  rfl

end Slots

namespace Shader

/-! ## Sources in pipeline order -/

theorem stages_of_freshSources {w : Workspace} {m : Mask} {s : Shader} {bound : List (Stage × Nat)}
    {sources : List StageSource} (h : s.freshSources w m bound = .ok sources) :
    sources.map StageSource.stage = bound.map Prod.fst := by
  induction bound generalizing sources with
  | nil =>
    cases h
    rfl
  | cons b bound ih =>
    obtain ⟨y, ys, hy, hys, rfl⟩ := freshSources_cons_eq_ok.1 h
    obtain ⟨t, gated, -, -, rfl⟩ := freshSource_eq_ok.1 hy
    rw [List.map_cons, List.map_cons, ih hys]

theorem stages_toList_sublist (b : StageBindings) : (b.toList.map Prod.fst).Sublist Stage.all := by
  unfold StageBindings.toList
  generalize Stage.all = stages
  induction stages with
  | nil => exact .slnil
  | cons t stages ih =>
    rw [List.filterMap_cons]
    cases b.get t with
    | none => exact ih.cons t
    | some i => exact ih.cons_cons t

theorem ordered_of_plan {w : Workspace} {d : ContextDecl} {key : Mask} {s : Shader} {sources : List StageSource}
    (h : s.plan w d key = .ok sources) : (sources.map StageSource.stage).Sublist Stage.all := by
  unfold plan at h
  split at h
  · cases h
  · rw [stages_of_freshSources h]
    exact stages_toList_sublist d.stages

/-! ## Shaders whose combinations describe their programs -/

/-- A combination that a build has installed describes the program. -/
theorem describes_install {w : Workspace} {s : Shader} {decl : ContextDecl} {key : Mask} {sources : List StageSource}
    {d d' : DryRun} {p : Program} (hplan : s.plan w decl key = .ok sources)
    (hc : d.compile (s.request decl key sources) = (.ok p, d')) (b : Combination) (stamp : Generation) :
    (b.install p stamp (digest sources) (s.resolveSlots d' p)).Describes s sources := by
  have hlinked : d'.programs.get? p = some ⟨sources, DryRun.identifiers sources⟩ := DryRun.get?_compile hc
  refine ⟨rfl, ordered_of_plan hplan, fun i a hi => ?_, fun i u hi => ?_, fun i name hi => ?_, fun u => ?_⟩
  · show Binds sources a.name a.unit (Slots.slotAt (s.resolveSlots d' p).samplers i)
    unfold resolveSlots
    rw [Slots.slotAt_map hi]
    exact DryRun.binds_sampler hlinked ..
  · show Binds sources u.name _ (Slots.slotAt (s.resolveSlots d' p).uniforms i)
    unfold resolveSlots
    rw [Slots.slotAt_map hi]
    exact DryRun.binds_uniform hlinked ..
  · have hindexed : s.buffers.zipIdx[i]? = some (name, i) := by
      rw [List.getElem?_zipIdx, hi, Nat.zero_add]
      rfl
    show Binds sources name i (Slots.slotAt (s.resolveSlots d' p).buffers i)
    unfold resolveSlots
    rw [Slots.slotAt_map hindexed]
    exact DryRun.binds_buffer hlinked ..
  · show Binds sources u.name _ (Slots.slotAt (s.resolveSlots d' p).engine u.index)
    unfold resolveSlots
    rw [Slots.slotAt_map u.getElem?_all_index]
    exact DryRun.binds_uniform hlinked ..

def Described (s : Shader) (d : DryRun) : Prop :=
  ∀ ctx ∈ s.contexts, ∀ key b p, ctx.combination? key = some b → b.program = some p →
    ∃ sources, d.sources? p = some sources ∧ b.Describes s sources

theorem Work.described {w : Workspace} {x y : Shader × DryRun} (h : Work w x y) {held : List Program}
    (hl : Ledger x.2 (x.1.programs ++ held)) (hr : InRange y.2) (hx : x.1.Described x.2) : y.1.Described y.2 := by
  intro ctx hctx key b p hb hp
  have hin : p ∈ y.1.programs ++ held := List.mem_append_left _ (mem_programs hctx (Context.mem_programs hb hp))
  -- The program of an entry that was there is held before and after the step.
  have hkept : ∀ old ∈ x.1.contexts, ∀ b', old.combination? key = some b' → b'.program = some p →
      ∃ sources, y.2.sources? p = some sources ∧ b'.Describes y.1 sources := by
    intro old hold b' hb' hp'
    obtain ⟨sources, hs, hd⟩ := hx old hold key b' p hb' hp'
    have hbefore : p ∈ x.1.programs ++ held :=
      List.mem_append_left _ (mem_programs hold (Context.mem_programs hb' hp'))
    exact ⟨sources, (h.sources hl hr hbefore hin).trans hs, hd.congr h.frame.samplers h.uniformNames h.frame.buffers⟩
  rcases h.combination hctx hb with ⟨old, hold, hb'⟩ | ⟨old, hold, e, c', rfl, -⟩ |
    ⟨i, old, q, sources, c', hold, hplan, hc, rfl, hy⟩
  · exact hkept old hold b hb' hp
  · have hprogram : (old.entry key).program = some p := hp
    cases hb' : old.combination? key with
    | none =>
      rw [Context.entry, hb'] at hprogram
      cases hprogram
    | some b' =>
      have hentry : old.entry key = b' := by rw [Context.entry, hb', Option.getD_some]
      rw [hentry] at hprogram ⊢
      obtain ⟨sources, hs, hd⟩ := hkept old hold b' hb' hprogram
      exact ⟨sources, hs, hd.fail e _⟩
  · obtain rfl : q = p := Option.some.inj hp
    have hd := describes_install hplan hc (old.entry key) x.1.generation
    refine ⟨sources, ?_, hd.congr h.frame.samplers h.uniformNames h.frame.buffers⟩
    rw [hy] at hr hin ⊢
    have hsources : c'.sources? q = some sources := (hl.compile_ok hc).2.2.1
    exact (sources?_releaseReplaced (ledger_install hold hp hc hl) (inRange_releaseReplaced hr) hin).trans hsources

theorem Described.invalidate {s : Shader} {d : DryRun} (h : s.Described d) : s.invalidate.Described d := by
  intro ctx hctx key b p hb hp
  obtain ⟨sources, hs, hd⟩ := h ctx hctx key b p hb hp
  exact ⟨sources, hs, hd.congr rfl rfl rfl⟩

theorem Described.congr {s : Shader} {d d' : DryRun} (h : s.Described d)
    (hs : ∀ p ∈ s.programs, d'.sources? p = d.sources? p) : s.Described d' := by
  intro ctx hctx key b p hb hp
  obtain ⟨sources, hsources, hd⟩ := h ctx hctx key b p hb hp
  exact ⟨sources, (hs p (mem_programs hctx (Context.mem_programs hb hp))).trans hsources, hd⟩

theorem described_of_blank {s : Shader} (h : ∀ ctx ∈ s.contexts, ctx.combinations = []) (d : DryRun) : s.Described d := by
  intro ctx hctx key b p hb
  rw [Context.combination?, h ctx hctx] at hb
  cases hb

end Shader

end ShaderVariant
