import Mathlib.Algebra.Group.Nat.Defs
import ShaderVariant.Compiler.Recorder
import ShaderVariant.Proofs.Table

/-!
# The ledger of programs

* `DryRunBacked` : a compiler whose calls go to a dry-run compiler: that compiler itself, and a recorder;
* `DryRun.successes`, `InRange` : the number of successful compilations, and that it has not used up the numbers of
  programs;
* `DryRun.Balanced` : a list of distinct programs is what is live, and every number given out is accounted for;
* `Ledger` : the same of a compiler, with the programs that it was seen to release: none twice, and none that is held.
  `Ledger.compile_ok`, `Ledger.compile_error` and `Ledger.release` say what the two calls do to it.
-/

namespace ShaderVariant

/-! ## The dry-run compiler -/

namespace DryRun

def successes (d : DryRun) : Nat := d.compiles - d.failures

theorem compile_of_failure {r : CompileRequest} {f : CompileFailure} (h : failure? r.stages = some f) (d : DryRun) :
    d.compile r = (.error f, { d with compiles := d.compiles + 1, failures := d.failures + 1 }) := by
  rw [compile, h]

theorem compile_of_no_failure {r : CompileRequest} (h : failure? r.stages = none) (d : DryRun) :
    d.compile r = (.ok ⟨d.issued + 1⟩,
      { d with
        compiles := d.compiles + 1
        issued := d.issued + 1
        programs := d.programs.set ⟨d.issued + 1⟩ ⟨r.stages, identifiers r.stages⟩ }) := by
  rw [compile, h]

/-- Distinct programs `held` are those that are live; numbers are given out in order, one for each success. -/
structure Balanced (d : DryRun) (held : List Program) : Prop where
  handles : (d.programs.map Prod.fst).Perm held
  nodup : held.Nodup
  numbered : ∀ p ∈ held, p.number.toNat ≤ d.issued.toNat
  issued : d.issued.toNat = d.successes
  settled : d.successes = d.live + d.releases

namespace Balanced

variable {d : DryRun} {held : List Program}

theorem empty : Balanced empty [] :=
  ⟨.refl _, .nil, fun _ h => absurd h List.not_mem_nil, rfl, rfl⟩

theorem perm (h : Balanced d held) {held' : List Program} (hp : held.Perm held') : Balanced d held' :=
  ⟨h.handles.trans hp, hp.nodup_iff.1 h.nodup, fun p hm => h.numbered p (hp.mem_iff.2 hm), h.issued, h.settled⟩

theorem isLive_iff (h : Balanced d held) (p : Program) : d.isLive p = true ↔ p ∈ held :=
  Assoc.has_iff.trans h.handles.mem_iff

theorem live_eq (h : Balanced d held) : d.live = held.length := by
  rw [← h.handles.length_eq, List.length_map]
  rfl

theorem number_next (h : Balanced d held) (hr : d.successes + 1 < 2 ^ 32) :
    (d.issued + 1).toNat = d.issued.toNat + 1 := by
  have := h.issued
  rw [UInt32.toNat_add, UInt32.toNat_one, Nat.mod_eq_of_lt (by omega)]

/-- The next program is none of those that are held. -/
theorem next_not_mem (h : Balanced d held) (hr : d.successes + 1 < 2 ^ 32) : (⟨d.issued + 1⟩ : Program) ∉ held := by
  intro hm
  have h₁ := h.numbered _ hm
  have h₂ := h.number_next hr
  simp only at h₁
  omega

theorem compile_ok (h : Balanced d held) (hs : d.failures ≤ d.compiles) {r : CompileRequest}
    (hf : failure? r.stages = none) (hr : (d.compile r).2.successes < 2 ^ 32) :
    Balanced (d.compile r).2 (⟨d.issued + 1⟩ :: held) := by
  rw [compile_of_no_failure hf] at hr ⊢
  have hsucc : d.compiles + 1 - d.failures = d.successes + 1 := by
    unfold successes
    omega
  have hr' : d.successes + 1 < 2 ^ 32 := hsucc ▸ hr
  have hnew := h.next_not_mem hr'
  have hnum := h.number_next hr'
  have hnone : d.programs.get? ⟨d.issued + 1⟩ = none :=
    Assoc.get?_eq_none_iff.2 fun hm => hnew (h.handles.mem_iff.1 hm)
  have hset := Assoc.set_eq_append hnone ⟨r.stages, identifiers r.stages⟩
  refine ⟨?_, List.nodup_cons.2 ⟨hnew, h.nodup⟩, fun p hp => ?_, ?_, ?_⟩
  · show (List.map Prod.fst (Assoc.set _ _ _)).Perm _
    rw [hset, List.map_append]
    exact List.perm_append_comm.trans (h.handles.cons _)
  · show p.number.toNat ≤ (d.issued + 1).toNat
    rcases List.mem_cons.1 hp with rfl | hp
    · exact Nat.le_refl _
    · have := h.numbered p hp
      omega
  · show (d.issued + 1).toNat = d.compiles + 1 - d.failures
    rw [hnum, hsucc, h.issued]
  · show d.compiles + 1 - d.failures = (Assoc.set d.programs _ _).length + d.releases
    have := h.settled
    unfold live at this
    rw [hset, List.length_append, hsucc, List.length_singleton]
    omega

theorem compile_error (h : Balanced d held) {r : CompileRequest} {f : CompileFailure}
    (hf : failure? r.stages = some f) : Balanced (d.compile r).2 held := by
  rw [compile_of_failure hf]
  have hsucc : d.compiles + 1 - (d.failures + 1) = d.successes := Nat.add_sub_add_right ..
  exact ⟨h.handles, h.nodup, h.numbered, h.issued.trans hsucc.symm, hsucc.trans h.settled⟩

theorem release {p : Program} (h : Balanced d (p :: held)) : Balanced (d.release p) held := by
  have hlive := (h.isLive_iff p).2 List.mem_cons_self
  have hnodup := List.nodup_cons.1 h.nodup
  have hne : ∀ q ∈ held, q ≠ p := fun q hq he => hnodup.1 (he ▸ hq)
  have hself : held.filter (fun q => decide (q ≠ p)) = held :=
    List.filter_eq_self.2 fun q hq => by simpa using hne q hq
  have hkeys : ((Assoc.erase d.programs p).map Prod.fst).Perm held := by
    have hf := h.handles.filter fun q => decide (q ≠ p)
    rw [List.filter_cons, if_neg (by simp), hself, List.filter_map] at hf
    rw [Assoc.erase_eq_filter]
    exact hf
  have hlen : (Assoc.erase d.programs p).length + 1 = d.live := by
    rw [h.live_eq, List.length_cons, ← hkeys.length_eq, List.length_map]
  rw [DryRun.release, if_pos hlive]
  refine ⟨hkeys, hnodup.2, fun q hq => h.numbered q (List.mem_cons_of_mem _ hq), h.issued, ?_⟩
  show d.successes = (Assoc.erase d.programs p).length + (d.releases + 1)
  have := h.settled
  omega

end Balanced

/-! ## Sources of live programs -/

theorem sources?_compile_self {r : CompileRequest} (hf : failure? r.stages = none) (d : DryRun) :
    (d.compile r).2.sources? ⟨d.issued + 1⟩ = some r.stages := by
  rw [compile_of_no_failure hf]
  show (Assoc.get? (Assoc.set _ _ _) _).map _ = _
  rw [Assoc.get?_set_self]
  rfl

theorem sources?_compile_of_ne {r : CompileRequest} {p : Program} {d : DryRun} (hp : p ≠ ⟨d.issued + 1⟩) :
    (d.compile r).2.sources? p = d.sources? p := by
  cases hf : failure? r.stages with
  | some f =>
    rw [compile_of_failure hf]
    rfl
  | none =>
    rw [compile_of_no_failure hf]
    show (Assoc.get? (Assoc.set _ _ _) _).map _ = _
    rw [Assoc.get?_set_of_ne fun he => hp he.symm]
    rfl

theorem sources?_release_of_ne {p q : Program} (hp : q ≠ p) (d : DryRun) :
    (d.release q).sources? p = d.sources? p := by
  unfold release
  split
  · show (Assoc.get? (Assoc.erase _ _) _).map _ = _
    rw [Assoc.get?_erase_of_ne hp]
    rfl
  · rfl

end DryRun

/-! ## Compilers backed by a dry run -/

/-- A compiler that passes calls on to a dry-run compiler, as long as `passes`. `released` are programs that it has
been told to release, if it writes them down. -/
class DryRunBacked (σ : Type) [ProgramCompiler σ] where
  dryRun : σ → DryRun
  passes : σ → Prop
  released : σ → List Program
  compile_fst (r : CompileRequest) (c : σ) : passes c →
    (ProgramCompiler.compile r c).1 = ((dryRun c).compile r).1
  dryRun_compile (r : CompileRequest) (c : σ) : passes c →
    dryRun (ProgramCompiler.compile r c).2 = ((dryRun c).compile r).2
  passes_compile (r : CompileRequest) (c : σ) : passes c → passes (ProgramCompiler.compile r c).2
  released_compile (r : CompileRequest) (c : σ) : passes c → released (ProgramCompiler.compile r c).2 = released c
  dryRun_release (p : Program) (c : σ) : dryRun (ProgramCompiler.release p c) = (dryRun c).release p
  passes_release (p : Program) (c : σ) : passes c → passes (ProgramCompiler.release p c)
  released_release (p : Program) (c : σ) : (released (ProgramCompiler.release p c)).Sublist (p :: released c)

instance : DryRunBacked DryRun where
  dryRun := id
  passes _ := True
  released _ := []
  compile_fst _ _ _ := rfl
  dryRun_compile _ _ _ := rfl
  passes_compile _ _ _ := trivial
  released_compile _ _ _ := rfl
  dryRun_release _ _ := rfl
  passes_release _ _ _ := trivial
  released_release _ _ := List.nil_sublist _

namespace Recorder

def released? : CompilerCall → Option Program
  | .release p => some p
  | .compile _ _ => none

/-- The programs that were released, the latest first. -/
def released (r : Recorder) : List Program := r.calls.filterMap released?

theorem compile_of_pending_none {r : Recorder} (h : r.pending = none) (request : CompileRequest) :
    (r.compile request).1 = (r.compiler.compile request).1 ∧
      (r.compile request).2.compiler = (r.compiler.compile request).2 ∧ (r.compile request).2.pending = none ∧
        (r.compile request).2.released = r.released := by
  unfold compile
  rw [h]
  cases hc : r.compiler.compile request with
  | mk x c => cases x <;> exact ⟨rfl, rfl, rfl, rfl⟩

instance : DryRunBacked Recorder where
  dryRun := compiler
  passes r := r.pending = none
  released := released
  compile_fst request _ h := (compile_of_pending_none h request).1
  dryRun_compile request _ h := (compile_of_pending_none h request).2.1
  passes_compile request _ h := (compile_of_pending_none h request).2.2.1
  released_compile request _ h := (compile_of_pending_none h request).2.2.2
  dryRun_release _ _ := rfl
  passes_release _ _ h := h
  released_release _ _ := List.Sublist.refl _

end Recorder

/-! ## The ledger -/

open DryRunBacked

variable {σ : Type} [ProgramCompiler σ] [DryRunBacked σ]

theorem passes_of_compile {c c' : σ} (hp : passes c) {r : CompileRequest} {x : Except CompileFailure Program}
    (he : ProgramCompiler.compile r c = (x, c')) : passes c' := by
  have := passes_compile r c hp
  rwa [he] at this

theorem failure?_of_compile_error {c c' : σ} (hp : passes c) {r : CompileRequest} {f : CompileFailure}
    (he : ProgramCompiler.compile r c = (.error f, c')) : DryRun.failure? r.stages = some f := by
  have hfst := compile_fst r c hp
  rw [he] at hfst
  cases hf : DryRun.failure? r.stages with
  | none =>
    rw [DryRun.compile_of_no_failure hf] at hfst
    cases hfst
  | some g =>
    rw [DryRun.compile_of_failure hf] at hfst
    cases hfst
    rfl

theorem failure?_of_compile_ok {c c' : σ} (hp : passes c) {r : CompileRequest} {p : Program}
    (he : ProgramCompiler.compile r c = (.ok p, c')) :
    DryRun.failure? r.stages = none ∧ p = ⟨(dryRun c).issued + 1⟩ := by
  have hfst := compile_fst r c hp
  rw [he] at hfst
  cases hf : DryRun.failure? r.stages with
  | none =>
    rw [DryRun.compile_of_no_failure hf] at hfst
    cases hfst
    exact ⟨rfl, rfl⟩
  | some g =>
    rw [DryRun.compile_of_failure hf] at hfst
    cases hfst

/-- The compiler has not used up the numbers of programs. -/
def InRange (c : σ) : Prop := (dryRun c).successes < 2 ^ 32

/-- The programs `held` are distinct and just the live ones, and no other was released twice. As long as the numbers
of programs last. -/
structure Ledger (c : σ) (held : List Program) : Prop where
  passes : passes c
  sane : (dryRun c).failures ≤ (dryRun c).compiles
  balanced : InRange c → (dryRun c).Balanced held
  released : InRange c → (released c).Nodup
  gone : InRange c → ∀ p ∈ DryRunBacked.released c, p ∉ held ∧ p.number.toNat ≤ (dryRun c).issued.toNat

namespace Ledger

variable {c c' : σ} {held held' : List Program}

theorem perm (h : Ledger c held) (hp : held.Perm held') : Ledger c held' :=
  ⟨h.passes, h.sane, fun hr => (h.balanced hr).perm hp, h.released,
    fun hr p hm => ⟨fun hm' => (h.gone hr p hm).1 (hp.mem_iff.2 hm'), (h.gone hr p hm).2⟩⟩

theorem compile_error (h : Ledger c held) {r : CompileRequest} {f : CompileFailure}
    (he : ProgramCompiler.compile r c = (.error f, c')) :
    (dryRun c').programs = (dryRun c).programs ∧ (dryRun c').successes = (dryRun c).successes ∧ Ledger c' held := by
  have hf := failure?_of_compile_error h.passes he
  have hdry := dryRun_compile r c h.passes
  have hpass := passes_of_compile h.passes he
  have hrel := released_compile r c h.passes
  rw [he] at hdry hrel
  have hc := DryRun.compile_of_failure hf (dryRun c)
  have hsucc : (dryRun c').successes = (dryRun c).successes := by
    rw [hdry, hc]
    exact Nat.add_sub_add_right ..
  have hrange : InRange c' → InRange c := fun hr => by
    unfold InRange at hr ⊢
    rwa [← hsucc]
  refine ⟨by rw [hdry, hc], hsucc, hpass, ?_, fun hr => ?_, fun hr => ?_, fun hr => ?_⟩
  · rw [hdry, hc]
    exact Nat.succ_le_succ h.sane
  · rw [hdry]
    exact (h.balanced (hrange hr)).compile_error hf
  · rw [hrel]
    exact h.released (hrange hr)
  · rw [hrel, hdry, hc]
    exact h.gone (hrange hr)

/-- A successful compilation gives a program that is not held, and that never was. -/
theorem compile_ok (h : Ledger c held) {r : CompileRequest} {p : Program}
    (he : ProgramCompiler.compile r c = (.ok p, c')) :
    (dryRun c').successes = (dryRun c).successes + 1 ∧ Ledger c' (p :: held) ∧
      (dryRun c').sources? p = some r.stages ∧
        ∀ q, q ≠ p → (dryRun c').sources? q = (dryRun c).sources? q := by
  obtain ⟨hf, rfl⟩ := failure?_of_compile_ok h.passes he
  have hdry := dryRun_compile r c h.passes
  have hpass := passes_of_compile h.passes he
  have hrel := released_compile r c h.passes
  rw [he] at hdry hrel
  have hsane := h.sane
  have hcounts : (dryRun c').compiles = (dryRun c).compiles + 1 ∧ (dryRun c').failures = (dryRun c).failures ∧
      (dryRun c').issued = (dryRun c).issued + 1 := by
    rw [hdry, DryRun.compile_of_no_failure hf]
    exact ⟨rfl, rfl, rfl⟩
  have hsucc : (dryRun c').successes = (dryRun c).successes + 1 := by
    unfold DryRun.successes
    omega
  have hrange : InRange c' → InRange c := fun hr => by
    unfold InRange at hr ⊢
    omega
  have hbal : InRange c' → (dryRun c').Balanced (⟨(dryRun c).issued + 1⟩ :: held) := fun hr => by
    unfold InRange at hr
    rw [hdry] at hr ⊢
    exact (h.balanced (hrange (by rwa [InRange, hdry]))).compile_ok hsane hf hr
  refine ⟨hsucc, ⟨hpass, by omega, hbal, fun hr => ?_, fun hr q hq => ?_⟩, ?_, fun q hq => ?_⟩
  · rw [hrel]
    exact h.released (hrange hr)
  · rw [hrel] at hq
    obtain ⟨hnot, hle⟩ := h.gone (hrange hr) q hq
    have hnext := (h.balanced (hrange hr)).number_next (by unfold InRange at hr; omega)
    rw [hcounts.2.2]
    refine ⟨fun hm => ?_, by omega⟩
    rcases List.mem_cons.1 hm with rfl | hm
    · simp only at hle
      omega
    · exact hnot hm
  · rw [hdry]
    exact DryRun.sources?_compile_self hf _
  · rw [hdry]
    exact DryRun.sources?_compile_of_ne hq

theorem successes_release (p : Program) (c : σ) :
    (dryRun (ProgramCompiler.release p c)).successes = (dryRun c).successes := by
  rw [dryRun_release]
  unfold DryRun.release
  split <;> rfl

theorem inRange_release {p : Program} {c : σ} (h : InRange (ProgramCompiler.release p c)) : InRange c := by
  unfold InRange at h ⊢
  rwa [successes_release] at h

theorem release {p : Program} (h : Ledger c (p :: held)) : Ledger (ProgramCompiler.release p c) held := by
  have hdry := dryRun_release p c
  have hcounts : ((dryRun c).release p).failures = (dryRun c).failures ∧
      ((dryRun c).release p).compiles = (dryRun c).compiles ∧ ((dryRun c).release p).issued = (dryRun c).issued := by
    unfold DryRun.release
    split <;> exact ⟨rfl, rfl, rfl⟩
  have hrange : InRange (ProgramCompiler.release p c) → InRange c := inRange_release
  have hsub := released_release p c
  refine ⟨passes_release p c h.passes, ?_, fun hr => ?_, fun hr => ?_, fun hr q hq => ?_⟩
  · rw [hdry, hcounts.1, hcounts.2.1]
    exact h.sane
  · rw [hdry]
    exact (h.balanced (hrange hr)).release
  · refine hsub.nodup (List.nodup_cons.2 ⟨fun hm => ?_, h.released (hrange hr)⟩)
    exact (h.gone (hrange hr) p hm).1 List.mem_cons_self
  · rw [hdry, hcounts.2.2]
    have hb := h.balanced (hrange hr)
    rcases List.mem_cons.1 (hsub.subset hq) with rfl | hq
    · exact ⟨(List.nodup_cons.1 hb.nodup).1, hb.numbered _ List.mem_cons_self⟩
    · obtain ⟨hnot, hle⟩ := h.gone (hrange hr) q hq
      exact ⟨fun hm => hnot (List.mem_cons_of_mem _ hm), hle⟩

end Ledger

end ShaderVariant
