import Mathlib.Data.List.Basic
import Mathlib.Data.Set.Function
import ShaderVariant.Proofs.Compiler.Identifiers
import ShaderVariant.Proofs.Compiler.Ledger

/-!
# Accounts of the dry-run compiler

A fresh dry-run compiler answers calls one after another: requests are compiled, and programs are released, whether they
are live, gone or unknown.

* `DryRun.Call`, `DryRun.run`, `DryRun.given` : calls, the state that they leave, and the programs that they give;
* `balanced_run`, `numbers_given` : the counters are in balance, and programs are numbered from 1 on;
* `DryRun.Unreleased` : a compilation gave the program for some sources, and no call behind it releases it. That is what
  it is to be live (`sources?_run_iff`);
* `DryRun.Numbered` : the identifiers of a program are numbered from 0 on in order of first occurrence;
* `accounting_exact` : all of this after any calls.
-/

namespace ShaderVariant

namespace DryRun

/-! ## Calls -/

inductive Call where
  | compile (request : CompileRequest)
  | release (program : Program)
  deriving DecidableEq

def Call.compiles : Call → Bool
  | .compile _ => true
  | .release _ => false

def step (d : DryRun) : Call → DryRun
  | .compile r => (d.compile r).2
  | .release p => d.release p

def gives? (d : DryRun) : Call → Option Program
  | .compile r => (d.compile r).1.toOption
  | .release _ => none

def run (cs : List Call) : DryRun := cs.foldl step empty

/-- The programs that calls of a compiler give, in order. -/
def givenFrom (d : DryRun) : List Call → List Program
  | [] => []
  | c :: cs => (d.gives? c).toList ++ givenFrom (d.step c) cs

def given (cs : List Call) : List Program := givenFrom empty cs

/-- A compilation gave a program for sources, and no call behind it releases the program. -/
def Unreleased (cs : List Call) (p : Program) (sources : List StageSource) : Prop :=
  ∃ before r after, cs = before ++ .compile r :: after ∧ (run before).gives? (.compile r) = some p ∧
    r.stages = sources ∧ .release p ∉ after

theorem run_concat (cs : List Call) (c : Call) : run (cs ++ [c]) = (run cs).step c := by
  rw [run, List.foldl_append]
  rfl

theorem given_concat (cs : List Call) (c : Call) : given (cs ++ [c]) = given cs ++ ((run cs).gives? c).toList := by
  have hfrom : ∀ d, givenFrom d (cs ++ [c]) = givenFrom d cs ++ ((cs.foldl step d).gives? c).toList := by
    induction cs with
    | nil => intro d; simp [givenFrom]
    | cons c' cs ih => intro d; simp [givenFrom, ih]
  exact hfrom empty

/-! ## One call -/

section Step

variable {d : DryRun} {r : CompileRequest} {p q : Program}

/-- A compilation fails and changes counters only, or it gives the next program. -/
theorem gives?_compile (d : DryRun) (r : CompileRequest) :
    (∃ f, failure? r.stages = some f ∧ d.gives? (.compile r) = none) ∨
      (failure? r.stages = none ∧ d.gives? (.compile r) = some ⟨d.issued + 1⟩) := by
  cases hf : failure? r.stages with
  | some f =>
    refine .inl ⟨f, rfl, ?_⟩
    rw [gives?, compile_of_failure hf]
    rfl
  | none =>
    refine .inr ⟨rfl, ?_⟩
    rw [gives?, compile_of_no_failure hf]
    rfl

theorem programs_release (p : Program) (d : DryRun) : (d.release p).programs = Assoc.erase d.programs p := by
  unfold release
  split
  · rfl
  · next h =>
    -- Nothing is erased of what is not there.
    rw [Assoc.erase_eq_filter, List.filter_eq_self.2]
    intro e he
    have hne : e.1 ≠ p := by
      rintro rfl
      exact h (Assoc.has_iff.2 (List.mem_map_of_mem he))
    simpa using hne

theorem sources?_release (p q : Program) (d : DryRun) :
    (d.release p).sources? q = if p = q then none else d.sources? q := by
  split
  · next h =>
    subst h
    rw [sources?, programs_release, Assoc.get?_erase_self]
    rfl
  · next h => exact sources?_release_of_ne h d

end Step

/-! ## Counters -/

/-- Calls are counted, and so are failures among them: all compilations but those that give a program. -/
theorem counts_run (cs : List Call) :
    (run cs).compiles = cs.countP Call.compiles ∧ (run cs).failures + (given cs).length = (run cs).compiles := by
  induction cs using List.reverseRecOn with
  | nil => exact ⟨rfl, rfl⟩
  | append_singleton cs c ih =>
    obtain ⟨hcompiles, hfailures⟩ := ih
    rw [run_concat, given_concat, List.countP_append, List.length_append, ← hcompiles]
    cases c with
    | release p =>
      have hcounts : ((run cs).release p).compiles = (run cs).compiles ∧
          ((run cs).release p).failures = (run cs).failures := by
        unfold release
        split <;> exact ⟨rfl, rfl⟩
      exact ⟨hcounts.1, by simpa [step, gives?, hcounts] using hfailures⟩
    | compile r =>
      rcases gives?_compile (run cs) r with ⟨f, hf, hgives⟩ | ⟨hf, hgives⟩
      · rw [hgives, step, compile_of_failure hf]
        exact ⟨rfl, by simp only [Option.toList_none, List.length_nil]; omega⟩
      · rw [hgives, step, compile_of_no_failure hf]
        exact ⟨rfl, by simp only [Option.toList_some, List.length_singleton]; omega⟩

theorem successes_run (cs : List Call) : (run cs).successes = (given cs).length := by
  have := (counts_run cs).2
  unfold successes
  omega

theorem length_given_concat {cs : List Call} {c : Call} {n : Nat} (h : (given (cs ++ [c])).length < n) :
    (given cs).length < n := by
  rw [given_concat, List.length_append] at h
  omega

/-- As long as there are numbers for programs, the live programs and the counters are in balance. -/
theorem balanced_run {cs : List Call} (h : (given cs).length < 2 ^ 32) :
    Balanced (run cs) ((run cs).programs.map Prod.fst) := by
  induction cs using List.reverseRecOn with
  | nil => exact Balanced.empty
  | append_singleton cs c ih =>
    have hb := ih (length_given_concat h)
    have hrange := successes_run (cs ++ [c])
    rw [run_concat] at hrange ⊢
    cases c with
    | compile r =>
      rcases gives?_compile (run cs) r with ⟨f, hf, -⟩ | ⟨hf, -⟩
      · have hbal := hb.compile_error hf
        exact hbal.perm hbal.handles.symm
      · have hle : (run cs).failures ≤ (run cs).compiles := by
          have := (counts_run cs).2
          omega
        have hbal := hb.compile_ok hle hf (hrange.trans_lt h)
        exact hbal.perm hbal.handles.symm
    | release p =>
      by_cases hlive : (run cs).isLive p = true
      · have hperm := List.perm_cons_erase ((hb.isLive_iff p).1 hlive)
        have hbal := (hb.perm hperm).release
        exact hbal.perm hbal.handles.symm
      · have hsame : (run cs).release p = run cs := if_neg hlive
        rw [step, hsame]
        exact hb

theorem numbers_given {cs : List Call} (h : (given cs).length < 2 ^ 32) :
    (given cs).map (fun p => p.number.toNat) = List.range' 1 (given cs).length := by
  induction cs using List.reverseRecOn with
  | nil => rfl
  | append_singleton cs c ih =>
    have hb := balanced_run (length_given_concat h)
    have ih := ih (length_given_concat h)
    rw [given_concat] at h ⊢
    cases hg : (run cs).gives? c with
    | none => simpa using ih
    | some p =>
      obtain ⟨r, rfl⟩ : ∃ r, c = .compile r := by
        cases c with
        | compile r => exact ⟨r, rfl⟩
        | release _ => cases hg
      rcases gives?_compile (run cs) r with ⟨f, -, hnone⟩ | ⟨-, hsome⟩
      · rw [hg] at hnone
        cases hnone
      · rw [hg] at hsome h
        cases hsome
        have hnext : ((run cs).issued + 1).toNat = (given cs).length + 1 := by
          have hissued := hb.issued
          rw [successes_run] at hissued
          simp only [Option.toList_some, List.length_append, List.length_singleton] at h
          rw [hb.number_next (by rw [successes_run]; exact h), hissued]
        simp only [Option.toList_some, List.map_append, List.map_singleton, List.length_append, List.length_singleton,
          ih, List.range'_concat, hnext]
        rw [Nat.one_mul, Nat.add_comm 1]

/-! ## Live programs -/

theorem unreleased_concat {cs : List Call} {c : Call} {p : Program} {sources : List StageSource} :
    Unreleased (cs ++ [c]) p sources ↔
      (∃ r, c = .compile r ∧ (run cs).gives? c = some p ∧ r.stages = sources) ∨
        (Unreleased cs p sources ∧ c ≠ .release p) := by
  constructor
  · rintro ⟨before, r, after, hcs, hgives, hstages, hafter⟩
    rcases List.eq_nil_or_concat' after with rfl | ⟨after, c', rfl⟩
    · obtain ⟨rfl, hc⟩ := List.append_inj' hcs rfl
      cases hc
      exact .inl ⟨r, rfl, hgives, hstages⟩
    · rw [← List.cons_append, ← List.append_assoc] at hcs
      obtain ⟨rfl, hc⟩ := List.append_inj' hcs rfl
      cases hc
      refine .inr ⟨⟨before, r, after, rfl, hgives, hstages, fun hm => hafter (List.mem_append_left _ hm)⟩, ?_⟩
      rintro rfl
      exact hafter (List.mem_append_right _ List.mem_cons_self)
  · rintro (⟨r, rfl, hgives, hstages⟩ | ⟨⟨before, r, after, rfl, hgives, hstages, hafter⟩, hc⟩)
    · exact ⟨cs, r, [], rfl, hgives, hstages, List.not_mem_nil⟩
    · refine ⟨before, r, after ++ [c], by simp, hgives, hstages, ?_⟩
      simpa [hafter] using Ne.symm hc

theorem isLive_iff_sources? (d : DryRun) (p : Program) :
    d.isLive p = true ↔ ∃ sources, d.sources? p = some sources := by
  rw [← Option.isSome_iff_exists, sources?, Option.isSome_map]
  rfl

/-- A program is live with some sources just if a compilation gave it for these and it was not released since. -/
theorem sources?_run_iff {cs : List Call} (h : (given cs).length < 2 ^ 32) (p : Program) (sources : List StageSource) :
    (run cs).sources? p = some sources ↔ Unreleased cs p sources := by
  induction cs using List.reverseRecOn generalizing p sources with
  | nil =>
    refine iff_of_false nofun ?_
    rintro ⟨before, r, after, hnil, -⟩
    simp at hnil
  | append_singleton cs c ih =>
    have hrange := length_given_concat h
    have ih := ih hrange
    rw [unreleased_concat, run_concat, ← ih]
    cases c with
    | release q =>
      simp only [step, sources?_release, gives?, reduceCtorEq, false_and, exists_false, false_or, ne_eq,
        Call.release.injEq]
      split <;> simp_all
    | compile r =>
      simp only [Call.compile.injEq, exists_eq_left', ne_eq, reduceCtorEq, not_false_eq_true, and_true]
      rcases gives?_compile (run cs) r with ⟨f, hf, hnone⟩ | ⟨hf, hsome⟩
      · rw [hnone, step, compile_of_failure hf]
        simp [sources?]
      · have hb := balanced_run hrange
        rw [hsome, Option.some.injEq, step]
        by_cases hp : ⟨(run cs).issued + 1⟩ = p
        · -- The new program was not live before, so its sources are the new ones.
          have hnew : ¬ (run cs).sources? p = some sources := by
            intro hold
            have hlive := (isLive_iff_sources? _ p).2 ⟨sources, hold⟩
            refine hb.next_not_mem ?_ (hp ▸ (hb.isLive_iff p).1 hlive)
            rw [given_concat, hsome, List.length_append] at h
            rw [successes_run]
            exact h
          rw [or_iff_left hnew, ← hp, sources?_compile_self hf]
          simp
        · rw [sources?_compile_of_ne (Ne.symm hp)]
          simp [hp]

/-! ## Identifiers -/

/-- The identifiers of the sources of a program are numbered from 0 on, each once, in order of first occurrence. The
number is the slot of a uniform, as a word of 32 bits. -/
structure Numbered (d : DryRun) (p : Program) (sources : List StageSource) : Prop where
  onto : Set.BijOn (ordinal sources) {name | ∃ s ∈ sources, s.source.Mentions name}
    (Set.Iio (names sources).toFinset.card)
  inOrder : ∀ a ∈ names sources, ∀ b ∈ names sources,
    (ordinal sources a < ordinal sources b ↔ (names sources).idxOf a < (names sources).idxOf b)
  slot : ∀ name, d.slot? p .uniform name =
    if name ∈ names sources then some (Int32.ofNat (ordinal sources name)) else none

section Ordinal

variable {sources : List StageSource} {a b : String}

theorem length_identifiers (sources : List StageSource) :
    (identifiers sources).length = (names sources).toFinset.card := by
  unfold identifiers
  rw [distinct_eq_eraseDups, ← length_eraseDups]
  rfl

theorem nodup_identifiers (sources : List StageSource) : (identifiers sources).Nodup := by
  unfold identifiers
  rw [distinct_eq_eraseDups]
  exact nodup_eraseDups _

theorem mem_identifiers : a ∈ identifiers sources ↔ a ∈ names sources := by
  unfold identifiers
  rw [distinct_eq_eraseDups, List.mem_eraseDups]
  rfl

theorem getElem?_ordinal (ha : a ∈ names sources) : (identifiers sources)[ordinal sources a]? = some a := by
  have hplace := findIdx?_identifiers sources a
  rw [if_pos ha] at hplace
  obtain ⟨hlt, heq, -⟩ := List.findIdx?_eq_some_iff_getElem.1 hplace
  rw [List.getElem?_eq_getElem hlt, eq_of_beq heq]

theorem bijOn_ordinal (sources : List StageSource) :
    Set.BijOn (ordinal sources) {name | ∃ s ∈ sources, s.source.Mentions name}
      (Set.Iio (names sources).toFinset.card) := by
  have hnames : {name | ∃ s ∈ sources, s.source.Mentions name} = {name | name ∈ names sources} :=
    Set.ext fun name => mem_names_iff.symm
  rw [hnames, ← length_identifiers]
  refine ⟨fun a ha => ?_, fun a ha b hb hab => ?_, fun i hi => ?_⟩
  · exact (List.getElem?_eq_some_iff.1 (getElem?_ordinal ha)).1
  · have ha : a ∈ names sources := ha
    have hb : b ∈ names sources := hb
    have heq := getElem?_ordinal ha
    rw [hab, getElem?_ordinal hb] at heq
    exact (Option.some.inj heq).symm
  · have hi : i < (identifiers sources).length := hi
    have hmem := mem_identifiers.1 (List.getElem_mem hi)
    refine ⟨(identifiers sources)[i], hmem, ?_⟩
    have hplace := getElem?_ordinal hmem
    rw [← List.getElem?_eq_getElem hi] at hplace
    exact ((List.getElem?_inj hi (nodup_identifiers sources)).1 hplace.symm).symm

theorem ordinal_lt (ha : a ∈ names sources) (h : (names sources).idxOf a < (names sources).idxOf b) :
    ordinal sources a < ordinal sources b := by
  have hfront (c : String) : (names sources).takeWhile (· != c) = (names sources).take ((names sources).idxOf c) := by
    rw [List.takeWhile_eq_take_findIdx_not]
    simp only [bne, Bool.not_not]
    rfl
  have hlt : (names sources).idxOf a < (names sources).length := List.idxOf_lt_length_of_mem ha
  unfold ordinal
  rw [hfront a, hfront b]
  refine Finset.card_lt_card (Finset.ssubset_iff_of_subset ?_ |>.2 ⟨a, ?_, ?_⟩)
  · intro c hc
    rw [List.mem_toFinset] at hc ⊢
    exact List.take_subset_take_left _ (Nat.le_of_lt h) hc
  · rw [List.mem_toFinset, List.mem_take_iff_getElem]
    exact ⟨_, by omega, List.getElem_idxOf hlt⟩
  · rw [List.mem_toFinset, ← hfront a]
    intro hm
    simpa using List.mem_takeWhile_imp hm

theorem ordinal_lt_iff (ha : a ∈ names sources) (hb : b ∈ names sources) :
    ordinal sources a < ordinal sources b ↔ (names sources).idxOf a < (names sources).idxOf b := by
  refine ⟨fun h => ?_, ordinal_lt ha⟩
  by_contra hle
  rcases Nat.eq_or_lt_of_le (Nat.not_lt.1 hle) with heq | hlt
  · have hab : b = a := (List.idxOf_inj hb).1 heq
    rw [hab] at h
    exact Nat.lt_irrefl _ h
  · exact Nat.lt_asymm h (ordinal_lt hb hlt)

end Ordinal

theorem linked_run (cs : List Call) (p : Program) (linked : LinkedProgram) (h : (run cs).programs.get? p = some linked) :
    linked.identifiers = identifiers linked.stages := by
  induction cs using List.reverseRecOn with
  | nil => cases h
  | append_singleton cs c ih =>
    rw [run_concat] at h
    cases c with
    | release q =>
      rw [step, programs_release] at h
      by_cases hq : q = p
      · rw [hq, Assoc.get?_erase_self] at h
        cases h
      · rw [Assoc.get?_erase_of_ne hq] at h
        exact ih h
    | compile r =>
      rcases gives?_compile (run cs) r with ⟨f, hf, -⟩ | ⟨hf, -⟩
      · rw [step, compile_of_failure hf] at h
        exact ih h
      · rw [step, compile_of_no_failure hf] at h
        simp only [Assoc.get?_set] at h
        split at h
        · cases h
          rfl
        · exact ih h

theorem numbered_run {cs : List Call} {p : Program} {sources : List StageSource}
    (h : (run cs).sources? p = some sources) : Numbered (run cs) p sources := by
  obtain ⟨linked, hlinked, rfl⟩ := Option.map_eq_some_iff.1 h
  refine ⟨bijOn_ordinal _, fun a ha b hb => ordinal_lt_iff ha hb, fun name => ?_⟩
  rw [slot?, hlinked, Option.bind_some, linked_run cs p linked hlinked, findIdx?_identifiers]
  split <;> rfl

/-! ## All of it -/

/-- After any calls of a fresh compiler that give fewer than 2^32 programs: every compilation has failed, or its program
was released, or is live; the programs that were given have ascending numbers; a program is live, with just the sources
of the compilation that gave it, until it is released for the first time; and the identifiers of a live program are
numbered in order of first occurrence. -/
theorem accounting_exact (cs : List Call) (h : (given cs).length < 2 ^ 32) :
    ((run cs).compiles = cs.countP Call.compiles ∧ (run cs).failures + (given cs).length = (run cs).compiles ∧
      (run cs).compiles = (run cs).failures + (run cs).releases + (run cs).live) ∧
    (given cs).Pairwise (fun p q => p.number < q.number) ∧
    (∀ p sources, (run cs).sources? p = some sources ↔ Unreleased cs p sources) ∧
    (∀ p, (run cs).isLive p = true ↔ ∃ sources, Unreleased cs p sources) ∧
    ∀ p sources, Unreleased cs p sources → Numbered (run cs) p sources := by
  obtain ⟨hcompiles, hfailures⟩ := counts_run cs
  have hsources := sources?_run_iff h
  refine ⟨⟨hcompiles, hfailures, ?_⟩, ?_, hsources, fun p => ?_, fun p sources hp => ?_⟩
  · have hsettled := (balanced_run h).settled
    rw [successes_run] at hsettled
    omega
  · have hnumbers : ((given cs).map fun p => p.number.toNat).Pairwise (· < ·) := by
      rw [numbers_given h]
      exact List.pairwise_lt_range' ..
    exact (List.pairwise_map.1 hnumbers).imp UInt32.lt_iff_toNat_lt.2
  · rw [isLive_iff_sources?]
    exact exists_congr fun sources => hsources p sources
  · exact numbered_run ((hsources p sources).2 hp)

def requestOf (stages : List StageSource) : CompileRequest :=
  { shader := "lit", context := "MAIN", mask := .empty, stages, renderState := default }

/-- Two stages, which share an identifier. -/
def glowStages : List StageSource :=
  [⟨.vertex, "vec4 glow;".toList⟩, ⟨.fragment, "uniform vec4 tint;".toList⟩]

/-- Two programs are given and the first one is released twice, between a request with an error, one without stages, and
the release of a program that nobody was given. -/
def mixedCalls : List Call :=
  [.compile (requestOf [⟨.vertex, "main".toList⟩]), .compile (requestOf [⟨.vertex, "#error none\n".toList⟩]),
    .release ⟨1⟩, .release ⟨1⟩, .compile (requestOf glowStages), .release ⟨9⟩, .compile (requestOf [])]

/-- One program of two is live behind the calls. Its third identifier, in the second stage, has the number 2. -/
theorem accounting_exact_mixedCalls :
    (given mixedCalls).length < 2 ^ 32 ∧ (run mixedCalls).compiles = 4 ∧ (run mixedCalls).failures = 2 ∧
      (run mixedCalls).releases = 1 ∧ (run mixedCalls).live = 1 ∧ (run mixedCalls).isLive ⟨1⟩ = false ∧
        Unreleased mixedCalls ⟨2⟩ glowStages ∧ (run mixedCalls).slot? ⟨2⟩ .uniform "uniform" = some 2 := by
  have hrun : (given mixedCalls).length < 2 ^ 32 ∧ (run mixedCalls).failures = 2 ∧ (run mixedCalls).releases = 1 ∧
      (run mixedCalls).live = 1 ∧ (run mixedCalls).isLive ⟨1⟩ = false ∧
        (run mixedCalls).sources? ⟨2⟩ = some glowStages ∧ "uniform" ∈ names glowStages ∧
          ordinal glowStages "uniform" = 2 := by
    decide +kernel
  obtain ⟨hrange, hfailures, hreleases, hlive, hgone, hsources, hmem, hplace⟩ := hrun
  obtain ⟨⟨-, -, hbalance⟩, -, hiff, -, hnumbered⟩ := accounting_exact mixedCalls hrange
  have hunreleased := (hiff ⟨2⟩ glowStages).1 hsources
  have hslot := (hnumbered ⟨2⟩ glowStages hunreleased).slot "uniform"
  rw [if_pos hmem, hplace] at hslot
  exact ⟨hrange, by omega, hfailures, hreleases, hlive, hgone, hunreleased, hslot⟩

end DryRun

end ShaderVariant
