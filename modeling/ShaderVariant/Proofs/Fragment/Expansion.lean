import Mathlib.Data.List.Chain
import Mathlib.Data.List.Nodup
import Mathlib.Data.List.Perm.Subperm
import ShaderVariant.Proofs.Fragment.ByName
import ShaderVariant.Proofs.Fragment.Places
import ShaderVariant.Proofs.Fragment.Splice

/-!
# Expansion

A fragment is expanded inside a path of fragments, none of which may occur again.

* `FragmentStore.Trail` : the path that is walked, each fragment including the next one, so it is never longer than the
  table (`Trail.length_le`);
* `FragmentStore.Grounded` : what a fragment includes is stored and ends. That holds just of fragments whose includes
  can be spliced (`grounded_of_expand`, `Splice.grounded`);
* `FragmentStore.Splice` : the text of a fragment with the full text of every include at its place, said without a path
  (`splice_of_expand`, `expand_of_splice`);
* `FragmentStore.Fault` : why an expansion fails: a key that is not stored, or a cycle (`fault_of_expand`);
* `assembly_exact` : what assembling comes to, of every table and every fragment.
-/

namespace ShaderVariant

open Relation (ReflTransGen TransGen)

namespace FragmentStore

variable {s t : FragmentStore} {path : List FragmentKey} {f : Fragment}

/-- A fragment includes a key, directly or through others. -/
def Reaches (s : FragmentStore) (f : Fragment) (x : FragmentKey) : Prop := ∃ k ∈ f.targets, ReflTransGen s.Includes k x

theorem reaches_of_transGen {k x : FragmentKey} (hf : s.get? k = some f) (h : TransGen s.Includes k x) :
    s.Reaches f x := by
  obtain ⟨y, ⟨g, hg, hy⟩, hx⟩ := TransGen.head'_iff.1 h
  cases hf.symm.trans hg
  exact ⟨y, hy, hx⟩

/-! ## Paths -/

/-- Distinct stored fragments, each of which includes the next one, and the last one includes the targets of `is`. -/
structure Trail (s : FragmentStore) (path : List FragmentKey) (is : List Include) : Prop where
  nodup : path.Nodup
  stored : ∀ k ∈ path, ∃ f, s.get? k = some f
  chain : path.IsChain s.Includes
  last : ∀ k ∈ path.getLast?, ∀ i ∈ is, s.Includes k i.target

namespace Trail

variable {i : Include} {is : List Include}

theorem nil (s : FragmentStore) (is : List Include) : s.Trail [] is :=
  ⟨.nil, fun _ hk => absurd hk List.not_mem_nil, .nil, fun _ hk => (nomatch hk)⟩

theorem singleton {k : FragmentKey} (hf : s.get? k = some f) : s.Trail [k] f.includes := by
  refine ⟨List.nodup_singleton k, fun x hx => ?_, .singleton k, fun x hx i hi => ?_⟩
  · exact ⟨f, List.mem_singleton.1 hx ▸ hf⟩
  · cases hx
    exact ⟨f, hf, List.mem_map_of_mem hi⟩

theorem mono {js : List Include} (h : s.Trail path is) (hj : ∀ j ∈ js, j ∈ is) : s.Trail path js :=
  ⟨h.nodup, h.stored, h.chain, fun k hk j hm => h.last k hk j (hj j hm)⟩

theorem enter (h : s.Trail path is) (hi : i ∈ is) (hp : i.target ∉ path) (hf : s.get? i.target = some f) :
    s.Trail (path ++ [i.target]) f.includes := by
  refine ⟨List.concat_eq_append ▸ h.nodup.concat hp, fun k hk => ?_, ?_, fun k hk j hj => ?_⟩
  · rcases List.mem_append.1 hk with hk | hk
    · exact h.stored k hk
    · exact ⟨f, List.mem_singleton.1 hk ▸ hf⟩
  · refine h.chain.append (.singleton i.target) fun k hk x hx => ?_
    cases hx
    exact h.last k hk i hi
  · rw [List.getLast?_concat] at hk
    cases hk
    exact ⟨f, hf, List.mem_map_of_mem hj⟩

/-- A path is no longer than the table. -/
theorem length_le (h : s.Trail path is) : path.length ≤ s.size := by
  have hsub : path ⊆ s.table.entries.map Prod.fst := fun k hk => by
    obtain ⟨f, hf⟩ := h.stored k hk
    exact List.mem_map_of_mem (SlotMap.mem_entries_iff.2 hf)
  have := (h.nodup.subperm hsub).length_le
  rwa [List.length_map] at this

end Trail

/-- Inside a path, a fragment has an include that is expanded in its turn: the target is new on the path and stored. -/
def Enters (s : FragmentStore) (p q : List FragmentKey × Fragment) : Prop :=
  ∃ i ∈ p.2.includes, i.target ∉ p.1 ∧ s.get? i.target = some q.2 ∧ q.1 = p.1 ++ [i.target]

/-- Expansions that are nested keep to paths. -/
theorem Trail.enters {p q : List FragmentKey × Fragment} (h : s.Trail p.1 p.2.includes)
    (hq : ReflTransGen s.Enters p q) : s.Trail q.1 q.2.includes := by
  induction hq with
  | refl => exact h
  | tail _ hstep ih =>
    obtain ⟨i, hi, hp, hf, hpath⟩ := hstep
    rw [hpath]
    exact ih.enter hi hp hf

/-! ## Fragments whose includes end -/

/-- A stored fragment whose includes are grounded, in turn. -/
inductive Grounded (s : FragmentStore) : FragmentKey → Prop
  | mk {k : FragmentKey} {f : Fragment} (hf : s.get? k = some f) (h : ∀ x ∈ f.targets, Grounded s x) : Grounded s k

namespace Grounded

variable {k x : FragmentKey}

theorem contains (h : s.Grounded k) : s.contains k = true := by
  cases h with
  | mk hf _ => exact contains_iff.2 ⟨_, hf⟩

theorem of_reaches (h : s.Grounded k) (hx : ReflTransGen s.Includes k x) : s.Grounded x := by
  induction hx with
  | refl => exact h
  | tail _ hstep ih =>
    obtain ⟨f, hf, hm⟩ := hstep
    cases ih with
    | mk hg hin =>
      cases hf.symm.trans hg
      exact hin _ hm

/-- No cycle leads back to it. -/
theorem acyclic (h : s.Grounded k) : ¬ TransGen s.Includes k k := by
  induction h with
  | @mk k f hf h ih =>
    intro hk
    obtain ⟨y, ⟨g, hg, hy⟩, hyk⟩ := TransGen.head'_iff.1 hk
    cases hf.symm.trans hg
    -- The cycle goes through the include as well.
    exact ih y hy (.tail' hyk ⟨f, hf, hy⟩)

end Grounded

theorem grounded_of_expand {start : Nat} {rest text : Text} {is : List Include}
    (h : s.expand path start rest is = .ok text) : ∀ i ∈ is, s.Grounded i.target := by
  fun_induction expand s path start rest is generalizing text with
  | case1 => exact fun i hi => absurd hi List.not_mem_nil
  | case6 path start rest i more hp f hf inner hin outer hout ihf ihm =>
    refine List.forall_mem_cons.2 ⟨.mk hf fun x hx => ?_, ihm hout⟩
    obtain ⟨j, hj, rfl⟩ := List.mem_map.1 hx
    exact ihf hin j hj
  | _ => cases h

/-! ## Spliced texts -/

/-- `t` is the text `rest`, which begins at byte `start`, with the full text of every include at its place: the text
before the first include, what that includes, and what is behind it with the other includes. -/
inductive Splice (s : FragmentStore) : Nat → Text → List Include → Text → Prop
  | done (start : Nat) (rest : Text) : Splice s start rest [] rest
  | include {start : Nat} {before after inner outer : Text} {i : Include} {more : List Include} {f : Fragment}
      (hplace : start + before.byteLength = i.offset) (hf : s.get? i.target = some f)
      (hin : Splice s 0 f.text f.includes inner) (hout : Splice s i.offset after more outer) :
      Splice s start (before ++ after) (i :: more) (before ++ inner ++ outer)

theorem Splice.grounded {start : Nat} {rest text : Text} {is : List Include} (h : s.Splice start rest is text) :
    ∀ i ∈ is, s.Grounded i.target := by
  induction h with
  | done => exact fun i hi => absurd hi List.not_mem_nil
  | «include» hplace hf _ _ ihin ihout =>
    refine List.forall_mem_cons.2 ⟨.mk hf fun x hx => ?_, ihout⟩
    obtain ⟨j, hj, rfl⟩ := List.mem_map.1 hx
    exact ihin j hj

theorem splice_of_expand (hs : s.Placed) {start : Nat} {rest text : Text} {is : List Include}
    (hplaced : PlacedFrom start rest is) (h : s.expand path start rest is = .ok text) :
    s.Splice start rest is text := by
  fun_induction expand s path start rest is generalizing text with
  | case1 path start rest =>
    cases h
    exact .done start rest
  | case6 path start rest i more hp f hf inner hin outer hout ihf ihm =>
    cases h
    obtain ⟨before, after, rfl, hb, hcut⟩ := hplaced.cut
    rw [hcut] at ihm hout ⊢
    exact .include hb hf (ihf (hs _ f hf) hin) (ihm (hplaced.rest hb) hout)
  | _ => cases h

/-- Inside a path that the includes do not lead back to, a spliced text is what the expansion gives. -/
theorem expand_of_splice {start : Nat} {rest text : Text} {is : List Include} (h : s.Splice start rest is text)
    (hpath : ∀ k ∈ path, ∀ i ∈ is, ¬ ReflTransGen s.Includes i.target k) : s.expand path start rest is = .ok text := by
  induction h generalizing path with
  | done => rw [expand]
  | @«include» start before after inner outer i more f hplace hf hin hout ihin ihout =>
    have hp : i.target ∉ path := fun hm => hpath _ hm i List.mem_cons_self .refl
    have hcut : (before ++ after).splitBytes (i.offset - start) = (before, after) := by
      rw [← hplace, Nat.add_sub_cancel_left]
      exact Text.splitBytes_byteLength before after
    -- The path gets longer by the target, which is spliced and so on no cycle.
    have hnested : ∀ k ∈ path ++ [i.target], ∀ j ∈ f.includes, ¬ ReflTransGen s.Includes j.target k := by
      intro k hk j hj hjk
      have hstep : s.Includes i.target j.target := ⟨f, hf, List.mem_map_of_mem hj⟩
      rcases List.mem_append.1 hk with hk | hk
      · exact hpath k hk i List.mem_cons_self (.head hstep hjk)
      · rw [List.mem_singleton.1 hk] at hjk
        have hground : s.Grounded i.target := Grounded.mk hf fun x hx => by
          obtain ⟨l, hl, rfl⟩ := List.mem_map.1 hx
          exact hin.grounded l hl
        exact hground.acyclic (.head' hstep hjk)
    rw [expand_cons, if_neg hp, hf, hcut]
    simp only [ihin hnested, ihout fun k hk j hj => hpath k hk j (List.mem_cons_of_mem i hj)]

/-! ## Failures -/

/-- Names of stored fragments, each of which includes the next one, from one of them back to it. -/
structure Cycle (s : FragmentStore) (keys : List FragmentKey) (names : List String) : Prop where
  named : List.Forall₂ (fun k name => ∃ f, s.get? k = some f ∧ f.name = name) keys names
  chain : keys.IsChain s.Includes
  closed : keys.head? = keys.getLast?
  ends : names.head? = names.getLast?
  length : 2 ≤ names.length

/-- Why the expansion of includes inside a path fails: something that is reached is not stored, or a cycle is. -/
inductive Fault (s : FragmentStore) (path : List FragmentKey) (is : List Include) : ShaderError → Prop
  | dangling {x : FragmentKey} (hx : ∃ i ∈ is, ReflTransGen s.Includes i.target x) (h : s.contains x = false) :
      Fault s path is (.danglingFragment x)
  | cyclic {keys : List FragmentKey} {names : List String} (h : s.Cycle keys names)
      (hk : ∀ k ∈ keys, k ∈ path ∨ ∃ i ∈ is, ReflTransGen s.Includes i.target k) :
      Fault s path is (.cyclicDependency names)

theorem Cycle.transGen {keys : List FragmentKey} {names : List String} (h : s.Cycle keys names) :
    ∃ k ∈ keys, TransGen s.Includes k k := by
  obtain ⟨hnamed, hchain, hclosed, -, hlength⟩ := h
  rw [← hnamed.length_eq] at hlength
  match keys with
  | k :: x :: keys =>
    obtain ⟨hstep, hrest⟩ := List.isChain_cons_cons.1 hchain
    have hlast : (x :: keys).getLast (List.cons_ne_nil x keys) = k := by
      have := hclosed.symm
      rw [List.head?_cons, List.getLast?_cons_cons, List.getLast?_eq_some_getLast (List.cons_ne_nil x keys)] at this
      exact Option.some.inj this
    exact ⟨k, List.mem_cons_self, .head' hstep (List.relationReflTransGen_of_exists_isChain_cons keys hrest hlast)⟩

/-- The path back to a target that occurs on it is a cycle. -/
theorem Trail.cycle {is : List Include} {i : Include} (h : s.Trail path is) (hi : i ∈ is) (hp : i.target ∈ path) :
    ∃ keys, s.Cycle keys (s.cycleNames path i.target) ∧ ∀ k ∈ keys, k ∈ path := by
  obtain ⟨front, back, rfl, hfront⟩ := List.eq_append_cons_of_mem hp
  have hback : (front ++ i.target :: back).dropWhile (· ≠ i.target) = i.target :: back := by
    rw [List.dropWhile_append_of_pos fun k hk => by simpa using fun he : k = i.target => hfront (he ▸ hk)]
    exact List.dropWhile_cons_of_neg (by simp)
  have hmem : ∀ k ∈ i.target :: back ++ [i.target], k ∈ front ++ i.target :: back := by
    intro k hk
    rcases List.mem_append.1 hk with hk | hk
    · exact List.mem_append_right front hk
    · exact List.mem_singleton.1 hk ▸ hp
  refine ⟨i.target :: back ++ [i.target], ⟨?_, ?_, ?_, ?_, ?_⟩, hmem⟩
  · rw [cycleNames, hback, List.forall₂_map_right_iff]
    refine List.forall₂_same.2 fun k hk => ?_
    obtain ⟨f, hf⟩ := h.stored k (hmem k hk)
    exact ⟨f, hf, (displayName_of_get? hf).symm⟩
  · refine h.chain.right_of_append.append (.singleton i.target) fun k hk x hx => ?_
    cases hx
    exact h.last k (by rwa [List.getLast?_append_cons]) i hi
  · rw [List.getLast?_concat]
    rfl
  · rw [cycleNames, hback, List.map_append, List.map_singleton, List.getLast?_concat]
    rfl
  · rw [cycleNames, hback]
    simp

/-- What is at fault inside an include is at fault around it. -/
theorem Fault.of_enter {i : Include} {more : List Include} {e : ShaderError} (hf : s.get? i.target = some f)
    (h : s.Fault (path ++ [i.target]) f.includes e) : s.Fault path (i :: more) e := by
  have around : ∀ x, (∃ j ∈ f.includes, ReflTransGen s.Includes j.target x) →
      ∃ j ∈ i :: more, ReflTransGen s.Includes j.target x := by
    rintro x ⟨j, hj, hx⟩
    exact ⟨i, List.mem_cons_self, .head ⟨f, hf, List.mem_map_of_mem hj⟩ hx⟩
  cases h with
  | dangling hx hnone => exact .dangling (around _ hx) hnone
  | cyclic hc hk =>
    refine .cyclic hc fun k hm => ?_
    rcases hk k hm with hm | hm
    · rcases List.mem_append.1 hm with hm | hm
      · exact Or.inl hm
      · exact Or.inr ⟨i, List.mem_cons_self, List.mem_singleton.1 hm ▸ .refl⟩
    · exact Or.inr (around k hm)

theorem Fault.of_more {i : Include} {more : List Include} {e : ShaderError} (h : s.Fault path more e) :
    s.Fault path (i :: more) e := by
  cases h with
  | dangling hx hnone => exact .dangling (List.exists_mem_cons_of_exists hx) hnone
  | cyclic hc hk => exact .cyclic hc fun k hm => (hk k hm).imp_right List.exists_mem_cons_of_exists

theorem fault_of_expand {start : Nat} {rest : Text} {is : List Include} (h : s.Trail path is) {e : ShaderError}
    (he : s.expand path start rest is = .error e) : s.Fault path is e := by
  fun_induction expand s path start rest is with
  | case1 => cases he
  | case2 path start rest i more hp =>
    cases he
    obtain ⟨keys, hc, hk⟩ := h.cycle List.mem_cons_self hp
    exact .cyclic hc fun k hm => Or.inl (hk k hm)
  | case3 path start rest i more hp hnone =>
    cases he
    exact .dangling ⟨i, List.mem_cons_self, .refl⟩ (Option.isSome_eq_false_iff.2 (Option.isNone_iff_eq_none.2 hnone))
  | case4 path start rest i more hp f hf e' hin ihf =>
    cases he
    exact .of_enter hf (ihf (h.enter List.mem_cons_self hp hf) hin)
  | case5 path start rest i more hp f hf inner hin e' hout ihf ihm =>
    cases he
    exact .of_more (ihm (h.mono fun j hj => List.mem_cons_of_mem i hj) hout)
  | case6 => cases he

/-! ## Assembly -/

/-- A fragment stands on no path, or on its own if it is stored. -/
def Starts (s : FragmentStore) (path : List FragmentKey) (f : Fragment) : Prop :=
  ∀ k ∈ path, path = [k] ∧ s.get? k = some f

theorem Starts.trail (h : s.Starts path f) : s.Trail path f.includes := by
  cases path with
  | nil => exact .nil s f.includes
  | cons k path =>
    obtain ⟨hpath, hf⟩ := h k List.mem_cons_self
    rw [hpath]
    exact .singleton hf

theorem exists_include_iff {P : FragmentKey → Prop} : (∃ i ∈ f.includes, P i.target) ↔ ∃ k ∈ f.targets, P k := by
  simp only [Fragment.targets, List.mem_map, exists_exists_and_eq_and]

/-- What a fragment is assembled to, where it stands on `path`. -/
structure Assembly (s : FragmentStore) (path : List FragmentKey) (f : Fragment) (r : Except ShaderError Text) :
    Prop where
  depth : ∀ path' g, ReflTransGen s.Enters (path, f) (path', g) → path'.length ≤ s.size
  succeeds : (∃ t, r = .ok t) ↔ ∀ x, s.Reaches f x → s.contains x = true ∧ ¬ TransGen s.Includes x x
  text : s.Placed → f.Placed → ∀ t, r = .ok t ↔ s.Splice 0 f.text f.includes t
  fails : ∀ e, r = .error e →
    (∃ x, e = .danglingFragment x ∧ s.Reaches f x ∧ s.contains x = false) ∨
      ∃ keys names, e = .cyclicDependency names ∧ s.Cycle keys names ∧ ∀ k ∈ keys, k ∈ path ∨ s.Reaches f k

/-- A fragment that is grounded does not lead back to its own path. -/
theorem Starts.not_reaches (h : s.Starts path f) (hg : ∀ i ∈ f.includes, s.Grounded i.target) :
    ∀ k ∈ path, ∀ i ∈ f.includes, ¬ ReflTransGen s.Includes i.target k := by
  intro k hk i hi hik
  obtain ⟨-, hf⟩ := h k hk
  have hground : s.Grounded k := .mk hf (List.forall_mem_map.2 hg)
  exact hground.acyclic (.head' ⟨f, hf, List.mem_map_of_mem hi⟩ hik)

theorem assembly_expandFragment (h : s.Starts path f) : s.Assembly path f (s.expandFragment path f) := by
  have hfault : ∀ e, s.expandFragment path f = .error e →
      (∃ x, e = .danglingFragment x ∧ s.Reaches f x ∧ s.contains x = false) ∨
        ∃ keys names, e = .cyclicDependency names ∧ s.Cycle keys names ∧ ∀ k ∈ keys, k ∈ path ∨ s.Reaches f k := by
    intro e he
    cases fault_of_expand h.trail he with
    | dangling hx hnone => exact Or.inl ⟨_, rfl, exists_include_iff.1 hx, hnone⟩
    | cyclic hc hk => exact Or.inr ⟨_, _, rfl, hc, fun k hm => (hk k hm).imp_right exists_include_iff.1⟩
  refine ⟨fun path' g hg => (h.trail.enters (p := (path, f)) hg).length_le, ⟨?_, fun hall => ?_⟩,
    fun hs hplaced t => ⟨fun ht => splice_of_expand hs hplaced ht, fun ht => ?_⟩, hfault⟩
  · rintro ⟨t, ht⟩ x ⟨k, hk, hx⟩
    obtain ⟨i, hi, rfl⟩ := List.mem_map.1 hk
    have hground := (grounded_of_expand ht i hi).of_reaches hx
    exact ⟨hground.contains, hground.acyclic⟩
  · cases he : s.expandFragment path f with
    | ok t => exact ⟨t, rfl⟩
    | error e =>
      rcases hfault e he with ⟨x, -, hx, hnone⟩ | ⟨keys, names, -, hc, hk⟩
      · rw [(hall x hx).1] at hnone
        cases hnone
      · obtain ⟨k, hm, hcycle⟩ := hc.transGen
        refine absurd hcycle (hall k ?_).2
        rcases hk k hm with hm | hx
        · exact reaches_of_transGen (h k hm).2 hcycle
        · exact hx
  · exact expand_of_splice ht (h.not_reaches ht.grounded)

/-- The path that a fragment stands on at first. `home` is the key of the table entry that it is, if it is one. -/
def startPath (s : FragmentStore) (f : Fragment) (home : Option FragmentKey) : List FragmentKey :=
  match s.find? f.name with
  | none => []
  | some k => if home = some k then [k] else []

theorem assembleFragment_eq (s : FragmentStore) (f : Fragment) (home : Option FragmentKey) :
    s.assembleFragment f home = s.expandFragment (s.startPath f home) f := by
  unfold assembleFragment startPath
  cases s.find? f.name <;> rfl

theorem starts_startPath {home : Option FragmentKey} (h : ∀ k ∈ home, s.get? k = some f) :
    s.Starts (s.startPath f home) f := by
  unfold startPath
  split
  · exact fun k hk => absurd hk List.not_mem_nil
  · next k _ =>
    split
    · next hk =>
      intro x hx
      rw [List.mem_singleton.1 hx]
      exact ⟨rfl, h k hk⟩
    · exact fun x hx => absurd hx List.not_mem_nil

end FragmentStore

open FragmentStore in
/-- For every table, whatever its fragments include, and every fragment, stored or not: assembling ends, as nested
expansions are never deeper than the table is long. It succeeds just if everything that is reached is stored and no
cycle is reached. Where includes are placed, as in all fragments that are made from parts or scanned, the text is the
splice of the fragment then, with every include expanded on its own. Else the error names a key that is reached and not
stored, or the fragments of a cycle that is reached, from one of them back to it. A key that is not stored is reported
itself. -/
theorem assembly_exact (s : FragmentStore) :
    (∀ f home, (∀ k ∈ home, s.get? k = some f) → s.Assembly (s.startPath f home) f (s.assembleFragment f home)) ∧
    (∀ k f, s.get? k = some f → s.Assembly [k] f (s.assemble k)) ∧
      ∀ k, s.get? k = none → s.assemble k = .error (.danglingFragment k) := by
  refine ⟨fun f home h => ?_, fun k f hf => ?_, fun k hk => ?_⟩
  · rw [assembleFragment_eq]
    exact assembly_expandFragment (starts_startPath h)
  · have hstart : s.Starts [k] f := fun x hx => by
      rw [List.mem_singleton.1 hx]
      exact ⟨rfl, hf⟩
    rw [assemble, hf]
    exact assembly_expandFragment hstart
  · rw [assemble, hk]

def twinFragment : Fragment := ⟨"twin", ['[', '|', ']'], [⟨⟨3, 1⟩, 1⟩, ⟨⟨3, 1⟩, 2⟩], [], .zero⟩

theorem placed_twinFragment : twinFragment.Placed := by
  refine ⟨fun i hi => ?_, by simp [twinFragment]⟩
  rcases List.mem_pair.1 hi with rfl | rfl
  · exact ⟨['['], List.prefix_append ['['] _, rfl⟩
  · exact ⟨['[', '|'], List.prefix_append ['[', '|'] _, rfl⟩

/-- Two fragments that include each other, one that another one includes twice, and one that is to go. -/
def loopFragments : List Fragment :=
  [.ofParts "a" ['a'] [], .ofParts "b" ['b'] [⟨⟨1, 1⟩, 1⟩], .ofParts "a" ['a'] [⟨⟨2, 1⟩, 1⟩],
    .ofParts "u" ['u', ';'] [], twinFragment, .ofParts "gone" [] [], .ofParts "late" [] [⟨⟨5, 1⟩, 0⟩]]

def loopStore : FragmentStore := ((FragmentStore.empty.insertAll loopFragments).remove ⟨5, 1⟩).2

theorem placed_loopStore : loopStore.Placed := by
  refine FragmentStore.Placed.remove (FragmentStore.placed_empty.insertAll fun f hf => ?_) ⟨5, 1⟩
  simp only [loopFragments, List.mem_cons, List.not_mem_nil, or_false] at hf
  rcases hf with rfl | rfl | rfl | rfl | rfl | rfl | rfl
  all_goals first | exact placed_twinFragment | exact Fragment.placed_ofParts _ _ _

/-- What is included twice is expanded twice. The two that include each other are a cycle, also for a fragment outside
the table, and an include that is gone is reported. -/
theorem assembly_exact_loopStore :
    loopStore.Splice 0 twinFragment.text twinFragment.includes ['[', 'u', ';', '|', 'u', ';', ']'] ∧
    (∃ keys, loopStore.Cycle keys ["a", "b", "a"]) ∧
    loopStore.assembleFragment (.ofParts "b" [] [⟨⟨2, 1⟩, 0⟩]) none = .error (.cyclicDependency ["b", "a", "b"]) ∧
      ∃ f, loopStore.get? ⟨6, 1⟩ = some f ∧ loopStore.Reaches f ⟨5, 1⟩ ∧ loopStore.contains ⟨5, 1⟩ = false := by
  have hrun : loopStore.get? ⟨4, 1⟩ = some twinFragment ∧
      loopStore.assemble ⟨4, 1⟩ = .ok ['[', 'u', ';', '|', 'u', ';', ']'] ∧
      loopStore.assemble ⟨1, 1⟩ = .error (.cyclicDependency ["a", "b", "a"]) ∧
      loopStore.assembleFragment (.ofParts "b" [] [⟨⟨2, 1⟩, 0⟩]) none = .error (.cyclicDependency ["b", "a", "b"]) ∧
      loopStore.assemble ⟨6, 1⟩ = .error (.danglingFragment ⟨5, 1⟩) ∧ (loopStore.get? ⟨1, 1⟩).isSome ∧
        (loopStore.get? ⟨6, 1⟩).isSome := by
    decide +kernel
  obtain ⟨htwin, htext, hloop, houtside, hlate, ha, hl⟩ := hrun
  obtain ⟨-, hstored, -⟩ := assembly_exact loopStore
  obtain ⟨a, ha⟩ := Option.isSome_iff_exists.1 ha
  obtain ⟨late, hl⟩ := Option.isSome_iff_exists.1 hl
  refine ⟨((hstored _ _ htwin).text placed_loopStore placed_twinFragment _).1 htext, ?_, houtside, late, hl, ?_⟩
  · rcases (hstored _ a ha).fails _ hloop with ⟨x, hx, -⟩ | ⟨keys, names, hnames, hc, -⟩
    · cases hx
    · cases hnames
      exact ⟨keys, hc⟩
  · rcases (hstored _ late hl).fails _ hlate with ⟨x, hx, hreach⟩ | ⟨keys, names, hnames, -⟩
    · cases hx
      exact hreach
    · cases hnames

end ShaderVariant
