import ShaderVariant.Fragment.Assembly
import ShaderVariant.Proofs.Fragment.Walk
import ShaderVariant.Proofs.Table

/-!
# Reach and agreement of fragment tables

* `reaches_of_get?` : new content of a fragment does not change what reaches it;
* `FragmentStore.Agree` : two tables that look the same to what a set of keys reaches
  (`mem_closure_congr`, `flagBits_congr`, `assembleFragment_congr` : all that is read off a fragment stays);
* `assembleFragment_none` : a section is expanded from an empty path.
-/

namespace ShaderVariant.FragmentStore

open Relation (ReflTransGen)

/-! ## Reach -/

/-- What leads to a key does not depend on what the key includes itself. -/
theorem reaches_of_get? {s t : FragmentStore} {k x : FragmentKey} (h : ∀ y, y ≠ k → t.get? y = s.get? y)
    (hx : ReflTransGen s.Includes x k) : ReflTransGen t.Includes x k := by
  induction hx using ReflTransGen.head_induction_on with
  | refl => exact .refl
  | @head y z hstep _ ih =>
    by_cases hy : y = k
    · rw [hy]
    · obtain ⟨f, hf, hz⟩ := hstep
      exact ih.head ⟨f, (h y hy).trans hf, hz⟩

/-! ## Agreement -/

/-- Two tables agree on keys that include only one another. -/
structure Agree (s t : FragmentStore) (S : FragmentKey → Prop) : Prop where
  get? : ∀ k, S k → t.get? k = s.get? k
  closed : ∀ k f, S k → s.get? k = some f → ∀ x ∈ f.targets, S x

/-- The first include of a list, taken apart. -/
theorem expand_cons (s : FragmentStore) (path : List FragmentKey) (start : Nat) (rest : Text) (i : Include)
    (more : List Include) :
    s.expand path start rest (i :: more) =
      if i.target ∈ path then .error (.cyclicDependency (s.cycleNames path i.target))
      else
        match s.get? i.target with
        | none => .error (.danglingFragment i.target)
        | some f =>
          match s.expand (path ++ [i.target]) 0 f.text f.includes with
          | .error e => .error e
          | .ok inner =>
            match s.expand path i.offset (rest.splitBytes (i.offset - start)).2 more with
            | .error e => .error e
            | .ok outer => .ok ((rest.splitBytes (i.offset - start)).1 ++ inner ++ outer) := by
  rw [expand]
  split
  · rfl
  · cases s.get? i.target <;> rfl

namespace Agree

variable {s t : FragmentStore} {S : FragmentKey → Prop}

theorem symm (h : Agree s t S) : Agree t s S :=
  ⟨fun k hk => (h.get? k hk).symm, fun k f hk hf => h.closed k f hk (h.get? k hk ▸ hf)⟩

theorem includes (h : Agree s t S) {k : FragmentKey} {f : Fragment} (hk : S k) (hf : s.get? k = some f) :
    ∀ i ∈ f.includes, S i.target :=
  fun _ hi => h.closed k f hk hf _ (List.mem_map_of_mem hi)

theorem displayName (h : Agree s t S) {k : FragmentKey} (hk : S k) : t.displayName k = s.displayName k := by
  unfold FragmentStore.displayName
  rw [h.get? k hk]

theorem cycleNames (h : Agree s t S) {path : List FragmentKey} {target : FragmentKey} (hp : ∀ k ∈ path, S k)
    (ht : S target) : t.cycleNames path target = s.cycleNames path target := by
  refine List.map_congr_left fun k hk => h.displayName ?_
  rcases List.mem_append.1 hk with hk | hk
  · exact hp k ((List.dropWhile_sublist _).subset hk)
  · exact List.mem_singleton.1 hk ▸ ht

theorem expand_congr (h : Agree s t S) {path : List FragmentKey} {includes : List Include} (start : Nat) (rest : Text)
    (hp : ∀ k ∈ path, S k) (hi : ∀ i ∈ includes, S i.target) :
    t.expand path start rest includes = s.expand path start rest includes := by
  fun_induction expand s path start rest includes with
  | case1 path start rest => rw [expand]
  | case2 path start rest i more hmem =>
    rw [expand_cons, if_pos hmem, h.cycleNames hp (hi i List.mem_cons_self)]
  | case3 path start rest i more hmem hs =>
    rw [expand_cons, if_neg hmem, h.get? _ (hi i List.mem_cons_self), hs]
  | case4 path start rest i more hmem f hs e he ihf =>
    have ht := hi i List.mem_cons_self
    have hpath : ∀ k ∈ path ++ [i.target], S k := List.forall_mem_append.2 ⟨hp, by simpa using ht⟩
    rw [expand_cons, if_neg hmem, h.get? _ ht, hs]
    simp only [ihf hpath (h.includes ht hs), he]
  | case5 path start rest i more hmem f hs inner hin e he ihf ihm =>
    have ht := hi i List.mem_cons_self
    have hpath : ∀ k ∈ path ++ [i.target], S k := List.forall_mem_append.2 ⟨hp, by simpa using ht⟩
    rw [expand_cons, if_neg hmem, h.get? _ ht, hs]
    simp only [ihf hpath (h.includes ht hs), hin, he,
      ihm hp fun j hj => hi j (List.mem_cons_of_mem _ hj)]
  | case6 path start rest i more hmem f hs inner hin outer hout ihf ihm =>
    have ht := hi i List.mem_cons_self
    have hpath : ∀ k ∈ path ++ [i.target], S k := List.forall_mem_append.2 ⟨hp, by simpa using ht⟩
    rw [expand_cons, if_neg hmem, h.get? _ ht, hs]
    simp only [ihf hpath (h.includes ht hs), hin, hout,
      ihm hp fun j hj => hi j (List.mem_cons_of_mem _ hj)]

theorem reaches (h : Agree s t S) {k x : FragmentKey} (hk : S k) (hx : ReflTransGen s.Includes k x) :
    S x ∧ ReflTransGen t.Includes k x := by
  induction hx with
  | refl => exact ⟨hk, .refl⟩
  | tail _ hstep ih =>
    obtain ⟨f, hf, hm⟩ := hstep
    exact ⟨h.closed _ f ih.1 hf _ hm, ih.2.tail ⟨f, (h.get? _ ih.1).trans hf, hm⟩⟩

theorem mem_closure_congr (h : Agree s t S) {keys : List FragmentKey} (hk : ∀ k ∈ keys, S k) (x : FragmentKey) :
    x ∈ t.closure keys ↔ x ∈ s.closure keys := by
  rw [mem_closure_iff, mem_closure_iff]
  constructor
  · rintro ⟨k, hm, hx⟩
    exact ⟨k, hm, (h.symm.reaches (hk k hm) hx).2⟩
  · rintro ⟨k, hm, hx⟩
    exact ⟨k, hm, (h.reaches (hk k hm) hx).2⟩

theorem flagBits_congr (h : Agree s t S) (f : Fragment) (hf : ∀ k ∈ f.targets, S k) (v : Vocabulary) :
    t.flagBits f v = s.flagBits f v := by
  refine Mask.ext_isSet fun i _ => ?_
  have hmem : ∀ g, g ∈ (t.closure f.targets).filterMap t.get? ↔ g ∈ (s.closure f.targets).filterMap s.get? := by
    intro g
    simp only [List.mem_filterMap, h.mem_closure_congr hf]
    refine exists_congr fun k => and_congr_right fun hk => ?_
    obtain ⟨r, hr, hx⟩ := mem_closure_iff.1 hk
    rw [h.get? k (h.reaches (hf r hr) hx).1]
  rw [Bool.eq_iff_iff]
  simp only [flagBits, Mask.isSet_or, Mask.isSet_union, Bool.or_eq_true, List.any_eq_true, List.mem_map,
    exists_exists_and_eq_and, hmem]

end Agree

/-! ## Assembly of sections -/

/-- A fragment outside the table is expanded from an empty path, whatever its name is. -/
theorem assembleFragment_none (s : FragmentStore) (f : Fragment) :
    s.assembleFragment f none = s.expand [] 0 f.text f.includes := by
  unfold assembleFragment expandFragment
  split
  · rfl
  · rw [if_neg (by simp)]

theorem Agree.assembleFragment_congr {s t : FragmentStore} {S : FragmentKey → Prop} (h : Agree s t S) (f : Fragment)
    (hf : ∀ k ∈ f.targets, S k) : t.assembleFragment f none = s.assembleFragment f none := by
  rw [assembleFragment_none, assembleFragment_none]
  exact h.expand_congr 0 f.text (by simp) fun i hi => hf i.target (List.mem_map_of_mem hi)

end ShaderVariant.FragmentStore
