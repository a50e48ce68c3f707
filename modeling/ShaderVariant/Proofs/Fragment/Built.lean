import ShaderVariant.Proofs.Fragment.Expansion

/-!
# Tables that are built by operations

* `FragmentStore.Built` : tables that insertion, new content and removal lead to, in any order;
* `Built.named` : their names are in order, so a stored fragment is found under its own name;
* `assembly_entries_agree` : a stored fragment is assembled alike by its key and as an object, and the name of a
  fragment outside the table does not matter.
-/

namespace ShaderVariant

namespace FragmentStore

inductive Built : FragmentStore → Prop
  | empty : Built empty
  | insert {s : FragmentStore} (h : Built s) (f : Fragment) : Built (s.insert f).2
  | replaceContent {s t : FragmentStore} {k : FragmentKey} {f : Fragment} (h : Built s)
      (he : s.replaceContent k f = .ok t) : Built t
  | remove {s : FragmentStore} (h : Built s) (k : FragmentKey) : Built (s.remove k).2

variable {s : FragmentStore}

theorem Built.insertAll (h : s.Built) (fs : List Fragment) : (s.insertAll fs).Built := by
  induction fs generalizing s with
  | nil => exact h
  | cons f fs ih => exact ih (h.insert f)

/-- A fragment gets a new key only if its name is free. -/
theorem Named.insert (h : Named s) (f : Fragment) : Named (s.insert f).2 := by
  unfold FragmentStore.insert
  split
  · next hfree => exact h.insertNew hfree
  · next k hk =>
    have hstored := h.contains_of_find? hk
    rw [if_pos hstored]
    exact h.replaceContent (if_pos hstored)

theorem Built.named (h : s.Built) : Named s := by
  induction h with
  | empty => exact WellFormed.empty.named
  | insert _ f ih => exact ih.insert f
  | replaceContent _ he ih => exact ih.replaceContent he
  | remove _ k ih => exact ih.remove k

theorem Named.startPath_of_get? (h : Named s) {k : FragmentKey} {f : Fragment} (hf : s.get? k = some f) :
    s.startPath f (some k) = [k] := by
  unfold startPath
  rw [h.find?_of_get? hf]
  exact if_pos rfl

theorem startPath_none (s : FragmentStore) (f : Fragment) : s.startPath f none = [] := by
  unfold startPath
  split
  · rfl
  · exact if_neg (by simp)

end FragmentStore

open FragmentStore in
/-- In every table that insertions, replacements and removals lead to, a stored fragment is assembled to the same text
or the same error, whether it is asked for by its key or given as the object that is stored. A fragment outside the
table is assembled alike under every name. So no name makes a cycle: a cycle that is reported of it is one of stored
fragments that it reaches, each of which includes the next one. -/
theorem assembly_entries_agree {s : FragmentStore} (h : s.Built) :
    (∀ k f, s.get? k = some f → s.assembleFragment f (some k) = s.assemble k) ∧
    (∀ f name, s.assembleFragment { f with name } none = s.assembleFragment f none) ∧
      ∀ f names, s.assembleFragment f none = .error (.cyclicDependency names) →
        ∃ keys, s.Cycle keys names ∧ ∀ k ∈ keys, s.Reaches f k := by
  refine ⟨fun k f hf => ?_, fun f name => ?_, fun f names he => ?_⟩
  · rw [assembleFragment_eq, h.named.startPath_of_get? hf, assemble, hf]
  · rw [assembleFragment_none, assembleFragment_none]
  · have hstart : s.Starts (s.startPath f none) f := starts_startPath fun _ hk => by cases hk
    have hassembly := assembly_expandFragment hstart
    rw [← assembleFragment_eq, startPath_none] at hassembly
    rcases hassembly.fails _ he with ⟨x, hx, -⟩ | ⟨keys, names', hnames, hc, hk⟩
    · cases hx
    · cases hnames
      exact ⟨keys, hc, fun k hm => (hk k hm).resolve_left List.not_mem_nil⟩

open FragmentStore in
/-- A section named like a fragment that it includes is no cycle. One that includes a loop is told of the loop, and a
stored fragment of the loop is told the same by its key and as an object. -/
theorem assembly_entries_agree_loopStore :
    loopStore.assembleFragment (.ofParts "u" ['v'] [⟨⟨3, 1⟩, 1⟩]) none = .ok ['v', 'u', ';'] ∧
    (∃ f, loopStore.get? ⟨1, 1⟩ = some f ∧
      loopStore.assembleFragment f (some ⟨1, 1⟩) = .error (.cyclicDependency ["a", "b", "a"])) ∧
      ∃ keys, loopStore.Cycle keys ["b", "a", "b"] := by
  have hrun : loopStore.assembleFragment (.ofParts "v" ['v'] [⟨⟨3, 1⟩, 1⟩]) none = .ok ['v', 'u', ';'] ∧
      loopStore.assemble ⟨1, 1⟩ = .error (.cyclicDependency ["a", "b", "a"]) ∧
      loopStore.assembleFragment (.ofParts "b" [] [⟨⟨2, 1⟩, 0⟩]) none = .error (.cyclicDependency ["b", "a", "b"]) ∧
        (loopStore.get? ⟨1, 1⟩).isSome := by
    decide +kernel
  obtain ⟨htext, hloop, hsection, ha⟩ := hrun
  have hbuilt : loopStore.Built := (Built.empty.insertAll loopFragments).remove ⟨5, 1⟩
  obtain ⟨hsame, hname, hcycle⟩ := assembly_entries_agree hbuilt
  obtain ⟨a, ha⟩ := Option.isSome_iff_exists.1 ha
  obtain ⟨keys, hc, -⟩ := hcycle _ _ hsection
  exact ⟨(hname (.ofParts "v" ['v'] [⟨⟨3, 1⟩, 1⟩]) "u").trans htext, ⟨a, ha, (hsame _ a ha).trans hloop⟩, keys, hc⟩

end ShaderVariant
