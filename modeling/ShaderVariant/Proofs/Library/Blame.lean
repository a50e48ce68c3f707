import ShaderVariant.Proofs.Library.Closure
import ShaderVariant.Proofs.Source.IncludeLines

/-!
# Include directives that fail

An include that cannot be resolved is a fault of its directive, however deep it stands. Which one is reported can be
told from the sources alone.

* `IncludeSite.walk` : the directives that are followed from some directives, depth first;
* `IncludeSite.fault?` : what is wrong with a directive. Nothing is if its name is seen already, or its source can be
  read and scanned (`fault?_eq_none_iff`);
* `Inclusion.Blames` : resolving fails with the first fault of the walk, or has stored just the names of the walk. It is
  kept by one more directive in front (`Blames.skip`, `Blames.inside`, `Blames.fetched`), and so by all
  (`blames_resolve`).
-/

namespace ShaderVariant

open FragmentStore (WellFormed)
open Inclusion (Fetch Scans scan)

namespace IncludeSite

variable {fault : String → IoError} {sources : Assoc String Bytes} {seen : List String} {d : IncludeSite}
variable {ds : List IncludeSite} {bytes : Bytes} {scanned : Scanned}

/-! ## Depth first -/

def ofSource (name : String) (bytes : Bytes) : List IncludeSite :=
  match decodeSource name bytes with
  | .error _ => []
  | .ok t => ofText name t

theorem length_ofSource_le (name : String) (bytes : Bytes) : (ofSource name bytes).length ≤ bytes.length := by
  unfold ofSource
  split
  · exact Nat.zero_le _
  · next t ht =>
    calc (ofText name t).length ≤ (t.splitLines.zipIdx 1).length := List.length_filterMap_le _ _
      _ = t.splitLines.length := List.length_zipIdx
      _ ≤ t.length := Text.length_splitLines_le t
      _ ≤ bytes.length := length_of_decodeSource ht

/-- Directives in the order in which they are followed: behind a directive come those of the source that it names, the
first time that it is named. `seen` are names that are not followed. -/
def walk (sources : Assoc String Bytes) (seen : List String) : List IncludeSite → List IncludeSite
  | [] => []
  | d :: ds =>
    if d.name ∈ seen then d :: walk sources seen ds
    else
      match _h : sources.get? d.name with
      | none => d :: walk sources seen ds
      | some bytes =>
        let inner := walk (sources.erase d.name) (d.name :: seen) (ofSource d.name bytes)
        d :: (inner ++ walk sources (d.name :: (inner.map (·.name) ++ seen)) ds)
termination_by ds => Inclusion.unread sources + ds.length
decreasing_by
  · exact Nat.lt_succ_self _
  · exact Nat.lt_succ_self _
  · have := Inclusion.unread_erase_lt _h
    have := length_ofSource_le d.name bytes
    rw [List.length_cons]
    omega
  · exact Nat.lt_succ_self _

theorem walk_nil : walk sources seen [] = [] := by rw [walk]

theorem walk_of_mem (h : d.name ∈ seen) : walk sources seen (d :: ds) = d :: walk sources seen ds := by
  rw [walk, if_pos h]

theorem walk_of_none (h : sources.get? d.name = none) : walk sources seen (d :: ds) = d :: walk sources seen ds := by
  rw [walk]
  split
  · rfl
  · split
    · rfl
    · next hb => cases h.symm.trans hb

theorem walk_of_some (hd : d.name ∉ seen) (h : sources.get? d.name = some bytes)
    {inner : List IncludeSite} (hin : walk (sources.erase d.name) (d.name :: seen) (ofSource d.name bytes) = inner) :
    walk sources seen (d :: ds) = d :: (inner ++ walk sources (d.name :: (inner.map (·.name) ++ seen)) ds) := by
  rw [walk, if_neg hd]
  split
  · next hb => cases h.symm.trans hb
  · next hb =>
    cases h.symm.trans hb
    simp only [hin]

/-! ## Faults -/

/-- What is wrong with a directive: its source cannot be read, or it is malformed. -/
def fault? (fault : String → IoError) (sources : Assoc String Bytes) (seen : List String) (d : IncludeSite) :
    Option ShaderError :=
  if d.name ∈ seen then none
  else
    match sources.get? d.name with
    | none => some (.parse ⟨d.file, UInt32.ofNat d.line, .unresolvedInclude d.name (fault d.name)⟩)
    | some bytes =>
      match scan d.name bytes with
      | .error e => some e
      | .ok _ => none

/-- A name that is seen, or whose source can be read and scanned. -/
def Available (sources : Assoc String Bytes) (seen : List String) (n : String) : Prop :=
  n ∈ seen ∨ ∃ scanned, Scans sources n scanned

theorem fault?_of_mem (h : d.name ∈ seen) : fault? fault sources seen d = none := if_pos h

theorem fault?_of_none (hd : d.name ∉ seen) (hb : sources.get? d.name = none) :
    fault? fault sources seen d =
      some (.parse ⟨d.file, UInt32.ofNat d.line, .unresolvedInclude d.name (fault d.name)⟩) := by
  rw [fault?, if_neg hd, hb]

theorem fault?_of_some (hd : d.name ∉ seen) (hb : sources.get? d.name = some bytes) {e : ShaderError}
    (he : scan d.name bytes = .error e) : fault? fault sources seen d = some e := by
  rw [fault?, if_neg hd, hb]
  simp only [he]

theorem fault?_eq_none_iff : fault? fault sources seen d = none ↔ Available sources seen d.name := by
  by_cases hd : d.name ∈ seen
  · exact iff_of_true (fault?_of_mem hd) (.inl hd)
  · unfold Available Scans
    rw [or_iff_right hd, fault?, if_neg hd]
    cases sources.get? d.name with
    | none => simp
    | some bytes => cases hs : scan d.name bytes <;> simp [hs]

/-- Names without a fault may as well be seen already. -/
theorem fault?_congr {seen' : List String} (hsub : ∀ n ∈ seen, n ∈ seen') (h : ∀ n ∈ seen', Available sources seen n)
    (d : IncludeSite) : fault? fault sources seen' d = fault? fault sources seen d := by
  by_cases hd : d.name ∈ seen'
  · rw [fault?_of_mem hd, fault?_eq_none_iff.2 (h _ hd)]
  · rw [fault?, fault?, if_neg hd, if_neg (mt (hsub _) hd)]

/-- The source of a name that is seen does not matter. -/
theorem fault?_erase {n : String} (h : n ∈ seen) (d : IncludeSite) :
    fault? fault (sources.erase n) seen d = fault? fault sources seen d := by
  by_cases hd : d.name ∈ seen
  · rw [fault?_of_mem hd, fault?_of_mem hd]
  · have hne : n ≠ d.name := fun he => hd (he ▸ h)
    rw [fault?, fault?, if_neg hd, if_neg hd, Assoc.get?_erase_of_ne hne]

/-- Faults are the same inside the source of a directive, where that source is set aside and its name is seen. -/
theorem fault?_inner (hb : sources.get? d.name = some bytes) (hs : scan d.name bytes = .ok scanned) :
    (fault? fault (sources.erase d.name) (d.name :: seen) : IncludeSite → Option ShaderError) =
      fault? fault sources seen := by
  funext x
  rw [fault?_erase List.mem_cons_self]
  refine fault?_congr (fun n => List.mem_cons_of_mem _) (fun n hn => ?_) x
  rcases List.mem_cons.1 hn with rfl | hn
  · exact .inr ⟨scanned, bytes, hb, hs⟩
  · exact .inl hn

def firstFault? (fault : String → IoError) (sources : Assoc String Bytes) (seen : List String)
    (ds : List IncludeSite) : Option ShaderError :=
  (walk sources seen ds).findSome? (fault? fault sources seen)

end IncludeSite

namespace Inclusion

open IncludeSite (walk fault? firstFault? Available ofSource)

variable {fault : String → IoError} {sources : Assoc String Bytes} {owner : String} {s t u : Inclusion}
variable {seen : List String} {ds : List IncludeSite} {d : IncludeSite}

/-- What resolving the includes of some directives says of them: it fails with the first fault, or adds just the names
that are walked over. -/
structure Blames (fault : String → IoError) (sources : Assoc String Bytes) (seen : List String)
    (ds : List IncludeSite) (r : Except ShaderError (List FragmentKey)) (t : Inclusion) : Prop where
  fails : ∀ e, r = .error e → firstFault? fault sources seen ds = some e
  succeeds : ∀ ks, r = .ok ks → firstFault? fault sources seen ds = none
  names : ∀ ks, r = .ok ks → ∀ n, t.fragments.Has n ↔ n ∈ (walk sources seen ds).map (·.name) ++ seen

namespace Blames

variable {r : Except ShaderError (List FragmentKey)}

theorem error {e : ShaderError} (h : firstFault? fault sources seen ds = some e) :
    Blames fault sources seen ds (.error e) t :=
  ⟨fun _ he => Except.error.inj he ▸ h, fun _ he => (nomatch he), fun _ he => (nomatch he)⟩

theorem map (h : Blames fault sources seen ds r t) (f : List FragmentKey → List FragmentKey) :
    Blames fault sources seen ds (r.map f) t := by
  cases r with
  | error e => exact .error (h.fails e rfl)
  | ok ks => exact ⟨fun _ he => (nomatch he), fun _ _ => h.succeeds ks rfl, fun _ _ => h.names ks rfl⟩

theorem skip (hd : d.name ∈ seen) (h : Blames fault sources seen ds r t) :
    Blames fault sources seen (d :: ds) r t := by
  have hfirst : firstFault? fault sources seen (d :: ds) = firstFault? fault sources seen ds := by
    unfold firstFault?
    rw [IncludeSite.walk_of_mem hd, List.findSome?_cons, IncludeSite.fault?_of_mem hd]
  refine ⟨fun e he => hfirst.trans (h.fails e he), fun ks hks => hfirst.trans (h.succeeds ks hks), fun ks hks n => ?_⟩
  rw [h.names ks hks n, IncludeSite.walk_of_mem hd, List.map_cons, List.cons_append, List.mem_cons]
  refine ⟨.inr, ?_⟩
  rintro (rfl | hn)
  · exact List.mem_append_right _ hd
  · exact hn

theorem inside {bytes : Bytes} {scanned : Scanned} (hd : d.name ∉ seen) (hb : sources.get? d.name = some bytes)
    (hs : scan d.name bytes = .ok scanned) {e : ShaderError}
    (h : Blames fault (sources.erase d.name) (d.name :: seen) (ofSource d.name bytes) (.error e) t) :
    Blames fault sources seen (d :: ds) (.error e) u := by
  have hfirst := h.fails e rfl
  refine .error ?_
  unfold firstFault? at hfirst ⊢
  rw [IncludeSite.fault?_inner hb hs] at hfirst
  rw [IncludeSite.walk_of_some hd hb rfl, List.findSome?_cons,
    IncludeSite.fault?_eq_none_iff.2 (.inr ⟨scanned, bytes, hb, hs⟩)]
  simp only [List.findSome?_append, hfirst, Option.some_or]

theorem fetched {bytes : Bytes} {scanned : Scanned} (hd : d.name ∉ seen) (hb : sources.get? d.name = some bytes)
    (hs : scan d.name bytes = .ok scanned) {targets : List FragmentKey} {inner : List IncludeSite}
    (hin : walk (sources.erase d.name) (d.name :: seen) (ofSource d.name bytes) = inner)
    (h : Blames fault (sources.erase d.name) (d.name :: seen) (ofSource d.name bytes) (.ok targets) t)
    (h' : Blames fault sources (d.name :: (inner.map (·.name) ++ seen)) ds r u) :
    Blames fault sources seen (d :: ds) r u := by
  have hself : Available sources seen d.name := .inr ⟨scanned, bytes, hb, hs⟩
  have hnone : inner.findSome? (fault? fault sources seen) = none := by
    rw [← IncludeSite.fault?_inner hb hs, ← hin]
    exact h.succeeds targets rfl
  have havailable : ∀ n ∈ d.name :: (inner.map (·.name) ++ seen), Available sources seen n := by
    intro n hn
    rcases List.mem_cons.1 hn with rfl | hn
    · exact hself
    · rcases List.mem_append.1 hn with hn | hn
      · obtain ⟨x, hx, rfl⟩ := List.mem_map.1 hn
        exact IncludeSite.fault?_eq_none_iff.1 (List.findSome?_eq_none_iff.1 hnone x hx)
      · exact .inl hn
  have hrest : (fault? fault sources (d.name :: (inner.map (·.name) ++ seen)) : IncludeSite → Option ShaderError) =
      fault? fault sources seen :=
    funext (IncludeSite.fault?_congr (fun n hn => List.mem_cons_of_mem _ (List.mem_append_right _ hn)) havailable)
  have hfirst : firstFault? fault sources seen (d :: ds) =
      firstFault? fault sources (d.name :: (inner.map (·.name) ++ seen)) ds := by
    unfold firstFault?
    rw [IncludeSite.walk_of_some hd hb hin, List.findSome?_cons, IncludeSite.fault?_eq_none_iff.2 hself, hrest]
    simp only [List.findSome?_append, hnone, Option.none_or]
  refine ⟨fun e he => hfirst.trans (h'.fails e he), fun ks hks => hfirst.trans (h'.succeeds ks hks), fun ks hks n => ?_⟩
  rw [h'.names ks hks n, IncludeSite.walk_of_some hd hb hin]
  simp only [List.map_cons, List.map_append, List.mem_append, List.mem_cons]
  tauto

end Blames

theorem marks_of_scan {name : String} {bytes : Bytes} {scanned : Scanned} (h : scan name bytes = .ok scanned) :
    scanned.includes.map PendingInclude.mark = (IncludeSite.ofSource name bytes).map IncludeSite.mark := by
  unfold scan at h
  unfold IncludeSite.ofSource
  cases hd : decodeSource name bytes with
  | error e =>
    rw [hd] at h
    cases h
  | ok t =>
    simp only [hd] at h
    cases ht : Scanned.ofText name t 1 with
    | error e =>
      rw [ht] at h
      cases h
    | ok scanned' =>
      rw [ht] at h
      cases h
      rw [Scanned.marks_of_ofText ht]
      exact (map_mark_ofLines name t.splitLines 1).symm

theorem file_of_mem_ofSource {name : String} {bytes : Bytes} :
    ∀ d ∈ IncludeSite.ofSource name bytes, d.file = name := by
  intro d hd
  unfold IncludeSite.ofSource at hd
  split at hd
  · exact absurd hd List.not_mem_nil
  · exact (IncludeSite.mem_ofText_iff.1 hd).1

theorem exists_of_marks {i : PendingInclude} {more : List PendingInclude}
    (h : (i :: more).map PendingInclude.mark = ds.map IncludeSite.mark) :
    ∃ d ds', ds = d :: ds' ∧ i.name = d.name ∧ i.line = UInt32.ofNat d.line ∧
      more.map PendingInclude.mark = ds'.map IncludeSite.mark := by
  obtain ⟨d, ds', rfl, hd, hmore⟩ := List.map_eq_cons_iff.1 h.symm
  obtain ⟨hname, hline⟩ := Prod.mk.inj hd
  exact ⟨d, ds', rfl, hname.symm, hline.symm, hmore.symm⟩

/-- Resolving follows the directives depth first. What is stored are the names that are seen. -/
theorem blames_resolve (fault : String → IoError) (sources : Assoc String Bytes) (hw : WellFormed s.fragments)
    (hseen : ∀ n, s.fragments.Has n ↔ n ∈ seen) {includes : List PendingInclude}
    (hmarks : includes.map PendingInclude.mark = ds.map IncludeSite.mark) (hfile : ∀ d ∈ ds, d.file = owner) :
    Blames fault sources seen ds (s.resolve fault sources owner includes).1
      (s.resolve fault sources owner includes).2 := by
  have hnew : ∀ {s : Inclusion} {seen : List String} {n : String}, (∀ n, s.fragments.Has n ↔ n ∈ seen) →
      s.fragments.find? n = none → n ∉ seen :=
    fun hseen hn hm => FragmentStore.not_has_iff.2 hn ((hseen _).2 hm)
  -- Along the recursion the stored names are the names that are seen, so both sides skip the same directives.
  fun_induction resolve fault sources owner s includes generalizing seen ds with
  | case1 sources owner s =>
    cases List.map_eq_nil_iff.1 hmarks.symm
    have hwalk : walk sources seen [] = [] := IncludeSite.walk_nil
    refine ⟨fun _ he => (by cases he), fun _ _ => ?_, fun _ _ n => ?_⟩
    · rw [firstFault?, hwalk, List.findSome?_nil]
    · rw [hwalk, List.map_nil, List.nil_append]
      exact hseen n
  | case2 sources owner s i more k hfind r t he ih
  | case3 sources owner s i more k hfind r t he ih =>
    obtain ⟨d, ds, rfl, hname, -, hmore⟩ := exists_of_marks hmarks
    have hrest := ih hw hseen hmore fun x hx => hfile x (List.mem_cons_of_mem d hx)
    rw [he] at hrest
    have hd : d.name ∈ seen := hname ▸ (hseen _).1 ⟨k, hfind⟩
    exact (hrest.skip hd).map (k :: ·)
  | case4 sources owner s i more hfind hsource =>
    obtain ⟨d, ds, rfl, hname, hline, -⟩ := exists_of_marks hmarks
    have hd := hnew hseen hfind
    rw [hname] at hd hsource
    refine .error ?_
    rw [hname, hline, ← hfile d List.mem_cons_self, firstFault?, IncludeSite.walk_of_none hsource, List.findSome?_cons,
      IncludeSite.fault?_of_none hd hsource]
  | case5 sources owner s i more hfind bytes hsource e hscan =>
    obtain ⟨d, ds, rfl, hname, -, -⟩ := exists_of_marks hmarks
    have hd := hnew hseen hfind
    rw [hname] at hd hsource hscan
    refine .error ?_
    rw [firstFault?, IncludeSite.walk_of_some hd hsource rfl, List.findSome?_cons,
      IncludeSite.fault?_of_some hd hsource hscan]
  | case6 sources owner s i more hfind bytes hsource scanned hscan k s₁ hreg e t he ih =>
    obtain ⟨d, ds, rfl, hname, -, -⟩ := exists_of_marks hmarks
    have hd := hnew hseen hfind
    obtain ⟨hw₁, -, -⟩ := register_spec (s := s.noteRead) hw hfind hreg
    have hseen₁ : ∀ n, s₁.fragments.Has n ↔ n ∈ i.name :: seen := fun n => by
      rw [has_register hfind hreg, hseen, List.mem_cons, eq_comm]
    have hin := ih hw₁ hseen₁ (marks_of_scan hscan) file_of_mem_ofSource
    rw [he] at hin
    rw [hname] at hd hsource hscan hin
    exact hin.inside hd hsource hscan
  | case7 sources owner s i more hfind bytes hsource scanned hscan k s₁ hreg targets s₂ hr e hfill ih =>
    obtain ⟨v, hv⟩ := exists_fill hw hfind hreg hr (.ofScanned i.name scanned targets)
    cases hfill.symm.trans hv
  | case8 sources owner s i more hfind bytes hsource scanned hscan k s₁ hreg targets s₂ hr s₃ hfill r t he ihn ihm
  | case9 sources owner s i more hfind bytes hsource scanned hscan k s₁ hreg targets s₂ hr s₃ hfill r t he ihn ihm =>
    obtain ⟨d, ds, rfl, hname, -, hmore⟩ := exists_of_marks hmarks
    have hd := hnew hseen hfind
    have hf : Fetch fault sources s i.name scanned k s₁ targets s₂ s₃ :=
      ⟨hfind, ⟨bytes, hsource, hscan⟩, hreg, hr, hfill⟩
    have hseen₁ : ∀ n, s₁.fragments.Has n ↔ n ∈ i.name :: seen := fun n => by
      rw [has_register hfind hreg, hseen, List.mem_cons, eq_comm]
    have hin := ihn (hf.wf_registered hw) hseen₁ (marks_of_scan hscan) file_of_mem_ofSource
    rw [hr] at hin
    rw [hname] at hd hsource hscan hin
    have hseen₃ : ∀ n, s₃.fragments.Has n ↔ n ∈ d.name ::
        ((walk (sources.erase d.name) (d.name :: seen) (ofSource d.name bytes)).map (·.name) ++ seen) := fun n => by
      rw [has_fill hfill, hin.names targets rfl, List.mem_cons, List.mem_append, List.mem_append, List.mem_cons,
        or_left_comm]
    have hrest := ihm (hf.wf hw) hseen₃ hmore fun x hx => hfile x (List.mem_cons_of_mem d hx)
    rw [he] at hrest
    exact (hin.fetched hd hsource hscan rfl hrest).map (k :: ·)

end Inclusion

end ShaderVariant
