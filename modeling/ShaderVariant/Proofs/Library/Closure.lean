import ShaderVariant.Proofs.Library.Draft
import ShaderVariant.Proofs.Library.Reachable
import ShaderVariant.Proofs.Library.Reading

/-!
# Closure of loading

Loading a shader loads what its sections include, directly or through other fragments.

* `Library.shaderIncludes` : the includes of all sections of a shader source, which are resolved one after another
  (`resolveSections_flatten`);
* `Library.Closed` : the table before, with just the names that the includes lead to;
* `load_closed` : loading a shader under a new name ends. When it succeeds it closes the table, and reads every source
  once.
-/

namespace ShaderVariant

open FragmentStore (WellFormed Keeps)
open Inclusion (Reading Scans FromSource)
open Relation (ReflTransGen)

namespace Inclusion

variable {fault : String → IoError} {sources : Assoc String Bytes} {owner : String} {s t : Inclusion}

theorem resolve_append (fault : String → IoError) (sources : Assoc String Bytes) (owner : String) (s : Inclusion)
    (first more : List PendingInclude) :
    s.resolve fault sources owner (first ++ more) =
      match s.resolve fault sources owner first with
      | (.error e, t) => (.error e, t)
      | (.ok ks, t) =>
        ((t.resolve fault sources owner more).1.map (ks ++ ·), (t.resolve fault sources owner more).2) := by
  induction first generalizing s with
  | nil =>
    rw [resolve, List.nil_append]
    rcases hr : s.resolve fault sources owner more with ⟨_ | _, _⟩ <;> simp [hr, Except.map]
  | cons i first ih =>
    have hrest : ∀ (k : FragmentKey) (s : Inclusion), consKey k (s.resolve fault sources owner (first ++ more)) =
        match consKey k (s.resolve fault sources owner first) with
        | (.error e, t) => (.error e, t)
        | (.ok ks, t) =>
          ((t.resolve fault sources owner more).1.map (ks ++ ·), (t.resolve fault sources owner more).2) := by
      intro k s
      rw [ih s]
      rcases s.resolve fault sources owner first with ⟨e | ks, t⟩
      · rfl
      · simp only [consKey, Except.map]
        rcases t.resolve fault sources owner more with ⟨_ | _, _⟩ <;> rfl
    rw [List.cons_append, resolve_cons, resolve_cons]
    cases s.fragments.find? i.name with
    | some k => exact hrest k s
    | none =>
      cases sources.get? i.name with
      | none => rfl
      | some bytes =>
        simp only
        cases scan i.name bytes with
        | error e => rfl
        | ok scanned =>
          rcases s.noteRead.register i.name with ⟨k, t⟩
          simp only
          rcases t.resolve fault (sources.erase i.name) i.name scanned.includes with ⟨e | targets, u⟩
          · rfl
          · simp only
            cases u.fill k (.ofScanned i.name scanned targets) with
            | error e => rfl
            | ok v => exact hrest k v

end Inclusion

def ShaderSource.includes (source : ShaderSource) : List PendingInclude := source.sections.flatMap (·.source.includes)

namespace Library

variable {l l' : Library} {name : String}

/-- The sections of a shader are resolved like one long list of includes. -/
theorem resolveSections_flatten (l : Library) (owner : String) (s : Inclusion) (sections : List CodeSection) :
    (l.resolveSections owner s sections).1.map (fun _ => ()) =
        (l.resolve owner s (sections.flatMap (·.source.includes))).1.map (fun _ => ()) ∧
      (l.resolveSections owner s sections).2 = (l.resolve owner s (sections.flatMap (·.source.includes))).2 := by
  induction sections generalizing s with
  | nil =>
    rw [List.flatMap_nil, resolve, Inclusion.resolve]
    exact ⟨rfl, rfl⟩
  | cons c cs ih =>
    rw [List.flatMap_cons, resolve, Inclusion.resolve_append, resolveSections_cons]
    rcases s.resolve l.loader.fault l.loader.sources owner c.source.includes with ⟨e | targets, t⟩
    · exact ⟨rfl, rfl⟩
    · obtain ⟨hr, ht⟩ := ih t
      have hmap : ∀ {α β : Type} (r : Except ShaderError α) (f : α → β),
          (r.map f).map (fun _ => ()) = r.map fun _ => () := by
        rintro α β (_ | _) f <;> rfl
      refine ⟨?_, ht⟩
      rw [hmap, hmap]
      exact hr

def shaderSource? (l : Library) (name : String) : Option ShaderSource :=
  (l.loader.sources.get? name).bind fun bytes =>
    (decodeSource name bytes).toOption.bind fun t => (ShaderSource.parse name t).toOption

/-- The includes of a shader, in the order in which they are resolved. -/
def shaderIncludes (l : Library) (name : String) : List PendingInclude :=
  match l.shaderSource? name with
  | none => []
  | some source => source.includes

theorem readSource_eq_ok {t : Text} (h : (l.readSource name).1 = .ok t) :
    ∃ bytes, l.loader.sources.get? name = some bytes ∧ decodeSource name bytes = .ok t ∧
      (l.readSource name).2 = { l with loader := { l.loader with reads := l.loader.reads + 1 } } := by
  unfold readSource Loader.read at h ⊢
  cases hb : l.loader.sources.get? name with
  | none =>
    rw [hb] at h
    cases h
  | some bytes =>
    simp only [hb] at h ⊢
    cases hd : decodeSource name bytes with
    | error e =>
      rw [hd] at h
      cases h
    | ok t =>
      rw [hd] at h
      cases h
      exact ⟨bytes, rfl, hd, rfl⟩

theorem buildShader_eq_ok {t : Text} {p : ShaderSource × List Fragment} (h : (l.buildShader name t).1 = .ok p) :
    ∃ source ks s, ShaderSource.parse name t = .ok source ∧
      l.resolve name (.ofLibrary l) source.includes = (.ok ks, s) ∧ (l.buildShader name t).2 = s.commit l := by
  unfold buildShader at h ⊢
  cases hs : ShaderSource.parse name t with
  | error e =>
    rw [hs] at h
    cases h
  | ok source =>
    simp only [hs] at h ⊢
    obtain ⟨hr, hstate⟩ := l.resolveSections_flatten name (.ofLibrary l) source.sections
    refine ⟨source, ?_⟩
    unfold ShaderSource.includes
    rcases hsections : l.resolveSections name (.ofLibrary l) source.sections with ⟨e | fs, s⟩
    · rw [hsections] at h
      cases h
    · rw [hsections] at hr hstate
      rcases hresolve : l.resolve name (.ofLibrary l) (source.sections.flatMap (·.source.includes)) with ⟨e | ks, u⟩
      · rw [hresolve] at hr
        cases hr
      · rw [hresolve] at hstate
        exact ⟨ks, u, rfl, hresolve, congrArg (Inclusion.commit · l) hstate⟩

theorem draft_eq_ok {p : ShaderSource × List Fragment} (h : (l.draft name).1 = .ok p) :
    ∃ ks t, l.resolve name (Inclusion.ofLibrary l).noteRead (l.shaderIncludes name) = (.ok ks, t) ∧
      (l.draft name).2 = t.commit l := by
  unfold draft at h ⊢
  cases hr : (l.readSource name).1 with
  | error e =>
    rw [hr] at h
    cases h
  | ok t =>
    obtain ⟨bytes, hb, hd, hread⟩ := readSource_eq_ok hr
    simp only [hr, hread] at h ⊢
    obtain ⟨source, ks, s, hs, hresolve, hbuild⟩ := buildShader_eq_ok h
    have hincludes : l.shaderIncludes name = source.includes := by
      simp [shaderIncludes, shaderSource?, hb, hd, hs, Except.toOption]
    rw [hincludes]
    exact ⟨ks, s, hresolve, hbuild⟩

/-- A shader that is loaded under a new name: its source is read, and then its includes are resolved. -/
theorem loadShader_eq_ok (hnew : l.registered? name = none) {k : ShaderKey} (h : l.loadShader name = (.ok k, l')) :
    ∃ ks t, l.resolve name (Inclusion.ofLibrary l).noteRead (l.shaderIncludes name) = (.ok ks, t) ∧
      l'.fragments = t.fragments ∧ l'.loader = { l.loader with reads := t.reads } := by
  rw [loadShader_of_new hnew] at h
  obtain ⟨hr, rfl⟩ := Prod.mk.inj h
  cases hd : (l.draft name).1 with
  | error e =>
    rw [hd] at hr
    cases hr
  | ok p =>
    obtain ⟨ks, t, hresolve, hdraft⟩ := draft_eq_ok hd
    refine ⟨ks, t, hresolve, ?_⟩
    rw [hdraft]
    exact ⟨rfl, rfl⟩

/-! ## Closed tables -/

/-- A fragment with the text of its source. Each include stands for the fragment that has its name. -/
def Fills (sources : Assoc String Bytes) (s : FragmentStore) (f : Fragment) : Prop :=
  ∃ scanned, Scans sources f.name scanned ∧ f.text = scanned.text ∧ f.flagRefs = scanned.flagRefs ∧
    f.includes.map (fun i => (some i.target, i.offset)) = scanned.includes.map fun i => (s.find? i.name, i.offset)

theorem fills_of_fromSource {sources : Assoc String Bytes} {s : FragmentStore} (h : WellFormed s) {k : FragmentKey}
    {f : Fragment} (hf : s.get? k = some f) (hfrom : FromSource sources s f.name) : Fills sources s f := by
  obtain ⟨bytes, scanned, hb, hscan, hc⟩ := hfrom
  rw [h.named.content?_of_get? hf] at hc
  have hcontent := Option.some.inj hc
  have hincludes : s.includedNames f.includes = scanned.includes.map fun i => (i.name, i.offset) :=
    congrArg Content.includes hcontent
  refine ⟨scanned, ⟨bytes, hb, hscan⟩, congrArg Content.text hcontent, congrArg Content.flagRefs hcontent, ?_⟩
  have hfind : f.includes.map (fun i => (some i.target, i.offset)) =
      (s.includedNames f.includes).map fun p => (s.find? p.1, p.2) := by
    unfold FragmentStore.includedNames
    rw [List.map_map]
    refine List.map_congr_left fun i hi => ?_
    obtain ⟨g, hg⟩ := FragmentStore.contains_iff.1 (h.closed k f hf _ (List.mem_map_of_mem hi))
    have hname : s.find? (s.displayName i.target) = some i.target := by
      rw [FragmentStore.displayName_of_get? hg]
      exact h.named.find?_of_get? hg
    exact congrArg (·, i.offset) hname.symm
  rw [hfind, hincludes, List.map_map]
  rfl

/-- The table of `l` is kept in `l'`, with just the names that includes lead to. New fragments are filled from their
sources, and `served` are their names, each of which was read once. One more source was read before. -/
structure Closed (l : Library) (includes : List PendingInclude) (served : List String) (l' : Library) : Prop where
  named : FragmentStore.Named l'.fragments
  kept : ∀ k f, l.fragments.get? k = some f → l'.fragments.get? k = some f
  found : ∀ n k, l.fragments.find? n = some k → l'.fragments.find? n = some k
  names : ∀ n, l'.fragments.Has n ↔
    l.fragments.Has n ∨ ∃ i ∈ includes, ReflTransGen (Inclusion.Leads l.loader.sources l.fragments) i.name n
  filled : ∀ k f, l'.fragments.get? k = some f → l.fragments.get? k = some f ∨
    ¬ l.fragments.Has f.name ∧ Fills l.loader.sources l'.fragments f
  once : served.Nodup
  new : ∀ n, n ∈ served ↔ l'.fragments.Has n ∧ ¬ l.fragments.Has n
  loader : l'.loader = { l.loader with reads := l.loader.reads + 1 + served.length }

theorem closed_of_reading (hw : WellFormed l.fragments) {includes : List PendingInclude} {served : List String}
    {ks : List FragmentKey} {t : Inclusion}
    (h : Reading l.loader.fault l.loader.sources name (Inclusion.ofLibrary l).noteRead includes served (.ok ks) t)
    (hfragments : l'.fragments = t.fragments) (hloader : l'.loader = { l.loader with reads := t.reads }) :
    l.Closed includes served l' := by
  have hresolve := h.resolve_eq hw
  have hserves := h.serves
  have hspec := Inclusion.resolve_spec l.loader.fault l.loader.sources name (Inclusion.ofLibrary l).noteRead includes hw
  have hstocks := Inclusion.stocks_resolve l.loader.fault l.loader.sources name
    (s := (Inclusion.ofLibrary l).noteRead) hw includes
  have hnames := Inclusion.has_resolve_iff hw hresolve
  rw [hresolve] at hspec hstocks
  obtain ⟨new, hg⟩ := hspec.grows
  have hkeep : Keeps l.fragments l'.fragments := hfragments ▸ hg.keeps
  have hw' : WellFormed l'.fragments := hfragments ▸ hspec.wf
  have hcontent : ∀ n, l'.fragments.Has n → l.fragments.Has n ∨ FromSource l.loader.sources l'.fragments n :=
    hfragments ▸ (hstocks ks rfl).content
  rw [← hfragments] at hnames
  refine ⟨hw'.named, hkeep, fun n k => hkeep.find? hw.named hw'.named, hnames, fun k f hf => ?_, hserves.nodup,
    fun n => ?_, ?_⟩
  · by_cases hold : l.fragments.Has f.name
    · obtain ⟨x, hx⟩ := hold
      obtain ⟨g, hg, hname⟩ := (hw.named f.name x).1 hx
      have hk := hkeep.find? hw.named hw'.named hx
      rw [hw'.named.find?_of_get? hf] at hk
      cases hk
      cases hf.symm.trans (hkeep k g hg)
      exact .inl hg
    · exact .inr ⟨hold, fills_of_fromSource hw' hf ((hcontent _ (hw'.named.has_of_get? hf)).resolve_left hold)⟩
  · rw [hfragments]
    exact ⟨fun hm => ⟨hserves.stored ks rfl n hm, hserves.absent n hm⟩,
      fun hn => (hserves.new n hn.1).resolve_left hn.2⟩
  · rw [hloader, hserves.count]
    rfl

end Library

/-- Loading a shader under a new name ends, whatever the sources include. If it succeeds, the fragments are those that
were there, unchanged, and those whose names the includes of the shader lead to, through fragments that are stored and
through the sources of names that are not. The loader has served the shader, and every new name once. -/
theorem load_closed {l : Library} (hl : l.Reachable) {name : String} (hnew : l.findShader? name = none) :
    ∃ served r t, Reading l.loader.fault l.loader.sources name (Inclusion.ofLibrary l).noteRead (l.shaderIncludes name)
        served r t ∧
      ∀ k l', l.loadShader name = (.ok k, l') →
        l'.fragments = t.fragments ∧ l.Closed (l.shaderIncludes name) served l' := by
  have hw := hl.regular.fragments
  have hfree := (hl.named.registered?_eq_none_iff name).2 hnew
  obtain ⟨served, hread⟩ := Inclusion.exists_reading l.loader.fault l.loader.sources name
    (s := (Inclusion.ofLibrary l).noteRead) hw (l.shaderIncludes name)
  refine ⟨served, _, _, hread, fun k l' hload => ?_⟩
  obtain ⟨ks, t, hresolve, hfragments, hloader⟩ := Library.loadShader_eq_ok hfree hload
  have hresolve' : (Inclusion.ofLibrary l).noteRead.resolve l.loader.fault l.loader.sources name
      (l.shaderIncludes name) = (.ok ks, t) := hresolve
  rw [hresolve'] at hread ⊢
  exact ⟨hfragments, Library.closed_of_reading hw hread hfragments hloader⟩

/-- The library after a short run. A shader includes two sources that include each other, and a name that is stored. The
source of that name, which includes one that is not there, does not count any more. -/
def knotLibrary : Library :=
  { litRun.library with
    loader := .ofSources
      [("wood", Utf8.encode (litText ["[[VS]]\n", "#include \"grain\"\n", "#include \"skin\"\n", "[[FS]]\n",
          "#include \"noise\"\n"])),
        ("grain", Utf8.encode "#include \"noise\"\n".toList),
        ("noise", Utf8.encode "#include \"grain\"\n#include \"skin\"\n".toList),
        ("skin", Utf8.encode "#include \"none\"\n".toList)] }

/-- Two names are new, and three sources are read. The stored name is none of them. -/
theorem load_closed_knotLibrary :
    ∃ served k l', knotLibrary.loadShader "wood" = (.ok k, l') ∧
      knotLibrary.Closed (knotLibrary.shaderIncludes "wood") served l' ∧
        l'.loader.reads = 3 ∧ served.length = 2 ∧ "skin" ∉ served := by
  have hreach : knotLibrary.Reachable :=
    .step (.run (.new default default) litOps) litRun.compiler (.setLoader knotLibrary.loader)
  have hrun : knotLibrary.findShader? "wood" = none ∧ (knotLibrary.loadShader "wood").1 = .ok ⟨2, 1⟩ ∧
      (knotLibrary.loadShader "wood").2.loader.reads = 3 ∧ knotLibrary.loader.reads = 0 ∧
        (knotLibrary.fragments.find? "skin").isSome := by
    decide +kernel
  obtain ⟨hnew, hr, hreads, hstart, hskin⟩ := hrun
  obtain ⟨k, hk⟩ := Option.isSome_iff_exists.1 hskin
  obtain ⟨served, r, t, -, hclosed⟩ := load_closed hreach hnew
  obtain ⟨-, hclosed⟩ := hclosed ⟨2, 1⟩ _ (Prod.ext hr rfl)
  refine ⟨served, _, _, Prod.ext hr rfl, hclosed, hreads, ?_, fun hm => ((hclosed.new _).1 hm).2 ⟨k, hk⟩⟩
  have hcount := congrArg Loader.reads hclosed.loader
  rw [hreads] at hcount
  simp only [hstart] at hcount
  omega

end ShaderVariant
