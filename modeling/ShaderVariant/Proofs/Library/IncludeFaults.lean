import ShaderVariant.Proofs.Library.Blame
import ShaderVariant.Proofs.Library.Outcomes

/-!
# Faults of loading

Loading a source fails for the source itself, or for a directive that is followed from it.

* `IncludeSite.IncludeFault` : the first directive, depth first, whose source cannot be read or is malformed. It is a
  parse error in either case;
* `IncludeSite.TextFault`, `IncludeSite.LoadFault` : what else can be wrong with a text, and with a source that is read.
  Only the name that is asked for can be an error of reading;
* `include_faults` : shaders and fragments fail to load just for these faults.
-/

namespace ShaderVariant

open FragmentStore (WellFormed)
open Inclusion (scan)

namespace IncludeSite

variable {fault : String → IoError} {sources : Assoc String Bytes} {seen : List String} {owner : String} {t : Text}
variable {ds : List IncludeSite} {d : IncludeSite} {e : ShaderError}

/-! ## What can be wrong -/

def InSource (sources : Assoc String Bytes) (d : IncludeSite) : Prop :=
  ∃ bytes t, sources.get? d.file = some bytes ∧ decodeSource d.file bytes = .ok t ∧ d ∈ ofText d.file t

/-- The first directive with a fault among those that are followed from `ds`, which stand in the text `t` of `owner`. -/
inductive IncludeFault (fault : String → IoError) (sources : Assoc String Bytes) (seen : List String) (owner : String)
    (t : Text) (ds : List IncludeSite) : ShaderError → Prop
  | unreadable {before after : List IncludeSite} {d : IncludeSite} (hwalk : walk sources seen ds = before ++ d :: after)
      (hfirst : ∀ x ∈ before, Available sources seen x.name) (hd : d.name ∉ seen) (hb : sources.get? d.name = none)
      (hline : d ∈ ofText owner t ∨ InSource sources d) :
      IncludeFault fault sources seen owner t ds
        (.parse ⟨d.file, UInt32.ofNat d.line, .unresolvedInclude d.name (fault d.name)⟩)
  | malformed {before after : List IncludeSite} {d : IncludeSite} {bytes : Bytes} {c : ParseError}
      (hwalk : walk sources seen ds = before ++ d :: after) (hfirst : ∀ x ∈ before, Available sources seen x.name)
      (hd : d.name ∉ seen) (hb : sources.get? d.name = some bytes) (hs : scan d.name bytes = .error (.parse c)) :
      IncludeFault fault sources seen owner t ds (.parse c)

/-- What is wrong with a text, of which `sites` are the directives if it is well formed. -/
inductive TextFault (fault : String → IoError) (sources : Assoc String Bytes) (seen : List String) (owner : String)
    (t : Text) (sites : Except ParseError (List IncludeSite)) : ShaderError → Prop
  | rejected {c : ParseError} (h : sites = .error c) : TextFault fault sources seen owner t sites (.parse c)
  | includes {ds : List IncludeSite} {e : ShaderError} (h : sites = .ok ds)
      (he : IncludeFault fault sources seen owner t ds e) : TextFault fault sources seen owner t sites e

inductive LoadFault (fault : String → IoError) (sources : Assoc String Bytes) (seen : List String) (name : String)
    (sites : Text → Except ParseError (List IncludeSite)) : ShaderError → Prop
  | unreadable (hb : sources.get? name = none) : LoadFault fault sources seen name sites (.io name (fault name))
  | undecodable {bytes : Bytes} {c : ParseError} (hb : sources.get? name = some bytes)
      (hc : decodeSource name bytes = .error c) : LoadFault fault sources seen name sites (.parse c)
  | text {bytes : Bytes} {t : Text} {e : ShaderError} (hb : sources.get? name = some bytes)
      (ht : decodeSource name bytes = .ok t) (he : TextFault fault sources seen name t (sites t) e) :
      LoadFault fault sources seen name sites e

def ofFragment (name : String) (t : Text) : Except ParseError (List IncludeSite) :=
  (Scanned.ofText name t 1).map fun _ => ofText name t

def ofShader (name : String) (t : Text) : Except ParseError (List IncludeSite) :=
  (ShaderSource.parse name t).map fun _ => ofCode name t

/-! ## The first fault -/

theorem InSource.of_erase {n : String} (h : InSource (sources.erase n) d) : InSource sources d := by
  obtain ⟨bytes, u, hb, hu, hd⟩ := h
  have hne : n ≠ d.file := by
    rintro rfl
    rw [Assoc.get?_erase_self] at hb
    cases hb
  exact ⟨bytes, u, (Assoc.get?_erase_of_ne hne sources).symm.trans hb, hu, hd⟩

theorem inSource_of_mem_ofSource {name : String} {bytes : Bytes} (hb : sources.get? name = some bytes)
    (h : d ∈ ofSource name bytes) : InSource sources d := by
  unfold ofSource at h
  split at h
  · exact absurd h List.not_mem_nil
  · next u hu =>
    obtain ⟨rfl, -⟩ := mem_ofText_iff.1 h
    exact ⟨bytes, u, hb, hu, h⟩

/-- What is walked over are the directives given, and those of sources. -/
theorem mem_or_inSource_of_mem_walk (h : d ∈ walk sources seen ds) : d ∈ ds ∨ InSource sources d := by
  fun_induction walk sources seen ds with
  | case1 => exact absurd h List.not_mem_nil
  | case2 sources seen x ds hx ih | case3 sources seen x ds hx hb ih =>
    rcases List.mem_cons.1 h with rfl | h
    · exact .inl List.mem_cons_self
    · exact (ih h).imp_left (List.mem_cons_of_mem x)
  | case4 sources seen x ds hx bytes hb inner ihin ih =>
    rcases List.mem_cons.1 h with rfl | h
    · exact .inl List.mem_cons_self
    · rcases List.mem_append.1 h with h | h
      · refine .inr ?_
        rcases ihin h with h | h
        · exact inSource_of_mem_ofSource hb h
        · exact h.of_erase
      · exact (ih h).imp_left (List.mem_cons_of_mem x)

theorem scan_eq_error {name : String} {bytes : Bytes} (h : scan name bytes = .error e) : ∃ c, e = .parse c := by
  unfold scan at h
  split at h
  · cases h
    exact ⟨_, rfl⟩
  · split at h
    · cases h
      exact ⟨_, rfl⟩
    · cases h

theorem includeFault_iff (hds : ∀ x ∈ ds, x ∈ ofText owner t) :
    IncludeFault fault sources seen owner t ds e ↔ firstFault? fault sources seen ds = some e := by
  unfold firstFault?
  rw [List.findSome?_eq_some_iff]
  constructor
  · rintro (@⟨before, after, d, hwalk, hfirst, hd, hb, -⟩ | @⟨before, after, d, bytes, c, hwalk, hfirst, hd, hb, hs⟩)
    · exact ⟨before, d, after, hwalk, fault?_of_none hd hb, fun x hx => fault?_eq_none_iff.2 (hfirst x hx)⟩
    · exact ⟨before, d, after, hwalk, fault?_of_some hd hb hs, fun x hx => fault?_eq_none_iff.2 (hfirst x hx)⟩
  · rintro ⟨before, d, after, hwalk, hfault, hnone⟩
    have hfirst : ∀ x ∈ before, Available sources seen x.name := fun x hx => fault?_eq_none_iff.1 (hnone x hx)
    have hd : d.name ∉ seen := fun hm => by
      rw [fault?_of_mem hm] at hfault
      cases hfault
    cases hb : sources.get? d.name with
    | none =>
      rw [fault?_of_none hd hb] at hfault
      cases hfault
      have hmem : d ∈ walk sources seen ds := hwalk ▸ List.mem_append_right _ List.mem_cons_self
      exact .unreadable hwalk hfirst hd hb ((mem_or_inSource_of_mem_walk hmem).imp_left (hds d))
    | some bytes =>
      cases hs : scan d.name bytes with
      | ok scanned =>
        rw [fault?_eq_none_iff.2 (.inr ⟨scanned, bytes, hb, hs⟩)] at hfault
        cases hfault
      | error e' =>
        rw [fault?_of_some hd hb hs] at hfault
        cases hfault
        obtain ⟨c, rfl⟩ := scan_eq_error hs
        exact .malformed hwalk hfirst hd hb hs

/-! ## Case by case -/

variable {name : String} {c : ParseError} {bytes : Bytes}
variable {sites : Text → Except ParseError (List IncludeSite)}

theorem textFault_error : TextFault fault sources seen owner t (.error c) e ↔ e = .parse c := by
  constructor
  · rintro (⟨⟨⟩⟩ | ⟨⟨⟩, -⟩)
    rfl
  · rintro rfl
    exact .rejected rfl

theorem textFault_ok :
    TextFault fault sources seen owner t (.ok ds) e ↔ IncludeFault fault sources seen owner t ds e := by
  constructor
  · rintro (⟨⟨⟩⟩ | ⟨⟨⟩, h⟩)
    exact h
  · exact .includes rfl

theorem loadFault_of_none (hb : sources.get? name = none) :
    LoadFault fault sources seen name sites e ↔ e = .io name (fault name) := by
  constructor
  · rintro (- | ⟨hb', -⟩ | ⟨hb', -⟩)
    · rfl
    · cases hb.symm.trans hb'
    · cases hb.symm.trans hb'
  · rintro rfl
    exact .unreadable hb

theorem loadFault_of_undecodable (hb : sources.get? name = some bytes) (hc : decodeSource name bytes = .error c) :
    LoadFault fault sources seen name sites e ↔ e = .parse c := by
  constructor
  · rintro (hb' | ⟨hb', hc'⟩ | ⟨hb', ht, -⟩)
    · cases hb.symm.trans hb'
    · cases hb.symm.trans hb'
      cases hc.symm.trans hc'
      rfl
    · cases hb.symm.trans hb'
      cases hc.symm.trans ht
  · rintro rfl
    exact .undecodable hb hc

theorem loadFault_of_text (hb : sources.get? name = some bytes) (ht : decodeSource name bytes = .ok t) :
    LoadFault fault sources seen name sites e ↔ TextFault fault sources seen name t (sites t) e := by
  constructor
  · rintro (hb' | ⟨hb', hc⟩ | ⟨hb', ht', h⟩)
    · cases hb.symm.trans hb'
    · cases hb.symm.trans hb'
      cases ht.symm.trans hc
    · cases hb.symm.trans hb'
      cases ht.symm.trans ht'
      exact h
  · exact .text hb ht

end IncludeSite

namespace Library

open IncludeSite (IncludeFault TextFault LoadFault ofText ofCode ofFragment ofShader firstFault?)

variable {l : Library} {name : String} {t : Text} {e : ShaderError}

/-! ## Resolving in a library -/

def storedNames (l : Library) : List String := l.fragments.list.map (·.2)

theorem has_iff_mem_storedNames (h : WellFormed l.fragments) (n : String) : l.fragments.Has n ↔ n ∈ l.storedNames := by
  unfold storedNames FragmentStore.list
  rw [List.map_map, List.mem_map]
  constructor
  · rintro ⟨k, hk⟩
    obtain ⟨f, hf, rfl⟩ := (h.named n k).1 hk
    exact ⟨(k, f), SlotMap.mem_entries_iff.2 hf, rfl⟩
  · rintro ⟨⟨k, f⟩, hm, rfl⟩
    exact h.named.has_of_get? (SlotMap.mem_entries_iff.1 hm)

/-- Resolving fails with the first fault of the directives. -/
theorem resolve_error_iff {s : Inclusion} {seen : List String} {owner : String} {ds : List IncludeSite}
    {includes : List PendingInclude} (hw : WellFormed s.fragments) (hseen : ∀ n, s.fragments.Has n ↔ n ∈ seen)
    (hmarks : includes.map PendingInclude.mark = ds.map IncludeSite.mark) (hds : ∀ x ∈ ds, x ∈ ofText owner t) :
    (l.resolve owner s includes).1 = .error e ↔
      IncludeFault l.loader.fault l.loader.sources seen owner t ds e := by
  have hblames := Inclusion.blames_resolve l.loader.fault l.loader.sources hw hseen hmarks fun x hx =>
    (IncludeSite.mem_ofText_iff.1 (hds x hx)).1
  rw [IncludeSite.includeFault_iff hds]
  refine ⟨hblames.fails e, fun hfirst => ?_⟩
  unfold resolve
  cases hr : (s.resolve l.loader.fault l.loader.sources owner includes).1 with
  | error e' =>
    rw [hblames.fails e' hr] at hfirst
    cases hfirst
    rfl
  | ok ks =>
    rw [hblames.succeeds ks hr] at hfirst
    cases hfirst

theorem error_iff_of_map {α β : Type} {r : Except ShaderError α} {r' : Except ShaderError β}
    (h : r.map (fun _ => ()) = r'.map fun _ => ()) (e : ShaderError) : r = .error e ↔ r' = .error e := by
  cases r <;> cases r' <;> cases h <;> simp

theorem buildFragment_error_iff (hw : WellFormed l.fragments) :
    (l.buildFragment name t).1 = .error e ↔
      TextFault l.loader.fault l.loader.sources l.storedNames name t (ofFragment name t) e := by
  unfold buildFragment ofFragment
  cases hs : Scanned.ofText name t 1 with
  | error c =>
    refine Iff.trans ?_ IncludeSite.textFault_error.symm
    exact ⟨fun he => (Except.error.inj he).symm, fun he => he ▸ rfl⟩
  | ok scanned =>
    have hmarks := (Scanned.marks_of_ofText hs).trans (map_mark_ofLines name t.splitLines 1).symm
    have hresolve := resolve_error_iff (l := l) (e := e) (s := .ofLibrary l) hw (has_iff_mem_storedNames hw) hmarks
      fun x hx => hx
    refine Iff.trans ?_ (hresolve.trans IncludeSite.textFault_ok.symm)
    simp only
    rcases l.resolve name (.ofLibrary l) scanned.includes with ⟨e' | ks, s⟩ <;> simp

theorem buildShader_error_iff (hw : WellFormed l.fragments) :
    (l.buildShader name t).1 = .error e ↔
      TextFault l.loader.fault l.loader.sources l.storedNames name t (ofShader name t) e := by
  unfold buildShader ofShader
  cases hs : ShaderSource.parse name t with
  | error c =>
    refine Iff.trans ?_ IncludeSite.textFault_error.symm
    exact ⟨fun he => (Except.error.inj he).symm, fun he => he ▸ rfl⟩
  | ok source =>
    have hresolve := resolve_error_iff (l := l) (e := e) (s := .ofLibrary l) hw (has_iff_mem_storedNames hw)
      (ShaderSource.marks_of_parse hs) fun x hx => (IncludeSite.ofCode_sublist name t).subset hx
    refine Iff.trans ?_ (hresolve.trans IncludeSite.textFault_ok.symm)
    obtain ⟨hflat, -⟩ := l.resolveSections_flatten name (.ofLibrary l) source.sections
    refine Iff.trans ?_ (error_iff_of_map hflat e)
    simp only
    rcases l.resolveSections name (.ofLibrary l) source.sections with ⟨e' | fs, s⟩ <;> simp

/-! ## Reading and loading -/

theorem draft_error_iff (hw : WellFormed l.fragments) :
    (l.draft name).1 = .error e ↔ LoadFault l.loader.fault l.loader.sources l.storedNames name (ofShader name) e := by
  unfold draft readSource Loader.read
  cases hb : l.loader.sources.get? name with
  | none =>
    rw [IncludeSite.loadFault_of_none hb]
    simp [eq_comm]
  | some bytes =>
    simp only
    cases ht : decodeSource name bytes with
    | error c =>
      rw [IncludeSite.loadFault_of_undecodable hb ht]
      simp [eq_comm]
    | ok t =>
      rw [IncludeSite.loadFault_of_text hb ht]
      exact buildShader_error_iff (l := { l with loader := { l.loader with reads := l.loader.reads + 1 } }) hw

def Unloaded (l : Library) (name : String) : Prop := ∀ k s, l.registered? name = some (k, s) → s.isLoaded = false

theorem loadShader_error_iff (h : l.Named) :
    (l.loadShader name).1 = .error e ↔ l.Unloaded name ∧ (l.draft name).1 = .error e := by
  unfold Unloaded
  cases hr : l.registered? name with
  | none =>
    rw [loadShader_of_new hr]
    cases (l.draft name).1 <;> simp [Except.map]
  | some p =>
    obtain ⟨k, s⟩ := p
    obtain ⟨-, rfl⟩ := h.registered?_eq_some_iff.1 hr
    unfold loadShader
    rw [hr]
    cases hs : s.isLoaded with
    | true => simp [hs]
    | false =>
      unfold draft refill
      rcases l.readSource s.name with ⟨e' | t, l₁⟩
      · simp [hs]
      · simp only [hs]
        rcases l₁.buildShader s.name t with ⟨e' | p, l₂⟩ <;> simp [hs]

/-- The name of a fragment that is loaded is seen in its own source. -/
theorem loadNewFragment_error_iff (hw : WellFormed l.fragments) (hn : l.fragments.find? name = none) :
    (l.loadNewFragment name).1 = .error e ↔
      LoadFault l.loader.fault l.loader.sources (name :: l.storedNames) name (ofFragment name) e := by
  unfold loadNewFragment Loader.read
  cases hb : l.loader.sources.get? name with
  | none =>
    rw [IncludeSite.loadFault_of_none hb]
    simp [eq_comm]
  | some bytes =>
    cases ht : decodeSource name bytes with
    | error c =>
      rw [IncludeSite.loadFault_of_undecodable hb ht]
      simp [scan, ht, eq_comm]
    | ok t =>
      rw [IncludeSite.loadFault_of_text hb ht]
      unfold ofFragment
      cases hs : Scanned.ofText name t 1 with
      | error c =>
        refine Iff.trans ?_ IncludeSite.textFault_error.symm
        simp [scan, ht, hs, eq_comm]
      | ok scanned =>
        have hscan : scan name bytes = .ok scanned := by simp only [scan, ht, hs]
        rcases hreg : (Inclusion.ofLibrary l).noteRead.register name with ⟨k, s⟩
        obtain ⟨hws, hg, hk⟩ := Inclusion.register_spec (s := (Inclusion.ofLibrary l).noteRead) hw hn hreg
        have hseen : ∀ n, s.fragments.Has n ↔ n ∈ name :: l.storedNames := fun n => by
          rw [Inclusion.has_register (s := .ofLibrary l) hn hreg, List.mem_cons, eq_comm]
          exact or_congr_right (has_iff_mem_storedNames hw n)
        have hmarks := (Scanned.marks_of_ofText hs).trans (map_mark_ofLines name t.splitLines 1).symm
        have hresolve := resolve_error_iff (l := l) (e := e) hws hseen hmarks fun x hx => hx
        refine Iff.trans ?_ (hresolve.trans IncludeSite.textFault_ok.symm)
        -- Reading counts, and that is all that the loader has changed.
        have hreg' : (Inclusion.ofLibrary { l with loader := { l.loader with reads := l.loader.reads + 1 } }).register
            name = (k, s) := hreg
        have hresolve' : ({ l with loader := { l.loader with reads := l.loader.reads + 1 } } : Library).resolve name s
            scanned.includes = l.resolve name s scanned.includes := rfl
        simp only [hscan, hreg', hresolve']
        have hspec := resolve_spec (l := l) name scanned.includes hws
        generalize l.resolve name s scanned.includes = p at hspec ⊢
        obtain ⟨e' | targets, u⟩ := p
        · simp
        · obtain ⟨new, hg'⟩ := hspec.grows
          obtain ⟨v, hv⟩ := Inclusion.fill_of_contains (hg'.keeps.contains hk) (.ofScanned name scanned targets)
          simp [hv]

/-- A fragment that is stored cannot fail. -/
theorem loadFragment_error_iff (hw : WellFormed l.fragments) :
    (l.loadFragment name).1 = .error e ↔ ¬ l.fragments.Has name ∧
      LoadFault l.loader.fault l.loader.sources (name :: l.storedNames) name (ofFragment name) e := by
  unfold loadFragment
  cases hk : l.fragments.find? name with
  | some k =>
    have hhas : l.fragments.Has name := ⟨k, hk⟩
    simp [hhas]
  | none =>
    have hhas : ¬ l.fragments.Has name := FragmentStore.not_has_iff.2 hk
    simp only [hhas, not_false_eq_true, true_and]
    exact loadNewFragment_error_iff hw hk

theorem updateFragment_error_iff (hw : WellFormed l.fragments) (k : FragmentKey) :
    (l.updateFragment k t).1 = .error e ↔ (l.fragment? k = none ∧ e = .danglingFragment k) ∨
      ∃ f, l.fragment? k = some f ∧
        TextFault l.loader.fault l.loader.sources l.storedNames f.name t (ofFragment f.name t) e := by
  unfold updateFragment
  cases hf : l.fragment? k with
  | none => simp [eq_comm]
  | some f =>
    have hattempt := attempt_buildFragment hw f.name t
    simp only [reduceCtorEq, false_and, false_or, Option.some.injEq, exists_eq_left', ← buildFragment_error_iff hw]
    generalize l.buildFragment f.name t = p at hattempt ⊢
    cases hattempt with
    | failed h => simp
    | done h hq =>
      -- The fragment is still stored, so its content is replaced.
      obtain ⟨n, l'', hr, -⟩ := edits_replaceFragment h (FragmentStore.contains_iff.2 ⟨f, hf⟩) hq.2
      simp [hr]

theorem addFragment_error_iff (hw : WellFormed l.fragments) :
    (l.addFragment name t).1 = .error e ↔
      TextFault l.loader.fault l.loader.sources l.storedNames name t (ofFragment name t) e := by
  unfold addFragment
  cases hk : l.fragments.find? name with
  | some k =>
    obtain ⟨f, hf, rfl⟩ := (hw.named name k).1 hk
    have hupdate := updateFragment_error_iff (t := t) (e := e) hw k
    have hf' : l.fragment? k = some f := hf
    simp only [hf', reduceCtorEq, false_and, false_or, Option.some.injEq, exists_eq_left'] at hupdate
    rw [← hupdate]
    simp only
    rcases l.updateFragment k t with ⟨e' | n, l'⟩ <;> simp
  | none =>
    rw [← buildFragment_error_iff hw]
    simp only
    rcases l.buildFragment name t with ⟨e' | f, l'⟩ <;> simp

end Library

open IncludeSite (TextFault LoadFault ofFragment ofShader) in
/-- Loading a shader or a fragment, and giving a fragment a text, fail just for these faults. A name that the loader
cannot read is an error of reading only if it is the name that is asked for. An include of it is a parse error at its
directive, which is the first one with a fault, depth first: in the file where the directive stands, on its line there.
-/
theorem include_faults {l : Library} (hl : l.Reachable) (e : ShaderError) :
    (∀ name, (l.loadShader name).1 = .error e ↔
      l.Unloaded name ∧ LoadFault l.loader.fault l.loader.sources l.storedNames name (ofShader name) e) ∧
    (∀ name, (l.loadFragment name).1 = .error e ↔
      ¬ l.fragments.Has name ∧
        LoadFault l.loader.fault l.loader.sources (name :: l.storedNames) name (ofFragment name) e) ∧
    (∀ name t, (l.addFragment name t).1 = .error e ↔
      TextFault l.loader.fault l.loader.sources l.storedNames name t (ofFragment name t) e) ∧
    ∀ k t, (l.updateFragment k t).1 = .error e ↔ (l.fragment? k = none ∧ e = .danglingFragment k) ∨
      ∃ f, l.fragment? k = some f ∧
        TextFault l.loader.fault l.loader.sources l.storedNames f.name t (ofFragment f.name t) e := by
  have hw := hl.regular.fragments
  refine ⟨fun name => ?_, fun name => ?_, fun name t => ?_, fun k t => ?_⟩
  · rw [Library.loadShader_error_iff hl.named, Library.draft_error_iff hw]
  · exact Library.loadFragment_error_iff hw
  · exact Library.addFragment_error_iff hw
  · exact Library.updateFragment_error_iff hw k

/-- The library after a short run, over two shaders with an include that is not there: one of them behind an include of
its second section, the other in that section itself. -/
def mossLibrary : Library :=
  { litRun.library with
    loader := .ofSources
      [("deep", Utf8.encode (litText ["[[VS]]\n", "#include \"grain\"\n", "[[FS]]\n", "#include \"skin\"\n",
          "#include \"moss\"\n", "#include \"gone\"\n"])),
        ("flat", Utf8.encode (litText ["[[VS]]\n", "void main() {}\n", "[[FS]]\n", "#include <none>\n"])),
        ("grain", Utf8.encode "#include \"noise\"\n".toList), ("noise", Utf8.encode "#include \"grain\"\n".toList),
        ("moss", Utf8.encode "float x;\n#include \"none\"\n".toList)] }

open IncludeSite (LoadFault ofShader) in
/-- The name that is not there is a fault of the directive on the second line of `moss`, and of the one on the tenth
line of `flat`. Read on its own, it is an error of reading. -/
theorem include_faults_mossLibrary :
    LoadFault mossLibrary.loader.fault mossLibrary.loader.sources mossLibrary.storedNames "deep" (ofShader "deep")
        (.parse ⟨"moss", 2, .unresolvedInclude "none" (.noSource "none")⟩) ∧
      LoadFault mossLibrary.loader.fault mossLibrary.loader.sources mossLibrary.storedNames "flat" (ofShader "flat")
        (.parse ⟨"flat", 10, .unresolvedInclude "none" (.noSource "none")⟩) ∧
        (mossLibrary.loadShader "none").1 = .error (.io "none" (.noSource "none")) := by
  have hreach : mossLibrary.Reachable :=
    .step (.run (.new default default) litOps) litRun.compiler (.setLoader mossLibrary.loader)
  have hrun : (mossLibrary.loadShader "deep").1 =
        .error (.parse ⟨"moss", 2, .unresolvedInclude "none" (.noSource "none")⟩) ∧
      (mossLibrary.loadShader "flat").1 = .error (.parse ⟨"flat", 10, .unresolvedInclude "none" (.noSource "none")⟩) ∧
        mossLibrary.loader.sources.get? "none" = none ∧ mossLibrary.registered? "none" = none := by
    decide +kernel
  obtain ⟨hdeep, hflat, hnone, hnew⟩ := hrun
  refine ⟨((include_faults hreach _).1 _).1 hdeep |>.2, ((include_faults hreach _).1 _).1 hflat |>.2, ?_⟩
  refine ((include_faults hreach _).1 "none").2 ⟨fun k s hr => ?_, .unreadable hnone⟩
  rw [hnew] at hr
  cases hr

end ShaderVariant
