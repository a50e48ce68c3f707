import Mathlib.Data.List.Nodup
import Mathlib.Logic.Relation
import ShaderVariant.Proofs.Library.Supply

/-!
# Reading of included sources

Resolving includes goes through sources that include each other, possibly in a circle. It sets no source aside that has
been read: a name that is read is registered at once, and what is registered is not read again.

* `Inclusion.Reading` : how resolving goes when all sources can be read at all times, with the names that are served. It
  ends for all includes (`exists_reading`), and it is resolving (`reading_iff`);
* `Inclusion.Serves` : what is served on the way. Each name is served once, none that is stored, only names that the
  includes lead to, and after a success they are stored (`Reading.serves`);
* `Inclusion.Leads` : what a name includes, in the table or by its source. After a success the table is closed under it
  (`has_of_leads`).
-/

namespace ShaderVariant

open FragmentStore (WellFormed Keeps)
open Relation (ReflTransGen)

theorem FragmentStore.WellFormed.has_of_content? {s : FragmentStore} (h : WellFormed s) {name : String} {c : Content}
    (hc : s.content? name = some c) {i : String × Nat} (hi : i ∈ c.includes) : s.Has i.1 := by
  obtain ⟨k, f, hf, -, rfl⟩ := h.named.exists_of_content? hc
  obtain ⟨j, hj, rfl⟩ := List.mem_map.1 hi
  exact h.named.has_displayName (h.closed k f hf _ (List.mem_map_of_mem hj))

namespace Inclusion

variable {fault : String → IoError} {sources : Assoc String Bytes} {owner name : String} {s t u : Inclusion}
variable {includes more : List PendingInclude} {served : List String} {r : Except ShaderError (List FragmentKey)}

/-! ## How resolving goes -/

/-- A name that is new has the same source without that of a stored name. -/
theorem get?_erase_of_new {s : FragmentStore} {other : String} (ho : s.Has other) (hn : s.find? name = none) :
    (sources.erase other).get? name = sources.get? name := by
  refine Assoc.get?_erase_of_ne ?_ sources
  rintro rfl
  exact FragmentStore.not_has_iff.2 hn ho

def Scans (sources : Assoc String Bytes) (name : String) (scanned : Scanned) : Prop :=
  ∃ bytes, sources.get? name = some bytes ∧ scan name bytes = .ok scanned

/-- How the includes of `owner` are resolved, the names that the loader serves on the way, and the outcome. -/
inductive Reading (fault : String → IoError) (sources : Assoc String Bytes) :
    String → Inclusion → List PendingInclude → List String → Except ShaderError (List FragmentKey) → Inclusion → Prop
  | nil (owner : String) (s : Inclusion) : Reading fault sources owner s [] [] (.ok []) s
  | stored {owner : String} {s t : Inclusion} {i : PendingInclude} {more : List PendingInclude} {served : List String}
      {r : Except ShaderError (List FragmentKey)} {k : FragmentKey} (hk : s.fragments.find? i.name = some k)
      (h : Reading fault sources owner s more served r t) :
      Reading fault sources owner s (i :: more) served (r.map (k :: ·)) t
  | unreadable {owner : String} {s : Inclusion} {i : PendingInclude} (more : List PendingInclude)
      (hn : s.fragments.find? i.name = none) (hb : sources.get? i.name = none) :
      Reading fault sources owner s (i :: more) []
        (.error (.parse ⟨owner, i.line, .unresolvedInclude i.name (fault i.name)⟩)) s
  | malformed {owner : String} {s : Inclusion} {i : PendingInclude} (more : List PendingInclude) {bytes : Bytes}
      {e : ShaderError} (hn : s.fragments.find? i.name = none) (hb : sources.get? i.name = some bytes)
      (he : scan i.name bytes = .error e) :
      Reading fault sources owner s (i :: more) [i.name] (.error e) s.noteRead
  | inside {owner : String} {s t u : Inclusion} {i : PendingInclude} (more : List PendingInclude) {scanned : Scanned}
      {k : FragmentKey} {inner : List String} {e : ShaderError} (hn : s.fragments.find? i.name = none)
      (hscan : Scans sources i.name scanned) (hreg : s.noteRead.register i.name = (k, t))
      (hin : Reading fault sources i.name t scanned.includes inner (.error e) u) :
      Reading fault sources owner s (i :: more) (i.name :: inner) (.error e) u
  | fetched {owner : String} {s t u v w : Inclusion} {i : PendingInclude} {more : List PendingInclude}
      {scanned : Scanned} {k : FragmentKey} {targets : List FragmentKey} {inner served : List String}
      {r : Except ShaderError (List FragmentKey)} (hn : s.fragments.find? i.name = none)
      (hscan : Scans sources i.name scanned) (hreg : s.noteRead.register i.name = (k, t))
      (hin : Reading fault sources i.name t scanned.includes inner (.ok targets) u)
      (hfill : u.fill k (.ofScanned i.name scanned targets) = .ok v)
      (h : Reading fault sources owner v more served r w) :
      Reading fault sources owner s (i :: more) (i.name :: (inner ++ served)) (r.map (k :: ·)) w

namespace Reading

theorem has (h : Reading fault sources owner s includes served r t) {n : String} (hn : s.fragments.Has n) :
    t.fragments.Has n := by
  induction h with
  | nil => exact hn
  | stored hk h ih => exact ih hn
  | unreadable more hn' hb => exact hn
  | malformed more hn' hb he => exact hn
  | inside more hn' hscan hreg hin ih => exact ih ((has_register hn' hreg n).2 (Or.inr hn))
  | fetched hn' hscan hreg hin hfill h ihn ih =>
    exact ih ((has_fill hfill n).2 (ihn ((has_register hn' hreg n).2 (Or.inr hn))))

/-- A source whose name is stored is not missed. -/
theorem of_erase {other : String} (h : Reading fault (sources.erase other) owner s includes served r t)
    (ho : s.fragments.Has other) : Reading fault sources owner s includes served r t := by
  induction h with
  | nil owner s => exact .nil owner s
  | stored hk h ih => exact .stored hk (ih ho)
  | unreadable more hn hb => exact .unreadable more hn ((get?_erase_of_new ho hn).symm.trans hb)
  | malformed more hn hb he => exact .malformed more hn ((get?_erase_of_new ho hn).symm.trans hb) he
  | inside more hn hscan hreg hin ih =>
    obtain ⟨bytes, hb, hs⟩ := hscan
    exact .inside more hn ⟨bytes, (get?_erase_of_new ho hn).symm.trans hb, hs⟩ hreg (ih ((has_register hn hreg _).2 (Or.inr ho)))
  | fetched hn hscan hreg hin hfill h ihn ih =>
    obtain ⟨bytes, hb, hs⟩ := hscan
    have ho₁ := (has_register hn hreg _).2 (Or.inr ho)
    exact .fetched hn ⟨bytes, (get?_erase_of_new ho hn).symm.trans hb, hs⟩ hreg (ihn ho₁) hfill
      (ih ((has_fill hfill _).2 (hin.has ho₁)))

end Reading

/-- Resolving ends, whatever the sources include. -/
theorem exists_reading (fault : String → IoError) (sources : Assoc String Bytes) (owner : String)
    (hw : WellFormed s.fragments) (includes : List PendingInclude) :
    ∃ served, Reading fault sources owner s includes served (s.resolve fault sources owner includes).1
      (s.resolve fault sources owner includes).2 := by
  fun_induction resolve fault sources owner s includes with
  | case1 sources owner s => exact ⟨[], .nil owner s⟩
  | case2 sources owner s i more k hfind e t he ih
  | case3 sources owner s i more k hfind ks t he ih =>
    obtain ⟨served, h⟩ := ih hw
    rw [he] at h
    exact ⟨served, .stored hfind h⟩
  | case4 sources owner s i more hfind hsource => exact ⟨[], .unreadable more hfind hsource⟩
  | case5 sources owner s i more hfind bytes hsource e hscan => exact ⟨[i.name], .malformed more hfind hsource hscan⟩
  | case6 sources owner s i more hfind bytes hsource scanned hscan k s₁ hreg e t he ih =>
    -- The source is set aside for what it includes. Its name is registered by then, so it may as well be there.
    obtain ⟨hw₁, -, -⟩ := register_spec (s := s.noteRead) hw hfind hreg
    obtain ⟨inner, h⟩ := ih hw₁
    rw [he] at h
    exact ⟨_, .inside more hfind ⟨bytes, hsource, hscan⟩ hreg
      (h.of_erase ((has_register hfind hreg _).2 (Or.inl rfl)))⟩
  | case7 sources owner s i more hfind bytes hsource scanned hscan k s₁ hreg targets s₂ hr e hfill ih =>
    obtain ⟨v, hv⟩ := exists_fill hw hfind hreg hr (.ofScanned i.name scanned targets)
    cases hfill.symm.trans hv
  | case8 sources owner s i more hfind bytes hsource scanned hscan k s₁ hreg targets s₂ hr s₃ hfill r t he ihn ihm
  | case9 sources owner s i more hfind bytes hsource scanned hscan k s₁ hreg targets s₂ hr s₃ hfill r t he ihn ihm =>
    have hf : Fetch fault sources s i.name scanned k s₁ targets s₂ s₃ :=
      ⟨hfind, ⟨bytes, hsource, hscan⟩, hreg, hr, hfill⟩
    obtain ⟨inner, hin⟩ := ihn (hf.wf_registered hw)
    obtain ⟨served, h⟩ := ihm (hf.wf hw)
    rw [hr] at hin
    rw [he] at h
    exact ⟨_, .fetched hfind hf.source hreg (hin.of_erase ((has_register hfind hreg _).2 (Or.inl rfl))) hfill h⟩

/-- Nothing is missed without the source of a name that is stored. -/
theorem resolve_erase {other : String} (hw : WellFormed s.fragments) (ho : s.fragments.Has other) :
    s.resolve fault (sources.erase other) owner includes = s.resolve fault sources owner includes := by
  fun_induction resolve fault sources owner s includes with
  | case1 sources owner s => rw [resolve]
  | case2 sources owner s i more k hfind e t he ih
  | case3 sources owner s i more k hfind ks t he ih =>
    simp only [resolve_cons, hfind, ih hw ho, he]
    rfl
  | case4 sources owner s i more hfind hsource => simp only [resolve_cons, hfind, get?_erase_of_new ho hfind, hsource]
  | case5 sources owner s i more hfind bytes hsource e hscan =>
    simp only [resolve_cons, hfind, get?_erase_of_new ho hfind, hsource, hscan]
  | case6 sources owner s i more hfind bytes hsource scanned hscan k s₁ hreg e t he ih =>
    obtain ⟨hw₁, -, -⟩ := register_spec (s := s.noteRead) hw hfind hreg
    have hin := (ih hw₁ ((has_register hfind hreg _).2 (Or.inr ho))).trans he
    rw [Assoc.erase_comm] at hin
    simp only [resolve_cons, hfind, get?_erase_of_new ho hfind, hsource, hscan, hreg, hin]
  | case7 sources owner s i more hfind bytes hsource scanned hscan k s₁ hreg targets s₂ hr e hfill ih =>
    obtain ⟨v, hv⟩ := exists_fill hw hfind hreg hr (.ofScanned i.name scanned targets)
    cases hfill.symm.trans hv
  | case8 sources owner s i more hfind bytes hsource scanned hscan k s₁ hreg targets s₂ hr s₃ hfill r t he ihn ihm
  | case9 sources owner s i more hfind bytes hsource scanned hscan k s₁ hreg targets s₂ hr s₃ hfill r t he ihn ihm =>
    have hf : Fetch fault sources s i.name scanned k s₁ targets s₂ s₃ :=
      ⟨hfind, ⟨bytes, hsource, hscan⟩, hreg, hr, hfill⟩
    have hin := (ihn (hf.wf_registered hw) ((has_register hfind hreg _).2 (Or.inr ho))).trans hr
    rw [Assoc.erase_comm] at hin
    simp only [resolve_cons, hfind, get?_erase_of_new ho hfind, hsource, hscan, hreg, hin, hfill,
      ihm (hf.wf hw) (hf.mono hw other ho), he]
    rfl

theorem Reading.resolve_eq (h : Reading fault sources owner s includes served r t) (hw : WellFormed s.fragments) :
    s.resolve fault sources owner includes = (r, t) := by
  induction h with
  | nil owner s => rw [resolve]
  | stored hk h ih =>
    simp only [resolve_cons, hk, ih hw]
    rfl
  | unreadable more hn hb => simp only [resolve_cons, hn, hb]
  | malformed more hn hb he => simp only [resolve_cons, hn, hb, he]
  | @inside owner s t u i more scanned k inner e hn hscan hreg hin ih =>
    obtain ⟨bytes, hb, hs⟩ := hscan
    obtain ⟨hw₁, -, -⟩ := register_spec (s := s.noteRead) hw hn hreg
    have hr := (resolve_erase hw₁ ((has_register hn hreg _).2 (Or.inl rfl))).trans (ih hw₁)
    simp only [resolve_cons, hn, hb, hs, hreg, hr]
  | @fetched owner s t u v w i more scanned k targets inner served r hn hscan hreg hin hfill h ihn ih =>
    obtain ⟨hw₁, -, -⟩ := register_spec (s := s.noteRead) hw hn hreg
    have hr := (resolve_erase hw₁ ((has_register hn hreg _).2 (Or.inl rfl))).trans (ihn hw₁)
    have hf : Fetch fault sources s i.name scanned k t targets u v := ⟨hn, hscan, hreg, hr, hfill⟩
    rw [hf.resolve_cons owner rfl, ih (hf.wf hw)]
    rfl

theorem reading_iff (hw : WellFormed s.fragments) :
    (∃ served, Reading fault sources owner s includes served r t) ↔
      s.resolve fault sources owner includes = (r, t) := by
  constructor
  · rintro ⟨served, h⟩
    exact h.resolve_eq hw
  · intro h
    have hread := exists_reading fault sources owner hw includes
    rwa [h] at hread

/-! ## What is served -/

/-- A name that is not stored, and what its source includes. -/
def Opens (sources : Assoc String Bytes) (s : FragmentStore) (n m : String) : Prop :=
  ¬ s.Has n ∧ ∃ scanned, Scans sources n scanned ∧ ∃ i ∈ scanned.includes, i.name = m

theorem Opens.mono {s t : FragmentStore} (hst : ∀ n, s.Has n → t.Has n) {n m : String} (h : Opens sources t n m) :
    Opens sources s n m :=
  ⟨fun hn => h.1 (hst n hn), h.2⟩

/-- Names that are served while includes are resolved. Each is served once, and none that is stored. The includes lead
to it through sources of names that are not stored. After a success they are what is new. -/
structure Serves (sources : Assoc String Bytes) (s : Inclusion) (includes : List PendingInclude) (served : List String)
    (r : Except ShaderError (List FragmentKey)) (t : Inclusion) : Prop where
  nodup : served.Nodup
  absent : ∀ n ∈ served, ¬ s.fragments.Has n
  count : t.reads = s.reads + served.length
  reached : ∀ n ∈ served, ∃ i ∈ includes, ReflTransGen (Opens sources s.fragments) i.name n
  new : ∀ n, t.fragments.Has n → s.fragments.Has n ∨ n ∈ served
  stored : ∀ ks, r = .ok ks → ∀ n ∈ served, t.fragments.Has n

namespace Serves

theorem none (h : ∀ n, t.fragments.Has n → s.fragments.Has n) (hr : t.reads = s.reads) :
    Serves sources s includes [] r t :=
  ⟨.nil, fun _ hn => absurd hn List.not_mem_nil, hr, fun _ hn => absurd hn List.not_mem_nil, fun n hn => .inl (h n hn),
    fun _ _ _ hn => absurd hn List.not_mem_nil⟩

/-- An include in front that needs no source. -/
theorem skip (i : PendingInclude) (h : Serves sources s more served r t) : Serves sources s (i :: more) served r t := by
  refine ⟨h.nodup, h.absent, h.count, fun n hn => ?_, h.new, h.stored⟩
  obtain ⟨j, hj, hpath⟩ := h.reached n hn
  exact ⟨j, List.mem_cons_of_mem i hj, hpath⟩

theorem map (h : Serves sources s includes served r t) (f : List FragmentKey → List FragmentKey) :
    Serves sources s includes served (r.map f) t := by
  refine ⟨h.nodup, h.absent, h.count, h.reached, h.new, fun ks hks => ?_⟩
  cases r with
  | error e => cases hks
  | ok ks' => exact h.stored ks' rfl

/-- An include whose source is read: it is served first, and then what its source includes. -/
theorem enter {i : PendingInclude} (more : List PendingInclude) {scanned : Scanned} {k : FragmentKey}
    {inner : List String} (hn : s.fragments.find? i.name = .none) (hscan : Scans sources i.name scanned)
    (hreg : s.noteRead.register i.name = (k, t)) (h : Serves sources t scanned.includes inner r u)
    (hkeep : ∀ n, t.fragments.Has n → u.fragments.Has n) : Serves sources s (i :: more) (i.name :: inner) r u := by
  have hself : ¬ s.fragments.Has i.name := FragmentStore.not_has_iff.2 hn
  have hhas := has_register hn hreg
  have hreads : t.reads = s.reads + 1 := by
    rw [register_eq (s := s.noteRead) hn] at hreg
    cases hreg
    rfl
  have hnodup : (i.name :: inner).Nodup :=
    List.nodup_cons.2 ⟨fun hin => h.absent _ hin ((hhas _).2 (.inl rfl)), h.nodup⟩
  refine ⟨hnodup, fun n hm => ?_, ?_, fun n hm => ?_, fun n hn => ?_, fun ks hks n hm => ?_⟩
  · rcases List.mem_cons.1 hm with rfl | hm
    · exact hself
    · exact fun hs => h.absent n hm ((hhas n).2 (.inr hs))
  · rw [h.count, hreads, List.length_cons]
    omega
  · refine ⟨i, List.mem_cons_self, ?_⟩
    rcases List.mem_cons.1 hm with rfl | hm
    · exact .refl
    · obtain ⟨j, hj, hpath⟩ := h.reached n hm
      have hlater : ∀ n m, Opens sources t.fragments n m → Opens sources s.fragments n m :=
        fun _ _ => Opens.mono fun n hs => (hhas n).2 (.inr hs)
      exact .head ⟨hself, scanned, hscan, j, hj, rfl⟩ (ReflTransGen.mono hlater _ _ hpath)
  · rcases h.new n hn with hn | hn
    · rcases (hhas n).1 hn with rfl | hn
      · exact .inr List.mem_cons_self
      · exact .inl hn
    · exact .inr (List.mem_cons_of_mem _ hn)
  · rcases List.mem_cons.1 hm with rfl | hm
    · exact hkeep _ ((hhas _).2 (.inl rfl))
    · exact h.stored ks hks n hm

theorem fill {k : FragmentKey} {f : Fragment} (h : Serves sources s includes served r t) (hf : t.fill k f = .ok u) :
    Serves sources s includes served r u := by
  have hreads : u.reads = t.reads := by
    unfold Inclusion.fill at hf
    split at hf
    · cases hf
    · cases hf
      rfl
  exact ⟨h.nodup, h.absent, hreads.trans h.count, h.reached, fun n hn => h.new n ((has_fill hf n).1 hn),
    fun ks hks n hn => (has_fill hf n).2 (h.stored ks hks n hn)⟩

/-- The other includes behind one that was served with all that it includes. -/
theorem append {targets : List FragmentKey} {inner : List String} {i : PendingInclude}
    (h : Serves sources s [i] inner (.ok targets) t) (h' : Serves sources t more served r u)
    (hkeep : ∀ n, s.fragments.Has n → t.fragments.Has n) (hkeep' : ∀ n, t.fragments.Has n → u.fragments.Has n) :
    Serves sources s (i :: more) (inner ++ served) r u := by
  have hin := h.stored targets rfl
  refine ⟨h.nodup.append h'.nodup fun n hn hn' => h'.absent n hn' (hin n hn), fun n hm => ?_, ?_, fun n hm => ?_,
    fun n hn => ?_, fun ks hks n hm => ?_⟩
  · rcases List.mem_append.1 hm with hm | hm
    · exact h.absent n hm
    · exact fun hs => h'.absent n hm (hkeep n hs)
  · rw [h'.count, h.count, List.length_append, Nat.add_assoc]
  · rcases List.mem_append.1 hm with hm | hm
    · obtain ⟨j, hj, hpath⟩ := h.reached n hm
      exact ⟨j, List.mem_singleton.1 hj ▸ List.mem_cons_self, hpath⟩
    · obtain ⟨j, hj, hpath⟩ := h'.reached n hm
      exact ⟨j, List.mem_cons_of_mem i hj, ReflTransGen.mono (fun _ _ => Opens.mono hkeep) _ _ hpath⟩
  · rcases h'.new n hn with hn | hn
    · exact (h.new n hn).imp_right (List.mem_append_left _)
    · exact .inr (List.mem_append_right _ hn)
  · rcases List.mem_append.1 hm with hm | hm
    · exact hkeep' n (hin n hm)
    · exact h'.stored ks hks n hm

end Serves

theorem Reading.serves (h : Reading fault sources owner s includes served r t) :
    Serves sources s includes served r t := by
  induction h with
  | nil owner s => exact .none (fun _ => id) rfl
  | stored hk h ih => exact (ih.skip _).map _
  | unreadable more hn hb => exact .none (fun _ => id) rfl
  | @malformed owner s i more bytes e hn hb he =>
    have hself : ¬ s.fragments.Has i.name := FragmentStore.not_has_iff.2 hn
    exact ⟨List.nodup_singleton _, List.forall_mem_singleton.2 hself, rfl,
      List.forall_mem_singleton.2 ⟨i, List.mem_cons_self, .refl⟩, fun n hs => .inl hs, fun _ hks => (nomatch hks)⟩
  | inside more hn hscan hreg hin ih => exact ih.enter more hn hscan hreg fun _ => hin.has
  | fetched hn hscan hreg hin hfill h ihn ih =>
    have hfirst := (ihn.enter [] hn hscan hreg fun _ => hin.has).fill hfill
    refine (hfirst.append ih (fun n hs => ?_) fun _ => h.has).map _
    exact (has_fill hfill n).2 (hin.has ((has_register hn hreg n).2 (.inr hs)))

/-! ## What names lead to -/

/-- What a name includes: its fragment as it is stored, or else its source. -/
def Leads (sources : Assoc String Bytes) (s : FragmentStore) (n m : String) : Prop :=
  match s.content? n with
  | some c => ∃ i ∈ c.includes, i.1 = m
  | none => ∃ scanned, Scans sources n scanned ∧ ∃ i ∈ scanned.includes, i.name = m

theorem Opens.leads {s : FragmentStore} {n m : String} (h : Opens sources s n m) : Leads sources s n m := by
  unfold Leads
  rw [FragmentStore.content?_eq_none h.1]
  exact h.2

/-- A fragment that comes from its source includes what the source includes. -/
theorem FromSource.exists_of_scans {s : FragmentStore} {n : String} (h : FromSource sources s n) {scanned : Scanned}
    (hscan : Scans sources n scanned) : s.content? n = some (scanned.content n Generation.zero.next) := by
  obtain ⟨bytes, scanned', hb, hs, hc⟩ := h
  obtain ⟨bytes', hb', hs'⟩ := hscan
  cases hb.symm.trans hb'
  cases hs.symm.trans hs'
  exact hc

/-- After a success the table has all that its names lead to. -/
theorem has_of_leads (hs : WellFormed s.fragments) (ht : WellFormed t.fragments)
    (hkeep : Keeps s.fragments t.fragments)
    (hnew : ∀ n, t.fragments.Has n → s.fragments.Has n ∨ FromSource sources t.fragments n) {n m : String}
    (hn : t.fragments.Has n) (h : Leads sources s.fragments n m) : t.fragments.Has m := by
  unfold Leads at h
  cases hc : s.fragments.content? n with
  | some c =>
    rw [hc] at h
    obtain ⟨i, hi, rfl⟩ := h
    exact hkeep.has hs.named ht.named (hs.has_of_content? hc hi)
  | none =>
    rw [hc] at h
    obtain ⟨scanned, hscan, i, hi, rfl⟩ := h
    have hfrom : FromSource sources t.fragments n := by
      refine (hnew n hn).resolve_left ?_
      rintro ⟨k, hk⟩
      obtain ⟨f, hf, rfl⟩ := (hs.named n k).1 hk
      rw [hs.named.content?_of_get? hf] at hc
      cases hc
    exact ht.has_of_content? (hfrom.exists_of_scans hscan) (List.mem_map_of_mem hi)

/-- Resolving that succeeds adds just what the includes lead to. -/
theorem has_resolve_iff (hw : WellFormed s.fragments) {ks : List FragmentKey}
    (h : s.resolve fault sources owner includes = (.ok ks, t)) (n : String) :
    t.fragments.Has n ↔ s.fragments.Has n ∨ ∃ i ∈ includes, ReflTransGen (Leads sources s.fragments) i.name n := by
  obtain ⟨served, hread⟩ := exists_reading fault sources owner hw includes
  have hspec := resolve_spec fault sources owner s includes hw
  have hstocks := stocks_resolve fault sources owner hw includes
  rw [h] at hread hspec hstocks
  obtain ⟨new, hg⟩ := hspec.grows
  obtain ⟨hnames, hcontent⟩ := hstocks ks rfl
  refine ⟨fun hn => ?_, ?_⟩
  · refine (hread.serves.new n hn).imp_right fun hm => ?_
    obtain ⟨i, hi, hpath⟩ := hread.serves.reached n hm
    exact ⟨i, hi, ReflTransGen.mono (fun _ _ => Opens.leads) _ _ hpath⟩
  · rintro (hn | ⟨i, hi, hpath⟩)
    · exact hread.has hn
    · induction hpath with
      | refl =>
        have hmem : i.name ∈ ks.map t.fragments.displayName := hnames ▸ List.mem_map_of_mem hi
        obtain ⟨k, hk, he⟩ := List.mem_map.1 hmem
        exact he ▸ hspec.wf.named.has_displayName (hspec.stored ks rfl k hk)
      | tail _ hlast ih => exact has_of_leads hw hspec.wf hg.keeps hcontent ih hlast

end Inclusion

end ShaderVariant
