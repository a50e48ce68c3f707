import ShaderVariant.Proofs.Fragment.Store
import ShaderVariant.Proofs.Source.Directive

/-!
# Spliced texts

Where the lines of an expanded text come from.

* `FragmentStore.Spliced` : a text put together line by line, with an expanded fragment in place of each include;
* `spliced_of_expand` : expanding the includes of a scanned source does that;
* `Fragment.Clean` : only white space stands behind the includes of a fragment, on their lines;
* `refers_of_expand` : so the lines of an expanded text refer to flags that were collected, if that holds of every
  fragment that is reached.
-/

namespace ShaderVariant

open Directive (ofLine? splitInclude flagRef?)
open Relation (ReflTransGen)
open Text (Blank AreLines endsLine)

namespace FragmentStore

/-! ## Line by line -/

/-- A text made of lines in which the includes are replaced by expanded fragments, inside the fragments on `path`. -/
inductive Spliced (s : FragmentStore) (path : List FragmentKey) : List Text → List Include → Text → Prop
  | nil : Spliced s path [] [] []
  | line {l : Text} {ls : List Text} {is : List Include} {t : Text}
      (hl : ∀ argument, ofLine? l ≠ some (.inclusion argument)) (h : Spliced s path ls is t) :
      Spliced s path (l :: ls) is (l ++ t)
  | splice {l argument before after : Text} {name : String} {i : Include} {f : Fragment} {ls : List Text}
      {is : List Include} {inner t : Text} (hd : ofLine? l = some (.inclusion argument))
      (hsplit : splitInclude l argument = .ok (before, name, after)) (hp : i.target ∉ path)
      (hf : s.get? i.target = some f) (hin : s.expand (path ++ [i.target]) 0 f.text f.includes = .ok inner)
      (h : Spliced s path ls is t) : Spliced s path (l :: ls) (i :: is) (before ++ inner ++ after ++ t)

theorem expand_cons_eq_ok {s : FragmentStore} {path : List FragmentKey} {start : Nat} {rest : Text} {i : Include}
    {more : List Include} {t : Text} (h : s.expand path start rest (i :: more) = .ok t) :
    i.target ∉ path ∧ ∃ f inner outer, s.get? i.target = some f ∧
      s.expand (path ++ [i.target]) 0 f.text f.includes = .ok inner ∧
        s.expand path i.offset (rest.splitBytes (i.offset - start)).2 more = .ok outer ∧
          t = (rest.splitBytes (i.offset - start)).1 ++ inner ++ outer := by
  rw [expand_cons] at h
  split at h
  · cases h
  · next hp =>
    split at h
    · cases h
    · next f hf =>
      split at h
      · cases h
      · next inner hin =>
        split at h
        · cases h
        · next outer hout =>
          cases h
          exact ⟨hp, f, inner, outer, hf, hin, hout, rfl⟩

/-- The expansion of what was scanned from lines, behind a part of the text that is passed already. -/
theorem spliced_of_expand {s : FragmentStore} {path : List FragmentKey} {source : String} {line : UInt32}
    {offset start : Nat} {ls : List Text} (passed : Text) {text t : Text} {pending : List PendingInclude}
    {is : List Include} (h : Scanned.scanLines source line offset ls = .ok (text, pending))
    (hpassed : start + passed.byteLength = offset) (his : is.map (·.offset) = pending.map (·.offset))
    (he : s.expand path start (passed ++ text) is = .ok t) :
    ∃ rest, t = passed ++ rest ∧ Spliced s path ls is rest := by
  induction ls generalizing line offset start text passed t pending is with
  | nil =>
    cases h
    cases List.map_eq_nil_iff.1 his
    rw [expand] at he
    cases he
    exact ⟨[], rfl, .nil⟩
  | cons l ls ih =>
    rw [Scanned.scanLines] at h
    split at h
    · next argument hd =>
      split at h
      · cases h
      · next before name after hsplit =>
        split at h
        · cases h
        · next rest others hrest =>
          cases h
          obtain ⟨i, is, rfl⟩ : ∃ i is', is = i :: is' := List.exists_cons_of_ne_nil fun hnil => by
            rw [hnil] at his
            cases his
          have hoff : i.offset = offset + before.byteLength := List.head_eq_of_cons_eq his
          have his := List.tail_eq_of_cons_eq his
          obtain ⟨hp, f, inner, outer, hf, hin, hout, rfl⟩ := expand_cons_eq_ok he
          -- The include stands behind what is passed and the start of its line, so the text is cut there.
          have hcut : (passed ++ (before ++ after ++ rest)).splitBytes (i.offset - start) =
              (passed ++ before, after ++ rest) := by
            have hlen : i.offset - start = (passed ++ before).byteLength := by
              rw [Text.byteLength_append]
              omega
            rw [hlen, List.append_assoc, ← List.append_assoc passed]
            exact Text.splitBytes_byteLength _ _
          rw [hcut] at hout
          obtain ⟨tail, rfl, htail⟩ := ih _ hrest (by rw [hoff]) his hout
          refine ⟨before ++ inner ++ after ++ tail, ?_, .splice hd hsplit hp hf hin htail⟩
          rw [hcut]
          simp only [List.append_assoc]
    · next hl =>
      split at h
      · cases h
      · next rest others hrest =>
        cases h
        rw [← List.append_assoc] at he
        obtain ⟨tail, rfl, htail⟩ := ih _ hrest (by rw [Text.byteLength_append]; omega) his he
        exact ⟨l ++ tail, List.append_assoc .., .line hl htail⟩

end FragmentStore

/-! ## Clean includes -/

def Text.restOfLine (n : Nat) (t : Text) : Text := (t.splitBytes n).2.takeWhile (· != '\n')

/-- Only white space stands behind the includes of a fragment, on their lines. -/
def Fragment.Clean (f : Fragment) : Prop := ∀ i ∈ f.includes, Blank (Text.restOfLine i.offset f.text)

/-- The end of a line is blank if all of it up to the line feed is. -/
theorem blank_of_takeWhile {l after rest : Text} (hl : AreLines [l]) (hafter : after <:+ l)
    (h : Blank ((after ++ rest).takeWhile (· != '\n'))) : Blank after := by
  obtain ⟨t, ht, hcase⟩ := hl.exists_eq
  have hne : ∀ a, a <:+ t → ∀ c ∈ a, (c != '\n') = true := fun a ha c hc => by
    rw [bne_iff_ne]
    rintro rfl
    exact ht (ha.subset hc)
  rcases hcase with ⟨-, rfl⟩ | ⟨-, rfl⟩
  · rw [List.takeWhile_append_of_pos (hne after hafter)] at h
    exact h.of_append_left
  · rcases List.suffix_concat_iff.1 hafter with rfl | ⟨a, rfl, ha⟩
    · exact fun c hc => absurd hc List.not_mem_nil
    · rw [List.append_assoc, List.takeWhile_append_of_pos (hne a ha)] at h
      exact h.of_append_left.append Text.blank_newline

/-- In the source of a clean fragment only white space stands behind an include on its line. `passed` is the text of the
lines before. -/
theorem blank_after_of_scanLines {source : String} {line : UInt32} {offset : Nat} {ls : List Text} (passed : Text)
    {text : Text} {pending : List PendingInclude} (h : Scanned.scanLines source line offset ls = .ok (text, pending))
    (hpassed : passed.byteLength = offset) (hls : AreLines ls)
    (hclean : ∀ p ∈ pending, Blank (Text.restOfLine p.offset (passed ++ text))) :
    ∀ l ∈ ls, ∀ argument before name after, ofLine? l = some (.inclusion argument) →
      splitInclude l argument = .ok (before, name, after) → Blank after := by
  induction ls generalizing line offset passed text pending with
  | nil => exact fun l hl => absurd hl List.not_mem_nil
  | cons l ls ih =>
    obtain ⟨hline, hrest, -⟩ := hls.of_cons
    rw [Scanned.scanLines] at h
    split at h
    · next argument hd =>
      split at h
      · cases h
      · next before name after hsplit =>
        split at h
        · cases h
        · next rest others hscan =>
          cases h
          obtain ⟨hfirst, hothers⟩ := List.forall_mem_cons.1 hclean
          refine List.forall_mem_cons.2 ⟨fun argument' before' name' after' hd' hsplit' => ?_, ?_⟩
          · rw [hd] at hd'
            cases hd'
            rw [hsplit] at hsplit'
            cases hsplit'
            obtain ⟨-, front, closing, -, hl⟩ := Directive.splitInclude_spec hd hsplit
            have hcut : Text.restOfLine (offset + before.byteLength) (passed ++ (before ++ after ++ rest)) =
                (after ++ rest).takeWhile (· != '\n') := by
              unfold Text.restOfLine
              rw [← hpassed, ← Text.byteLength_append, List.append_assoc before, ← List.append_assoc passed,
                Text.splitBytes_byteLength]
            refine blank_of_takeWhile hline ⟨front ++ [closing], ?_⟩ (hcut ▸ hfirst)
            rw [hl, List.append_assoc]
            rfl
          · refine ih (passed ++ (before ++ after)) hscan ?_ hrest fun p hp => ?_
            · simp only [Text.byteLength_append, ← hpassed, Nat.add_assoc]
            · rw [List.append_assoc]
              exact hothers p hp
    · next hd =>
      split at h
      · cases h
      · next rest others hscan =>
        cases h
        refine List.forall_mem_cons.2 ⟨fun argument before name after hd' _ => absurd hd' (hd argument), ?_⟩
        refine ih (passed ++ l) hscan (by rw [Text.byteLength_append, hpassed]) hrest fun p hp => ?_
        rw [List.append_assoc]
        exact hclean p hp

/-! ## References of expanded texts -/

namespace FragmentStore

/-- The lines of a spliced text refer to what the lines and the included texts refer to, if the lines hold only white
space behind includes. -/
theorem Spliced.refers {s : FragmentStore} {path : List FragmentKey} {ls : List Text} {is : List Include} {t : Text}
    {P : String → Prop} (h : Spliced s path ls is t) (hls : AreLines ls)
    (hrefs : ∀ l ∈ ls, ∀ name, flagRef? l = some name → P name)
    (hblank : ∀ l ∈ ls, ∀ argument before name after, ofLine? l = some (.inclusion argument) →
      splitInclude l argument = .ok (before, name, after) → Blank after)
    (hin : ∀ i ∈ is, i.target ∉ path → ∀ f inner, s.get? i.target = some f →
      s.expand (path ++ [i.target]) 0 f.text f.includes = .ok inner → Refers P inner) : Refers P t := by
  induction h with
  | nil => exact .nil
  | @line l ls is t _ h ih =>
    obtain ⟨hline, hrest, hend⟩ := hls.of_cons
    obtain ⟨hl, hrefs⟩ := List.forall_mem_cons.1 hrefs
    have ht := ih hrest hrefs (List.forall_mem_cons.1 hblank).2 hin
    refine (Refers.of_line hline hl).append ht (hend.imp_right fun hnil => ?_)
    subst hnil
    cases h
    rfl
  | @splice l argument before after name i f ls is inner t hd hsplit hp hf hinner h ih =>
    obtain ⟨hline, hrest, hend⟩ := hls.of_cons
    obtain ⟨hafter, hblank⟩ := List.forall_mem_cons.1 hblank
    obtain ⟨hi, hin⟩ := List.forall_mem_cons.1 hin
    have ht := ih hrest (List.forall_mem_cons.1 hrefs).2 hblank hin
    have hbefore := (Directive.splitInclude_spec hd hsplit).1
    have hrow := (Refers.blank_append hbefore (hi hp f inner hf hinner)).append_blank
      (hafter argument before name after hd hsplit)
    refine hrow.append ht (hend.imp (fun he => ?_) fun hnil => ?_)
    · exact Text.endsLine_append _ (Directive.endsLine_after hd hsplit he)
    · subst hnil
      cases h
      rfl

/-- The lines of an expanded fragment refer to flags that were collected from it or from what it includes, if all of
these are clean. -/
theorem refers_of_expand {s : FragmentStore} {P : String → Prop} {path : List FragmentKey} {f : Fragment} {t : Text}
    (hf : f.Sourced ∧ f.Clean ∧ ∀ name ∈ f.flagRefs, P name)
    (hreach : ∀ k ∈ f.targets, ∀ x g, ReflTransGen s.Includes k x → s.get? x = some g →
      g.Sourced ∧ g.Clean ∧ ∀ name ∈ g.flagRefs, P name)
    (h : s.expand path 0 f.text f.includes = .ok t) : Refers P t := by
  -- Along the path less and less is left to visit.
  induction hn : s.unvisited path using Nat.strong_induction_on generalizing path f t with
  | _ n ih =>
    obtain ⟨⟨source, u, line, scanned, hscan, htext, hflags, hoffsets⟩, hclean, hrefs⟩ := hf
    unfold Scanned.ofText at hscan
    split at hscan
    · cases hscan
    · next text pending hlines =>
      cases hscan
      have hu := Text.areLines_splitLines u
      rw [htext] at h
      obtain ⟨rest, rfl, hspliced⟩ := spliced_of_expand [] hlines (Nat.zero_add 0) hoffsets h
      refine hspliced.refers hu (fun l hl name hname => ?_) ?_ fun i hi hp g inner hg hinner => ?_
      · refine hrefs name ?_
        rw [hflags]
        exact List.mem_eraseDups.2 (List.mem_filterMap.2 ⟨l, hl, hname⟩)
      · refine blank_after_of_scanLines [] hlines rfl hu fun p hp => ?_
        obtain ⟨i, hi, he⟩ := List.mem_map.1 (hoffsets ▸ List.mem_map_of_mem hp)
        have := hclean i hi
        rwa [htext, he] at this
      · have hk : i.target ∈ f.targets := List.mem_map_of_mem hi
        refine ih _ ?_ (hreach i.target hk i.target g .refl hg) (fun k hk' x g' hx => ?_) hinner rfl
        · have := unvisited_append_lt hg hp
          omega
        · exact hreach i.target hk x g' (.head ⟨g, hg, hk'⟩ hx)

end FragmentStore

end ShaderVariant
