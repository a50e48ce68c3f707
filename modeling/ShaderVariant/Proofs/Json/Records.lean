import Mathlib.Data.List.Nodup
import Mathlib.Logic.Function.Basic
import Mathlib.Tactic.Convert
import ShaderVariant.Proofs.Json.Values

/-!
# Records in JSON

* `Json.Takes` : the texts that a reader takes for a value;
* `Json.ObjectText` : an object with its members in order, each with its key and the text of its value. What is written
  is one (`objectText_writeObject`);
* `Json.Schema` : the fields of a record as data. `Schema.Written` : the members of an object write some of the fields, in
  any order, and others that are not known;
* `Schema.Fits.takes` : of such an object, a record reader takes what is written, and leaves every other field as it is.
-/

namespace ShaderVariant.Json

/-! ## Readers -/

/-- A reader takes a text for a value, behind any white space and before anything that may stand behind it. -/
def Takes {α : Type} (read : ReaderOf α) (t : Text) (a : α) : Prop :=
  ∀ b rest, Spaces b → Delimited rest → read (b ++ (t ++ rest)) = .ok (a, rest)

theorem Takes.map {α β : Type} {read : ReaderOf α} {t : Text} {a : α} (h : Takes read t a) (f : α → β) :
    Takes (read.map f) t (f a) := by
  intro b rest hb hrest
  simp only [ReaderOf.map, h b rest hb hrest]

theorem takes_readBool (v : Bool) : Takes readBool (writeBool v) v := by
  intro b rest hb _
  cases v with
  | false =>
    show readBool (b ++ 'f' :: ("alse".toList ++ rest)) = _
    rw [readBool, skipSpace_append_cons hb (by decide)]
    simp only [readWord, skipWord_append]
  | true =>
    show readBool (b ++ 't' :: ("rue".toList ++ rest)) = _
    rw [readBool, skipSpace_append_cons hb (by decide)]
    simp only [readWord, skipWord_append]

theorem takes_readText {s t : Text} (h : StringText s t) : Takes readText ('"' :: t) s := by
  intro b rest hb _
  rw [List.cons_append, readText, skipSpace_append_cons hb (by decide)]
  exact readString_append h rest

theorem readDocument_of_takes {α : Type} {read : ReaderOf α} {t : Text} {a : α} (h : Takes read t a) {b b' : Text}
    (hb : Spaces b) (hb' : Spaces b') : readDocument read (b ++ (t ++ b')) = .ok a := by
  have hrest : Delimited b' := by
    simpa using hb'.delimited delimited_nil
  have hspace : skipSpace b' = [] := by
    rw [← List.append_nil b', skipSpace_append hb']
    rfl
  simp only [readDocument, h b b' hb hrest, hspace, List.isEmpty_nil, if_true]

/-! ## Objects -/

/-- A member of an object: a key in any of its spellings, and the text of a value. -/
inductive MemberText : String × Text → Text → Prop
  | mk {key : String} {b₁ k b₂ b₃ v b₄ : Text} (hb₁ : Spaces b₁) (hk : StringText key.toList k) (hb₂ : Spaces b₂)
      (hb₃ : Spaces b₃) (hb₄ : Spaces b₄) :
      MemberText (key, v) (b₁ ++ '"' :: (k ++ (b₂ ++ ':' :: (b₃ ++ (v ++ b₄)))))

inductive MembersText : List (String × Text) → Text → Prop
  | last {m : String × Text} {t : Text} (h : MemberText m t) : MembersText [m] t
  | cons {m : String × Text} {ms : List (String × Text)} {t u : Text} (h : MemberText m t) (hms : MembersText ms u) :
      MembersText (m :: ms) (t ++ ',' :: u)

inductive ObjectText : List (String × Text) → Text → Prop
  | empty {b : Text} (hb : Spaces b) : ObjectText [] ('\x7b' :: (b ++ ['\x7d']))
  | members {ms : List (String × Text)} {t : Text} (h : MembersText ms t) : ObjectText ms ('\x7b' :: (t ++ ['\x7d']))

/-! ## Writing -/

theorem spaces_replicate (n : Nat) : Spaces (List.replicate n ' ') := by
  intro c hc
  rw [List.eq_of_mem_replicate hc]
  rfl

theorem memberText_write (depth : Nat) (m : String × Text) {b b' : Text} (hb : Spaces b) (hb' : Spaces b') :
    MemberText m (b ++ (List.replicate (2 * depth) ' ' ++ quote m.1.toList ++ [':', ' '] ++ m.2 ++ b')) := by
  have hfront : Spaces (b ++ List.replicate (2 * depth) ' ') := List.forall_mem_append.2 ⟨hb, spaces_replicate _⟩
  have hspace : Spaces [' '] := spaces_cons rfl spaces_nil
  have h := MemberText.mk (v := m.2) hfront (stringText_quote m.1.toList) spaces_nil hspace hb'
  simpa [quote] using h

theorem membersText_writeMembers (depth : Nat) {ms : List (String × Text)} (hms : ms ≠ []) {b b' : Text} (hb : Spaces b)
    (hb' : Spaces b') : MembersText ms (b ++ (writeMembers depth ms ++ b')) := by
  induction ms generalizing b with
  | nil => exact absurd rfl hms
  | cons m ms ih =>
    cases ms with
    | nil =>
      have h := memberText_write depth m hb (spaces_cons (c := '\n') rfl hb')
      refine .last ?_
      simpa [writeMembers] using h
    | cons n ms =>
      have h := memberText_write depth m hb spaces_nil
      have hmore := ih (List.cons_ne_nil n ms) (spaces_cons (c := '\n') rfl spaces_nil)
      have := MembersText.cons h hmore
      simpa [writeMembers] using this

/-- What is written is an object with the members that are given. -/
theorem objectText_writeObject (depth : Nat) {ms : List (String × Text)} (hms : ms ≠ []) :
    ObjectText ms (writeObject depth ms) := by
  have hfront : Spaces ['\n'] := spaces_cons rfl spaces_nil
  have h := membersText_writeMembers depth hms hfront (spaces_replicate (2 * (depth - 1)))
  have := ObjectText.members h
  simpa [writeObject] using this

/-! ## Records -/

variable {ρ ι : Type} {β : ι → Type}

/-- The fields of a record: their labels, the texts that write their values, and what a value changes. -/
structure Schema (ρ ι : Type) (β : ι → Type) where
  label : ι → String
  Writes : ∀ i, β i → Text → Prop
  set : ∀ i, β i → ρ → ρ

variable [DecidableEq ι]

/-- Members of an object write some of the fields of a record, each of them once, among others that are not known. -/
inductive Schema.Written (S : Schema ρ ι β) : (∀ i, Option (β i)) → List (String × Text) → Prop
  | nil : S.Written (fun _ => none) []
  | unknown {w : ∀ i, Option (β i)} {ms : List (String × Text)} {key : String} {t : Text} (hkey : ∀ i, key ≠ S.label i)
      (ht : Form .value t) (h : S.Written w ms) : S.Written w ((key, t) :: ms)
  | known {w : ∀ i, Option (β i)} {ms : List (String × Text)} {i : ι} {a : β i} {t : Text} (ht : S.Writes i a t)
      (hnew : S.label i ∉ ms.map Prod.fst) (h : S.Written w ms) :
      S.Written (Function.update w i (some a)) ((S.label i, t) :: ms)

/-- The fields of a reader are those of the schema, and `onto` writes a choice of them onto a record. -/
structure Schema.Fits (S : Schema ρ ι β) (fields : List (RecordField ρ)) (onto : (∀ i, Option (β i)) → ρ → ρ) : Prop where
  known : ∀ i, ∃ f, fields.find? (·.name == S.label i) = some f ∧ ∀ a t, S.Writes i a t → Takes f.read t (S.set i a)
  unknown : ∀ key, (∀ i, key ≠ S.label i) → fields.find? (·.name == key) = none
  onto_none : ∀ r, onto (fun _ => none) r = r
  onto_set : ∀ w i a r, w i = none → onto w (S.set i a r) = onto (Function.update w i (some a)) r

/-- A field that no member writes is not written. -/
theorem Schema.Written.eq_none {S : Schema ρ ι β} {w : ∀ i, Option (β i)} {ms : List (String × Text)}
    (h : S.Written w ms) {i : ι} (hi : S.label i ∉ ms.map Prod.fst) : w i = none := by
  induction h with
  | nil => rfl
  | unknown _ _ _ ih =>
    rw [List.map_cons, List.mem_cons, not_or] at hi
    exact ih hi.2
  | known _ _ _ ih =>
    rw [List.map_cons, List.mem_cons, not_or] at hi
    rw [Function.update_of_ne fun he => hi.1 (congrArg S.label he)]
    exact ih hi.2

/-- Members for some of the fields, each of them once, write these. -/
theorem Schema.written_map (S : Schema ρ ι β) (hlabel : Function.Injective S.label) {is : List ι} (his : is.Nodup)
    {a : ∀ i, β i} {text : ι → Text} (h : ∀ i, S.Writes i (a i) (text i)) :
    S.Written (fun i => if i ∈ is then some (a i) else none) (is.map fun i => (S.label i, text i)) := by
  induction is with
  | nil => exact .nil
  | cons i is ih =>
    obtain ⟨hi, his⟩ := List.nodup_cons.1 his
    have hnew : S.label i ∉ (is.map fun j => (S.label j, text j)).map Prod.fst := by
      intro hm
      rw [List.map_map] at hm
      obtain ⟨j, hj, he⟩ := List.mem_map.1 hm
      exact hi (hlabel he ▸ hj)
    have hw := Schema.Written.known (h i) hnew (ih his)
    rw [List.map_cons]
    convert hw using 1
    funext j
    by_cases hj : j = i
    · subst hj
      rw [Function.update_self, if_pos List.mem_cons_self]
    · rw [Function.update_of_ne hj]
      simp only [List.mem_cons, hj, false_or]

/-- Members for all fields write all fields. -/
theorem Schema.written_all (S : Schema ρ ι β) (hlabel : Function.Injective S.label) {is : List ι} (his : is.Nodup)
    (hall : ∀ i, i ∈ is) {a : ∀ i, β i} {text : ι → Text} (h : ∀ i, S.Writes i (a i) (text i)) :
    S.Written (fun i => some (a i)) (is.map fun i => (S.label i, text i)) := by
  have hw := S.written_map hlabel his h
  simpa only [hall, if_true] using hw

/-! ## Keys -/

/-- Behind a text, the next key of an object may start, which is or is not the first one. -/
def Leads (first : Bool) (front : Text) : Prop :=
  ∀ b t, Spaces b → keyStart first (front ++ (b ++ '"' :: t)) = .ok (true, t)

theorem leads_nil : Leads true [] := by
  intro b t hb
  rw [List.nil_append, keyStart, skipSpace_append_cons hb (by decide)]
  rfl

theorem leads_comma {b : Text} (hb : Spaces b) : Leads false (b ++ [',']) := by
  intro b' t hb'
  have hspace : skipSpace (b' ++ '"' :: t) = '"' :: t := skipSpace_append_cons hb' (by decide) t
  rw [List.append_assoc, List.singleton_append, keyStart, skipSpace_append_cons hb (by decide)]
  simp [hspace]

theorem keyStart_end (first : Bool) {b : Text} (hb : Spaces b) (rest : Text) :
    keyStart first (b ++ '\x7d' :: rest) = .ok (false, rest) := by
  rw [keyStart, skipSpace_append_cons hb (by decide)]
  rfl

/-! ## Members -/

variable {fields : List (RecordField ρ)} {seen : List String} {key : String} {change : ρ → ρ} {t rest : Text}

theorem readMember_known {f : RecordField ρ} (hf : fields.find? (·.name == key) = some f) (hkey : key ∉ seen)
    {v b b' : Text} (hv : Takes f.read v change) (hb : Spaces b) (hb' : Spaces b') (hrest : Delimited rest) :
    readMember fields seen key (b ++ ':' :: (b' ++ (v ++ rest))) = .ok (change, rest) := by
  simp only [readMember, hf, hkey, if_false, skipColon_append hb]
  exact hv b' rest hb' hrest

theorem readMember_unknown (seen : List String) (hf : fields.find? (·.name == key) = none) {v b b' : Text}
    (hv : Form .value v) (hb : Spaces b) (hb' : Spaces b') (hrest : Delimited rest) :
    readMember fields seen key (b ++ ':' :: (b' ++ (v ++ rest))) = .ok (id, rest) := by
  have hskip : skipValue (b' ++ (v ++ rest)) = .ok rest :=
    (skipPieces_value_congr (skipSpace_append hb' _)).trans (skipValue_append hv hrest)
  simp only [readMember, hf, skipColon_append hb, hskip]

theorem readMembers_cons (h : readNextMember fields seen t = .ok (some (key, change), rest)) (r : ρ) :
    readMembers fields seen r t = readMembers fields (key :: seen) (change r) rest := by
  rw [readMembers]
  split <;> simp_all

theorem readMembers_end (h : readNextMember fields seen t = .ok (none, rest)) (r : ρ) :
    readMembers fields seen r t = .ok (r, rest) := by
  rw [readMembers]
  split <;> simp_all

/-- The key of a member is read, and then its value. -/
theorem readNextMember_append {front b k : Text} (hfront : Leads seen.isEmpty front) (hb : Spaces b)
    (hk : StringText key.toList k) (h : readMember fields seen key t = .ok (change, rest)) :
    readNextMember fields seen (front ++ (b ++ '"' :: (k ++ t))) = .ok (some (key, change), rest) := by
  simp only [readNextMember, hfront b (k ++ t) hb, readString_append hk, String.ofList_toList, h]

namespace Schema.Fits

variable {S : Schema ρ ι β} {onto : (∀ i, Option (β i)) → ρ → ρ} {w : ∀ i, Option (β i)} {ms : List (String × Text)}

/-- A member is read for what it writes, and those behind it write the rest. -/
theorem readMembers_member (hfits : S.Fits fields onto) {m : String × Text} (hm : MemberText m t)
    (hw : S.Written w (m :: ms)) (hseen : ∀ i, S.label i ∈ seen → S.label i ∉ (m :: ms).map Prod.fst) {front : Text}
    (hfront : Leads seen.isEmpty front) (r : ρ) (hrest : Delimited rest) :
    ∃ b w' r', Spaces b ∧ S.Written w' ms ∧ onto w' r' = onto w r ∧
      (∀ i, S.label i ∈ m.1 :: seen → S.label i ∉ ms.map Prod.fst) ∧
      readMembers fields seen r (front ++ (t ++ rest)) = readMembers fields (m.1 :: seen) r' (b ++ rest) := by
  obtain @⟨key, b₁, k, b₂, b₃, v, b₄, hb₁, hk, hb₂, hb₃, hb₄⟩ := hm
  have htext : front ++ (b₁ ++ '"' :: (k ++ (b₂ ++ ':' :: (b₃ ++ (v ++ b₄)))) ++ rest) =
      front ++ (b₁ ++ '"' :: (k ++ (b₂ ++ ':' :: (b₃ ++ (v ++ (b₄ ++ rest)))))) := by
    simp only [List.append_assoc, List.cons_append]
  have hrest := hb₄.delimited hrest
  rw [htext]
  cases hw with
  | unknown hkey hv h =>
    have hmember := readMember_unknown seen (hfits.unknown key hkey) hv hb₂ hb₃ hrest
    refine ⟨b₄, w, r, hb₄, h, rfl, fun i hi hm => ?_, readMembers_cons (readNextMember_append hfront hb₁ hk hmember) r⟩
    rcases List.mem_cons.1 hi with hi | hi
    · exact hkey i hi.symm
    · exact hseen i hi (List.mem_cons_of_mem _ hm)
  | @known w _ i a _ hv hnew h =>
    -- The key has not been seen, or it would stand twice among the members.
    obtain ⟨f, hf, htakes⟩ := hfits.known i
    have hnot : S.label i ∉ seen := fun hi => hseen i hi List.mem_cons_self
    have hmember := readMember_known hf hnot (htakes a v hv) hb₂ hb₃ hrest
    refine ⟨b₄, w, S.set i a r, hb₄, h, hfits.onto_set w i a r (h.eq_none hnew), fun j hj hm => ?_,
      readMembers_cons (readNextMember_append hfront hb₁ hk hmember) r⟩
    rcases List.mem_cons.1 hj with hj | hj
    · rw [hj] at hm
      exact hnew hm
    · exact hseen j hj (List.mem_cons_of_mem _ hm)

theorem readMembers_nil (hfits : S.Fits fields onto) (hw : S.Written w []) (r : ρ) {b : Text} (hb : Spaces b) :
    readMembers fields seen r (b ++ '\x7d' :: rest) = .ok (onto w r, rest) := by
  cases hw
  rw [hfits.onto_none]
  exact readMembers_end (by simp only [readNextMember, keyStart_end _ hb]) r

theorem readMembers_written (hfits : S.Fits fields onto) (ht : MembersText ms t) (hw : S.Written w ms)
    (hseen : ∀ i, S.label i ∈ seen → S.label i ∉ ms.map Prod.fst) {front : Text} (hfront : Leads seen.isEmpty front)
    (r : ρ) : readMembers fields seen r (front ++ (t ++ '\x7d' :: rest)) = .ok (onto w r, rest) := by
  -- What the members behind the first one write goes onto the record that the first one has changed.
  induction ht generalizing w seen front r with
  | last hm =>
    obtain ⟨b, w', r', hb, hw', honto, -, hread⟩ :=
      hfits.readMembers_member hm hw hseen hfront r (delimited_cons (c := '\x7d') (by decide) rest)
    rw [hread, hfits.readMembers_nil hw' r' hb, honto]
  | @cons m ms t u hm _ ih =>
    obtain ⟨b, w', r', hb, hw', honto, hseen', hread⟩ :=
      hfits.readMembers_member hm hw hseen hfront r (delimited_cons (c := ',') (by decide) (u ++ '\x7d' :: rest))
    have hmore := ih hw' hseen' (leads_comma hb) r'
    rw [List.append_assoc, List.singleton_append] at hmore
    rw [List.append_assoc, List.cons_append, hread, hmore, honto]

/-- Of an object, a record takes what is written. Every other field stays. -/
theorem takes (hfits : S.Fits fields onto) (ht : ObjectText ms t) (hw : S.Written w ms) (r : ρ) :
    Takes (readRecord fields r) t (onto w r) := by
  intro b rest hb _
  cases ht with
  | empty hb' =>
    rw [List.cons_append, readRecord, skipSpace_append_cons hb (by decide), List.append_assoc]
    exact hfits.readMembers_nil hw r hb'
  | members h =>
    rw [List.cons_append, readRecord, skipSpace_append_cons hb (by decide), List.append_assoc]
    exact hfits.readMembers_written h hw (fun i hi => absurd hi List.not_mem_nil) leads_nil r

end Schema.Fits

end ShaderVariant.Json
