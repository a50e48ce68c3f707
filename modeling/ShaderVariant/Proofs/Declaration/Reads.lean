import ShaderVariant.Proofs.Declaration.Grammar

/-!
# What readers accept

* `Reader.Reads` : from which tokens a reader gives which value, and what tokens it leaves, in both directions;
* `Reads.bind`, `reads_expect`, `Reads.check` and others : how that is put together;
* `Reader.Repeats`, `reads_repeatStep` : the same for repeated steps;
* `reads_fields` : a block of fields up to its closing brace.
-/

namespace ShaderVariant

/-- The tokens that are left, without their lines. -/
def TokenStream.left (s : TokenStream) : List Token := s.tokens.map (·.token)

theorem Token.spells_iff {g t : Token} : t.spells g.spelling = true ↔ g.Alike t := beq_iff_eq

namespace Grammar

/-- The first of some tokens is alike to `g`. -/
def Starts (g : Token) (ts : List Token) : Prop := ∃ t us, ts = t :: us ∧ g.Alike t

@[simp] theorem starts_cons {g t : Token} {ts : List Token} : Starts g (t :: ts) ↔ g.Alike t := by
  constructor
  · rintro ⟨_, _, ⟨⟩, h⟩
    exact h
  · exact fun h => ⟨t, ts, rfl, h⟩

@[simp] theorem not_starts_nil (g : Token) : ¬ Starts g [] := nofun

theorem not_starts_of_alike {g g' t : Token} (h : g.Alike t) (hne : g.spelling ≠ g'.spelling) (ts : List Token) :
    ¬ Starts g' (t :: ts) := by
  rw [starts_cons]
  exact fun h' => hne (h.symm.trans h')

end Grammar

namespace Reader

open Grammar

variable {α β γ : Type}

/-! ## Specifications -/

/-- From the tokens `ts` a reader gives the value `a` and leaves `rest` just if `P ts a rest`. -/
def Reads (r : Reader α) (P : List Token → α → List Token → Prop) : Prop :=
  ∀ s a rest, (∃ s', r s = .ok a s' ∧ s'.left = rest) ↔ P s.left a rest

namespace Reads

variable {P : List Token → α → List Token → Prop}

theorem congr {Q : List Token → α → List Token → Prop} {r : Reader α} (h : r.Reads P)
    (hiff : ∀ ts a rest, P ts a rest ↔ Q ts a rest) : r.Reads Q :=
  fun s a rest => (h s a rest).trans (hiff _ _ _)

theorem pure (a : α) : Reads (Pure.pure a) fun ts b rest => b = a ∧ rest = ts := by
  intro s b rest
  constructor
  · rintro ⟨_, ⟨⟩, rfl⟩
    exact ⟨rfl, rfl⟩
  · rintro ⟨rfl, rfl⟩
    exact ⟨s, rfl, rfl⟩

theorem fail (fault : ParseFault) : Reads (Reader.fail fault : Reader α) fun _ _ _ => False :=
  fun _ _ _ => ⟨nofun, nofun⟩

theorem failAt (line : UInt32) (fault : ParseFault) : Reads (Reader.failAt line fault : Reader α) fun _ _ _ => False :=
  fun _ _ _ => ⟨nofun, nofun⟩

theorem bind {Q : α → List Token → β → List Token → Prop} {r : Reader α} {f : α → Reader β} (h : r.Reads P)
    (hf : ∀ a, (f a).Reads (Q a)) : (r >>= f).Reads fun ts b rest => ∃ a mid, P ts a mid ∧ Q a mid b rest := by
  intro s b rest
  have hbind : (r >>= f) s = EStateM.bind r f s := rfl
  rw [hbind, EStateM.bind]
  constructor
  · rintro ⟨s'', hb, hrest⟩
    split at hb
    · next a s' ha => exact ⟨a, s'.left, (h _ _ _).1 ⟨s', ha, rfl⟩, (hf a _ _ _).1 ⟨s'', hb, hrest⟩⟩
    · cases hb
  · rintro ⟨a, mid, hP, hQ⟩
    obtain ⟨s', ha, rfl⟩ := (h _ _ _).2 hP
    rw [ha]
    exact (hf a _ _ _).2 hQ

theorem bind_pure {r : Reader α} (h : r.Reads P) (f : α → β) :
    (r >>= fun a => Pure.pure (f a)).Reads fun ts b rest => ∃ a, P ts a rest ∧ b = f a := by
  refine (h.bind fun a => .pure (f a)).congr fun ts b rest => ?_
  constructor
  · rintro ⟨a, _, hP, rfl, rfl⟩
    exact ⟨a, hP, rfl⟩
  · rintro ⟨a, hP, rfl⟩
    exact ⟨a, rest, hP, rfl, rfl⟩

theorem ite {Q : List Token → α → List Token → Prop} {c : Prop} [Decidable c] {r r' : Reader α} (h : r.Reads P)
    (h' : r'.Reads Q) :
    (if c then r else r').Reads fun ts a rest => c ∧ P ts a rest ∨ ¬ c ∧ Q ts a rest := by
  split
  · next hc => exact h.congr fun _ _ _ => by simp [hc]
  · next hc => exact h'.congr fun _ _ _ => by simp [hc]

end Reads

theorem reads_take (value : Token → Option α) (fault : Option Token → ParseFault) :
    (take value fault).Reads fun ts a rest => ∃ t, ts = t :: rest ∧ value t = some a := by
  rintro ⟨source, tokens, line, endLine⟩ a rest
  unfold take TokenStream.next
  cases tokens with
  | nil => simp [TokenStream.left]
  | cons p ps =>
    simp only [TokenStream.left, List.map_cons, List.cons.injEq]
    cases hv : value p.token with
    | none => simp [hv]
    | some b => simp [hv, eq_comm, and_comm]

theorem reads_expect {g : Token} {text : String} (h : g.spelling = text) :
    (expect text).Reads fun ts _ rest => ∃ t, ts = t :: rest ∧ g.Alike t := by
  refine (reads_take _ _).congr fun ts a rest => ?_
  simp [← h, Token.spells_iff]

theorem reads_check {g : Token} {text : String} (h : g.spelling = text) :
    (check text).Reads fun ts b rest =>
      b = true ∧ (∃ t, ts = t :: rest ∧ g.Alike t) ∨ b = false ∧ ¬ Starts g ts ∧ rest = ts := by
  rintro ⟨source, tokens, line, endLine⟩ b rest
  subst h
  unfold check
  cases tokens with
  | nil =>
    constructor
    · rintro ⟨_, ⟨⟩, rfl⟩
      exact Or.inr ⟨rfl, not_starts_nil g, rfl⟩
    · rintro (⟨rfl, _, ⟨⟩, -⟩ | ⟨rfl, -, rfl⟩)
      exact ⟨_, rfl, rfl⟩
  | cons p ps =>
    show (∃ s', (if p.token.spells g.spelling then _ else _) = _ ∧ _) ↔ _
    simp only [TokenStream.left, List.map_cons, starts_cons, ← Token.spells_iff]
    split
    · next h =>
      constructor
      · rintro ⟨_, ⟨⟩, rfl⟩
        exact Or.inl ⟨rfl, _, rfl, h⟩
      · rintro (⟨rfl, _, ⟨⟩, -⟩ | ⟨-, hno, -⟩)
        · exact ⟨_, rfl, rfl⟩
        · exact absurd h hno
    · next h =>
      constructor
      · rintro ⟨_, ⟨⟩, rfl⟩
        exact Or.inr ⟨rfl, h, rfl⟩
      · rintro (⟨-, _, ⟨⟩, hyes⟩ | ⟨rfl, -, rfl⟩)
        · exact absurd hyes h
        · exact ⟨_, rfl, rfl⟩

/-- A reader that begins with a token that is alike to `g`. -/
theorem Reads.expect_bind {g : Token} {text : String} (hg : g.spelling = text) {r : Reader α}
    {P : List Token → α → List Token → Prop} (h : r.Reads P) :
    (expect text >>= fun _ => r).Reads fun ts a rest => ∃ t us, ts = t :: us ∧ g.Alike t ∧ P us a rest := by
  refine ((reads_expect hg).bind fun _ => h).congr fun ts a rest => ?_
  constructor
  · rintro ⟨_, us, ⟨t, rfl, ht⟩, hP⟩
    exact ⟨t, us, rfl, ht, hP⟩
  · rintro ⟨t, us, rfl, ht, hP⟩
    exact ⟨(), us, ⟨t, rfl, ht⟩, hP⟩

theorem reads_expect_pure {g : Token} {text : String} (hg : g.spelling = text) (a : α) :
    (expect text >>= fun _ => pure a).Reads fun ts b rest => ∃ t, ts = t :: rest ∧ g.Alike t ∧ b = a := by
  refine (Reads.expect_bind hg (.pure a)).congr fun ts b rest => ?_
  constructor
  · rintro ⟨t, _, rfl, ht, rfl, rfl⟩
    exact ⟨t, rfl, ht, rfl⟩
  · rintro ⟨t, rfl, ht, rfl⟩
    exact ⟨t, rest, rfl, ht, rfl, rfl⟩

/-- One reader behind a token that is alike to `g`, and another where none is. -/
theorem Reads.check {P Q : List Token → α → List Token → Prop} {r r' : Reader α} (h : r.Reads P) (h' : r'.Reads Q)
    {g : Token} {text : String} (hg : g.spelling = text) :
    (do if ← Reader.check text then r else r').Reads fun ts a rest =>
      (∃ t us, ts = t :: us ∧ g.Alike t ∧ P us a rest) ∨ ¬ Starts g ts ∧ Q ts a rest := by
  refine ((reads_check hg).bind fun b => h.ite h').congr fun ts a rest => ?_
  constructor
  · rintro ⟨b, mid, ⟨rfl, t, rfl, ht⟩ | ⟨rfl, hno, rfl⟩, ⟨hb, hP⟩ | ⟨hb, hQ⟩⟩
    · exact Or.inl ⟨t, mid, rfl, ht, hP⟩
    · exact absurd rfl hb
    · cases hb
    · exact Or.inr ⟨hno, hQ⟩
  · rintro (⟨t, us, rfl, ht, hP⟩ | ⟨hno, hQ⟩)
    · exact ⟨true, us, Or.inl ⟨rfl, t, rfl, ht⟩, Or.inl ⟨rfl, hP⟩⟩
    · exact ⟨false, ts, Or.inr ⟨rfl, hno, rfl⟩, Or.inr ⟨Bool.false_ne_true, hQ⟩⟩

/-! ## Values -/

theorem reads_ident : ident.Reads fun ts name rest => ts = .word name :: rest ∧ IsIdentifier name := by
  refine (reads_take _ _).congr fun ts name rest => ?_
  constructor
  · rintro ⟨t, rfl, h⟩
    unfold identOf? at h
    split at h
    · split at h
      · next hid =>
        cases h
        exact ⟨rfl, hid⟩
      · cases h
    · cases h
  · rintro ⟨rfl, h⟩
    exact ⟨_, rfl, if_pos h⟩

theorem Reads.ident_bind {f : String → Reader β} {P : String → List Token → β → List Token → Prop}
    (h : ∀ name, (f name).Reads (P name)) :
    (ident >>= f).Reads fun ts b rest => ∃ name us, ts = .word name :: us ∧ IsIdentifier name ∧ P name us b rest :=
  (reads_ident.bind h).congr fun _ _ _ => by simp only [and_assoc]

theorem reads_string : string.Reads fun ts text rest => ts = .quoted text :: rest := by
  refine (reads_take _ _).congr fun ts text rest => ?_
  constructor
  · rintro ⟨t, rfl, h⟩
    cases t <;> cases h
    rfl
  · rintro rfl
    exact ⟨_, rfl, rfl⟩

theorem reads_int : int.Reads fun ts found rest => ∃ w, ts = .word w :: rest ∧ IsInt w found := by
  refine (reads_take _ _).congr fun ts found rest => ?_
  constructor
  · rintro ⟨t, rfl, h⟩
    cases t with
    | word w => exact ⟨w, rfl, h⟩
    | quoted | punct => cases h
  · rintro ⟨w, rfl, h⟩
    exact ⟨_, rfl, h⟩

theorem reads_float : float.Reads fun ts value rest => ∃ w, ts = .word w :: rest ∧ IsFloat w value := by
  refine (reads_take _ _).congr fun ts value rest => ?_
  constructor
  · rintro ⟨t, rfl, h⟩
    cases t with
    | word w => exact ⟨w, rfl, h⟩
    | quoted | punct => cases h
  · rintro ⟨w, rfl, h⟩
    exact ⟨_, rfl, h⟩

theorem reads_boolean : boolean.Reads fun ts on rest => ts = .word (switchWord on) :: rest := by
  refine (reads_take _ _).congr fun ts on rest => ?_
  constructor
  · rintro ⟨t, rfl, h⟩
    unfold booleanOf? at h
    split at h
    · cases h
      rfl
    · cases h
      rfl
    · cases h
  · rintro rfl
    exact ⟨_, rfl, by cases on <;> rfl⟩

theorem reads_skipPast (close : Char) :
    (skipPast close).Reads fun ts _ rest =>
      ∃ inner, ts = inner ++ .punct close :: rest ∧ ∀ t ∈ inner, t ≠ .punct close := by
  rintro ⟨source, tokens, line, endLine⟩ a rest
  unfold skipPast
  induction tokens with
  | nil => simp [TokenStream.left]
  | cons p ps ih =>
    by_cases h : p.token = .punct close
    · rw [List.dropWhile_cons_of_neg (by simp [h])]
      constructor
      · rintro ⟨_, ⟨⟩, rfl⟩
        exact ⟨[], congrArg (· :: _) h, List.forall_mem_nil _⟩
      · rintro ⟨inner, heq, hinner⟩
        cases inner with
        | nil => exact ⟨_, rfl, (List.cons.inj heq).2⟩
        | cons t inner =>
          obtain ⟨rfl, -⟩ := List.cons.inj heq
          exact absurd h (hinner _ List.mem_cons_self)
    · rw [List.dropWhile_cons_of_pos (by simp [h])]
      refine ih.trans ?_
      constructor
      · rintro ⟨inner, heq, hinner⟩
        exact ⟨p.token :: inner, congrArg (p.token :: ·) heq, List.forall_mem_cons.2 ⟨h, hinner⟩⟩
      · rintro ⟨inner, heq, hinner⟩
        cases inner with
        | nil => exact absurd (List.cons.inj heq).1 h
        | cons t inner => exact ⟨inner, (List.cons.inj heq).2, fun u hu => hinner u (List.mem_cons_of_mem _ hu)⟩

theorem reads_orFail (o : Option α) (fault : ParseFault) :
    (Declarations.orFail o fault).Reads fun ts a rest => o = some a ∧ rest = ts := by
  unfold Declarations.orFail
  cases o with
  | none => exact (Reads.fail fault).congr fun _ _ _ => by simp
  | some b => exact (Reads.pure b).congr fun _ _ _ => by simp [eq_comm]

/-! ## Values by name and in a range -/

/-- Values are found by their names, which are identifiers. -/
structure Named (ofName? : String → Option α) (name : α → String) : Prop where
  eq_some_iff : ∀ n a, ofName? n = some a ↔ n = name a
  identifier : ∀ a, IsIdentifier (name a)

theorem named_of_find? (all : List α) {name : α → String} (hall : ∀ a, a ∈ all) (hnodup : (all.map name).Nodup)
    (hid : ∀ a ∈ all, IsIdentifier (name a)) : Named (fun n => all.find? fun a => name a == n) name where
  identifier a := hid a (hall a)
  eq_some_iff n a := by
    constructor
    · intro h
      have hname := List.find?_some h
      exact (beq_iff_eq.1 hname).symm
    · rintro rfl
      obtain ⟨b, hb⟩ := Option.isSome_iff_exists.1
        (List.find?_isSome (p := fun b => name b == name a).2 ⟨a, hall a, beq_iff_eq.2 rfl⟩)
      have hname := List.find?_some hb
      rw [hb, List.inj_on_of_nodup_map hnodup (hall b) (hall a) (beq_iff_eq.1 hname)]

theorem reads_named {ofName? : String → Option α} {name : α → String} (h : Named ofName? name)
    (fault : String → ParseFault) :
    (ident >>= fun n => Declarations.orFail (ofName? n) (fault n)).Reads fun ts a rest =>
      ts = .word (name a) :: rest := by
  refine (reads_ident.bind fun n => reads_orFail _ _).congr fun ts a rest => ?_
  constructor
  · rintro ⟨n, mid, ⟨rfl, -⟩, ha, rfl⟩
    rw [(h.eq_some_iff _ _).1 ha]
  · rintro rfl
    exact ⟨name a, rest, ⟨rfl, h.identifier a⟩, (h.eq_some_iff _ _).2 rfl, rfl⟩

theorem reads_named_map {ofName? : String → Option α} {name : α → String} (h : Named ofName? name)
    (fault : String → ParseFault) (f : α → β) :
    (ident >>= fun n => Declarations.orFail (ofName? n) (fault n) >>= fun a => pure (f a)).Reads fun ts b rest =>
      ∃ a, ts = .word (name a) :: rest ∧ b = f a := by
  rw [← bind_assoc]
  exact (reads_named h fault).bind_pure f

theorem reads_inRange {c : Int → Prop} [DecidablePred c] (fault : Int → ParseFault) (f : Int → β) :
    (int >>= fun found => if c found then pure (f found) else fail (fault found)).Reads fun ts b rest =>
      ∃ w found, IsInt w found ∧ c found ∧ ts = .word w :: rest ∧ b = f found := by
  refine (reads_int.bind fun found => .ite (.pure _) (.fail _)).congr fun ts b rest => ?_
  constructor
  · rintro ⟨found, _, ⟨w, rfl, hint⟩, ⟨hc, rfl, rfl⟩ | ⟨-, ⟨⟩⟩⟩
    exact ⟨w, found, hint, hc, rfl, rfl⟩
  · rintro ⟨w, found, hint, hc, rfl, rfl⟩
    exact ⟨found, rest, ⟨w, rfl, hint⟩, Or.inl ⟨hc, rfl, rfl⟩⟩

/-! ## Repeated steps -/

/-- What repeated steps do: the steps up to the one that asks for no other. -/
inductive Repeats (P : β → List Token → Bool × β → List Token → Prop) : β → List Token → β → List Token → Prop
  | last {b b' : β} {ts rest : List Token} (h : P b ts (false, b') rest) : Repeats P b ts b' rest
  | more {b b' c : β} {ts mid rest : List Token} (h : P b ts (true, b') mid) (others : Repeats P b' mid c rest) :
      Repeats P b ts c rest

/-- From the tokens `ts` a reader gives a value that `view` shows as `c`, and leaves `rest`, just if `P ts c rest`. -/
def Shows (view : α → γ) (r : Reader α) (P : List Token → γ → List Token → Prop) : Prop :=
  ∀ s c rest, (∃ a s', r s = .ok a s' ∧ view a = c ∧ s'.left = rest) ↔ P s.left c rest

theorem reads_iff_shows {r : Reader α} {P : List Token → α → List Token → Prop} : r.Reads P ↔ r.Shows id P := by
  simp [Reads, Shows]

theorem Shows.eq_of_ok {view : α → γ} {r : Reader α} {P : List Token → γ → List Token → Prop} (h : r.Shows view P)
    {s s' : TokenStream} {a : α} (hr : r s = .ok a s') {c : γ} {rest : List Token} :
    P s.left c rest ↔ c = view a ∧ rest = s'.left := by
  refine (h s c rest).symm.trans ?_
  simp [hr, eq_comm]

theorem Shows.not_of_error {view : α → γ} {r : Reader α} {P : List Token → γ → List Token → Prop} (h : r.Shows view P)
    {s s' : TokenStream} {e : ParseError} (hr : r s = .error e s') {c : γ} {rest : List Token} : ¬ P s.left c rest := by
  rw [← h s c rest, hr]
  rintro ⟨_, _, ⟨⟩, -⟩

/-- Repeated steps do what `Repeats` says if each step does what `P` says to what is shown and takes a token unless it
is the last one. -/
theorem shows_repeatStep (view : β → γ) {step : β → Reader (Bool × β)}
    {P : γ → List Token → Bool × γ → List Token → Prop} (h : ∀ b, (step b).Shows (Prod.map id view) (P (view b)))
    (hless : ∀ c ts c' rest, P c ts (true, c') rest → rest.length < ts.length) (b : β) :
    Shows view (repeatStep step b) (Repeats P (view b)) := by
  intro s c rest
  induction b, s using repeatStep.induct step with
  | case1 b s e t hstep =>
    rw [repeatStep, hstep]
    refine iff_of_false ?_ ?_
    · rintro ⟨_, _, ⟨⟩, -⟩
    · rintro (hP | ⟨hP, -⟩)
      · exact (h b).not_of_error hstep hP
      · exact (h b).not_of_error hstep hP
  | case2 b s again b' t hstep hmore ih =>
    have hP {x : Bool × γ} {us : List Token} : P (view b) s.left x us ↔ x = (again, view b') ∧ us = t.left :=
      (h b).eq_of_ok hstep
    obtain ⟨rfl, hless⟩ := hmore
    rw [repeatStep, hstep]
    simp only [hless, and_self, dite_true, ih]
    constructor
    · exact fun hothers => .more (hP.2 ⟨rfl, rfl⟩) hothers
    · rintro (hlast | ⟨hfirst, hothers⟩)
      · cases (hP.1 hlast).1
      · obtain ⟨heq, rfl⟩ := hP.1 hfirst
        cases heq
        exact hothers
  | case3 b s again b' t hstep hdone =>
    have hP {x : Bool × γ} {us : List Token} : P (view b) s.left x us ↔ x = (again, view b') ∧ us = t.left :=
      (h b).eq_of_ok hstep
    cases again with
    | true =>
      have hlt := hless _ _ _ _ (hP.2 ⟨rfl, rfl⟩)
      rw [TokenStream.left, TokenStream.left, List.length_map, List.length_map] at hlt
      exact absurd ⟨rfl, hlt⟩ hdone
    | false =>
      rw [repeatStep, hstep]
      simp only [Bool.false_eq_true, false_and, dite_false]
      constructor
      · rintro ⟨_, _, ⟨⟩, rfl, rfl⟩
        exact .last (hP.2 ⟨rfl, rfl⟩)
      · rintro (hlast | ⟨hfirst, -⟩)
        · obtain ⟨heq, rfl⟩ := hP.1 hlast
          cases heq
          exact ⟨_, _, rfl, rfl, rfl⟩
        · cases (hP.1 hfirst).1

theorem reads_repeatStep {step : β → Reader (Bool × β)} {P : β → List Token → Bool × β → List Token → Prop}
    (h : ∀ b, (step b).Reads (P b)) (hless : ∀ b ts b' rest, P b ts (true, b') rest → rest.length < ts.length) (b : β) :
    Reads (repeatStep step b) (Repeats P b) :=
  reads_iff_shows.2 (shows_repeatStep id (fun b => reads_iff_shows.1 (h b)) hless b)

end Reader

end ShaderVariant
