import ShaderVariant.Proofs.Declaration.Clauses

/-!
# Sequences of declarations

* `Declaration.Extends` : what a declaration adds to those before it;
* `Declarations.reads_keyword` : what is read behind a keyword;
* `Declarations.unplaced` : declarations apart from the lines on which their samplers stand;
* `Declarations.read_iff` : what is read from the tokens of a section.
-/

namespace ShaderVariant

open Grammar Reader

/-! ## One declaration more -/

/-- What a declaration on line `line` makes of those before it, if its name is new. -/
def Grammar.Declaration.Extends (sections : List String) (line : UInt32) (d : Declarations) :
    Declaration → Declarations → Prop
  | flag name, d' => ∃ i vocabulary, d.vocabulary.push name = .ok (i, vocabulary) ∧ d' = { d with vocabulary }
  | sampler kind name fields, d' =>
    name ∉ d.names ∧ d' = { d with samplers := d.samplers ++ [samplerOf line kind name fields] }
  | uniform kind name defaults, d' =>
    name ∉ d.names ∧ d' = { d with uniforms := d.uniforms ++ [.ofValues name kind defaults] }
  | buffer name, d' => name ∉ d.names ∧ d' = { d with buffers := d.buffers ++ [name] }
  | context name fields, d' =>
    (∀ c ∈ d.contexts, c.name ≠ name) ∧ d' = { d with contexts := d.contexts ++ [contextOf sections name fields] }

/-- If tokens end with a closing brace, no semicolon follows them. -/
def Grammar.Ended (ts rest : List Token) : Prop :=
  ∀ t, ts.getLast? = some t → (Token.punct '\x7d').Alike t → ¬ Starts (.punct ';') rest

theorem Grammar.ended_of_semicolon {t : Token} (h : (Token.punct ';').Alike t) {ts : List Token}
    (hlast : ts.getLast? = some t) (rest : List Token) : Ended ts rest := by
  intro u hu hclose
  cases hlast.symm.trans hu
  exact absurd (h.symm.trans hclose) (by decide)

namespace Declarations

variable {sections : List String} {line : UInt32}

theorem newName_bind {β : Type} (d : Declarations) (line : UInt32) {f : String → Reader β}
    {P : String → List Token → β → List Token → Prop} (h : ∀ name, (f name).Reads (P name)) :
    (d.newName line >>= f).Reads fun ts b rest =>
      ∃ name us, ts = .word name :: us ∧ IsIdentifier name ∧ name ∉ d.names ∧ P name us b rest := by
  have hname : (d.newName line).Reads fun ts name rest =>
      ts = .word name :: rest ∧ IsIdentifier name ∧ name ∉ d.names := by
    refine (Reads.ident_bind fun name => (Reads.failAt _ _).ite (.pure name)).congr fun ts name rest => ?_
    constructor
    · rintro ⟨name, _, rfl, hid, ⟨-, ⟨⟩⟩ | ⟨hnew, rfl, rfl⟩⟩
      exact ⟨rfl, hid, hnew⟩
    · rintro ⟨rfl, hid, hnew⟩
      exact ⟨name, _, rfl, hid, Or.inr ⟨hnew, rfl, rfl⟩⟩
  exact (hname.bind h).congr fun _ _ _ => by simp only [and_assoc]

theorem reads_flag (d : Declarations) (line : UInt32) :
    (d.readFlag line).Reads fun ts d' rest =>
      ∃ name ends, IsIdentifier name ∧ (Token.punct ';').Alike ends ∧
        (Declaration.flag name).Extends sections line d d' ∧ ts = .word name :: ends :: rest := by
  refine (Reads.ident_bind fun name => .expect_bind (g := .punct ';') rfl (?_ : Reads _ fun ts d' rest =>
    (Declaration.flag name).Extends sections line d d' ∧ rest = ts)).congr fun ts d' rest => ?_
  · cases hp : d.vocabulary.push name with
    | error e => exact (Reads.failAt _ _).congr fun _ _ _ => by simp [Declaration.Extends, hp]
    | ok r =>
      obtain ⟨i, w⟩ := r
      exact (Reads.pure _).congr fun _ _ _ => by simp [Declaration.Extends, hp]
  · constructor
    · rintro ⟨name, _, rfl, hid, ends, _, rfl, hends, hextends, rfl⟩
      exact ⟨name, ends, hid, hends, hextends, rfl⟩
    · rintro ⟨name, ends, hid, hends, hextends, rfl⟩
      exact ⟨name, _, rfl, hid, ends, _, rfl, hends, hextends, rfl⟩

theorem reads_buffer (d : Declarations) (line : UInt32) :
    (d.readBuffer line).Reads fun ts d' rest =>
      ∃ name ends, IsIdentifier name ∧ (Token.punct ';').Alike ends ∧ name ∉ d.names ∧
        ts = .word name :: ends :: rest ∧ d' = { d with buffers := d.buffers ++ [name] } := by
  refine (newName_bind d line fun name => reads_expect_pure (g := .punct ';') rfl
    ({ d with buffers := d.buffers ++ [name] } : Declarations)).congr fun ts d' rest => ?_
  constructor
  · rintro ⟨name, _, rfl, hid, hnew, ends, rfl, hends, rfl⟩
    exact ⟨name, ends, hid, hends, hnew, rfl, rfl⟩
  · rintro ⟨name, ends, hid, hends, hnew, rfl, rfl⟩
    exact ⟨name, _, rfl, hid, hnew, ends, rfl, hends, rfl⟩

theorem reads_sampler (d : Declarations) (kind : SamplerKind) (line : UInt32) :
    (d.readSampler kind line).Reads fun ts d' rest =>
      ∃ name fields us, (Declaration.sampler kind name fields).Written Token.Alike (samplerKeyword kind) us ∧
        (∀ f ∈ fields, SamplerField.InRange f) ∧ name ∉ d.names ∧ ts = us ++ rest ∧
        d' = { d with samplers := d.samplers ++ [samplerOf line kind name fields] } := by
  refine (newName_bind d line fun name => (reads_samplerState (.ofName name kind line)).bind fun s =>
    reads_expect_pure (g := .punct ';') rfl
      ({ d with samplers := d.samplers ++ [s] } : Declarations)).congr fun ts d' rest => ?_
  constructor
  · rintro ⟨name, _, rfl, hid, hnew, _, _, hstates, ends, rfl, hends, rfl⟩
    rcases hstates with ⟨equals, state, opening, closing, fields, us, heq, hstate, ho, hcl, hfields, hrange, rfl, rfl⟩ |
      ⟨-, rfl, rfl⟩
    · exact ⟨name, fields, _, .samplerState hid heq hstate ho hfields hcl hends, hrange, hnew, by simp, rfl⟩
    · exact ⟨name, [], _, .sampler hid hends, List.forall_mem_nil _, hnew, rfl, rfl⟩
  · rintro ⟨name, fields, us, hw, hrange, hnew, rfl, rfl⟩
    cases hw with
    | @sampler _ _ ends hid hends =>
      have hno : ¬ Starts (.punct '=') (ends :: rest) := not_starts_of_alike hends (by decide) rest
      exact ⟨name, _, rfl, hid, hnew, _, _, Or.inr ⟨hno, rfl, rfl⟩, _, rfl, hends, rfl⟩
    | samplerState hid heq hstate ho hfields hcl hends =>
      exact ⟨name, _, rfl, hid, hnew, _, _, Or.inl ⟨_, _, _, _, fields, _, heq, hstate, ho, hcl, hfields, hrange,
        by simp, rfl⟩, _, rfl, hends, rfl⟩

theorem reads_uniform (d : Declarations) (kind : UniformKind) (line : UInt32) :
    (d.readUniform kind line).Reads fun ts d' rest =>
      ∃ name defaults us, (Declaration.uniform kind name defaults).Written Token.Alike (uniformKeyword kind) us ∧
        defaults.length ≤ kind.size ∧ name ∉ d.names ∧ ts = us ++ rest ∧
        d' = { d with uniforms := d.uniforms ++ [.ofValues name kind defaults] } := by
  have hsize : 1 ≤ kind.size := by cases kind <;> decide
  refine (newName_bind d line fun name => reads_annotations.bind fun _ =>
    (reads_optionalDefaults name hsize).bind fun defaults => reads_expect_pure (g := .punct ';') rfl
      ({ d with uniforms := d.uniforms ++ [.ofValues name kind defaults] } : Declarations)).congr fun ts d' rest => ?_
  constructor
  · rintro ⟨name, _, rfl, hid, hnew, _, _, ⟨us, hus, rfl, -⟩, defaults, _, hdefaults, ends, rfl, hends, rfl⟩
    obtain ⟨vs, hvs, hle, rfl, -⟩ := hdefaults
    exact ⟨name, defaults, _, .uniform hid hus hvs hends, hle, hnew, by simp, rfl⟩
  · rintro ⟨name, defaults, us, hw, hle, hnew, rfl, rfl⟩
    cases hw with
    | uniform hid hus hvs hends =>
      refine ⟨name, _, rfl, hid, hnew, (), _, ⟨_, hus, by simp, ?_⟩, defaults, _, ⟨_, hvs, hle, rfl, ?_⟩, _, rfl, hends,
        rfl⟩
      · intro _
        cases hvs with
        | absent => exact not_starts_of_alike hends (by decide) _
        | single heq => exact not_starts_of_alike heq (by decide) _
        | braced heq => exact not_starts_of_alike heq (by decide) _
      · exact fun _ => not_starts_of_alike hends (by decide) _

/-- A context whose stages form no program is refused. -/
theorem reads_validate (c : ContextDecl) (line : UInt32) :
    (validate c line).Reads fun ts _ rest => c.stages.fault? = none ∧ rest = ts := by
  unfold validate
  cases c.stages.fault? with
  | some fault =>
    intro s a rest
    exact (Reads.failAt line (.invalidContext s.source c.name fault) s a rest).trans (by simp)
  | none =>
    intro s a rest
    exact (Reads.pure () s a rest).trans (by simp)

/-- What follows the block of a context: a semicolon may stand there, and the stages have to form a program. -/
theorem reads_contextEnd (d : Declarations) (c : ContextDecl) (line : UInt32) :
    Reads (do
      let _semicolon ← check ";"
      validate c line
      return { d with contexts := d.contexts ++ [c] }) fun ts d' rest =>
        c.stages.fault? = none ∧ d' = { d with contexts := d.contexts ++ [c] } ∧
          ((∃ ends, ts = ends :: rest ∧ (Token.punct ';').Alike ends) ∨ ¬ Starts (.punct ';') ts ∧ rest = ts) := by
  refine ((reads_check (g := .punct ';') rfl).bind fun _ => (reads_validate c line).bind_pure fun _ =>
    ({ d with contexts := d.contexts ++ [c] } : Declarations)).congr fun ts d' rest => ?_
  constructor
  · rintro ⟨_, _, ⟨-, hends⟩ | ⟨-, hno, rfl⟩, _, ⟨hvalid, rfl⟩, rfl⟩
    · exact ⟨hvalid, rfl, Or.inl hends⟩
    · exact ⟨hvalid, rfl, Or.inr ⟨hno, rfl⟩⟩
  · rintro ⟨hvalid, rfl, hends | ⟨hno, rfl⟩⟩
    · exact ⟨true, rest, Or.inl ⟨rfl, hends⟩, (), ⟨hvalid, rfl⟩, rfl⟩
    · exact ⟨false, rest, Or.inr ⟨rfl, hno, rfl⟩, (), ⟨hvalid, rfl⟩, rfl⟩

theorem reads_context (sections : List String) (d : Declarations) (line : UInt32) :
    (readContext sections d line).Reads fun ts d' rest =>
      ∃ name fields us, (Declaration.context name fields).Written Token.Alike "context" us ∧ Ended us rest ∧
        (Declaration.context name fields).Fits sections ∧ (∀ c ∈ d.contexts, c.name ≠ name) ∧ ts = us ++ rest ∧
        d' = { d with contexts := d.contexts ++ [contextOf sections name fields] } := by
  have hkey : ∀ f key value, ContextField.Written Token.Alike f key value → IsIdentifier key := by
    rintro f key value (⟨hkey, -, -, -⟩ | hw)
    · exact (by decide : ∀ k ∈ stageKeys, IsIdentifier k.1) _ hkey
    · cases hw <;> decide
  have hfields := contextStep_eq sections ▸ reads_fields (reads_contextField sections) hkey
  have hblock (name : String) := Reads.expect_bind (g := .punct '\x7b') rfl
    ((hfields (.ofName name)).bind fun c => reads_contextEnd d c line)
  refine (Reads.ident_bind fun name => (Reads.failAt _ _).ite (hblock name)).congr fun ts d' rest => ?_
  constructor
  · rintro ⟨name, _, rfl, hid, ⟨-, ⟨⟩⟩ | ⟨hnew, opening, _, rfl, ho, _, _, hblock, hvalid, rfl, hends⟩⟩
    obtain ⟨fields, us, closing, hfields, hfits, hcl, rfl, rfl⟩ := hblock
    have hnew : ∀ c ∈ d.contexts, c.name ≠ name := by simpa using hnew
    rcases hends with ⟨ends, rfl, hends⟩ | ⟨hno, rfl⟩
    · have hended : Ended (.word name :: opening :: (us ++ [closing, ends])) rest :=
        ended_of_semicolon hends (by simp [List.getLast?_cons]) rest
      exact ⟨name, fields, _, .contextEnded hid ho hfields hcl hends, hended, ⟨hfits, hvalid⟩, hnew, by simp, rfl⟩
    · exact ⟨name, fields, _, .context hid ho hfields hcl, fun _ _ _ => hno, ⟨hfits, hvalid⟩, hnew, by simp, rfl⟩
  · rintro ⟨name, fields, us, hw, hended, ⟨hfits, hvalid⟩, hnew, rfl, rfl⟩
    have hnew : ¬ (d.contexts.any fun c => c.name == name) = true := by simpa using hnew
    cases hw with
    | context hid ho hfields hcl =>
      have hno := hended _ (by simp [List.getLast?_cons]) hcl
      exact ⟨name, _, rfl, hid, Or.inr ⟨hnew, _, _, rfl, ho, _, _, ⟨fields, _, _, hfields, hfits, hcl, by simp, rfl⟩,
        hvalid, rfl, Or.inr ⟨hno, rfl⟩⟩⟩
    | contextEnded hid ho hfields hcl hends =>
      exact ⟨name, _, rfl, hid, Or.inr ⟨hnew, _, _, rfl, ho, _, _ :: _, ⟨fields, _, _, hfields, hfits, hcl, by simp,
        rfl⟩, hvalid, rfl, Or.inl ⟨_, rfl, hends⟩⟩⟩

theorem ofKeyword?_eq_some_iff {keyword : String} {kind : SamplerKind} :
    SamplerKind.ofKeyword? keyword = some kind ↔ keyword = samplerKeyword kind := by
  constructor
  · intro h
    unfold SamplerKind.ofKeyword? at h
    split at h <;> cases h <;> rfl
  · rintro rfl
    cases kind <;> rfl

theorem ended_of_written {decl : Declaration} {keyword : String} {us : List Token}
    (h : decl.Written Token.Alike keyword us) (hno : ∀ name fields, decl ≠ .context name fields) (rest : List Token) :
    Ended us rest := by
  obtain ⟨last, hlast, hends | ⟨⟨name, fields, rfl⟩, -⟩⟩ := h.getLast
  · exact ended_of_semicolon hends hlast rest
  · exact absurd rfl (hno name fields)

/-- Behind a keyword the rest of a declaration of its kind is read, which has to fit and to have a new name. -/
theorem reads_keyword (sections : List String) (d : Declarations) (line : UInt32) (keyword : String) :
    (readKeyword sections d line keyword).Reads fun ts d' rest =>
      ∃ decl us, Declaration.Written Token.Alike decl keyword us ∧ Ended us rest ∧ decl.Fits sections ∧
        decl.Extends sections line d d' ∧ ts = us ++ rest := by
  intro s d' rest
  constructor
  · intro h
    unfold readKeyword at h
    split at h
    · obtain ⟨name, ends, hid, hends, hextends, hleft⟩ := (reads_flag d line _ _ _).1 h
      have hw := Declaration.Written.flag hid hends
      exact ⟨_, _, hw, ended_of_written hw nofun _, trivial, hextends, hleft⟩
    · obtain ⟨name, defaults, us, hw, hle, hnew, hleft, rfl⟩ := (reads_uniform d .float line _ _ _).1 h
      exact ⟨_, _, hw, ended_of_written hw nofun _, hle, ⟨hnew, rfl⟩, hleft⟩
    · obtain ⟨name, defaults, us, hw, hle, hnew, hleft, rfl⟩ := (reads_uniform d .float4 line _ _ _).1 h
      exact ⟨_, _, hw, ended_of_written hw nofun _, hle, ⟨hnew, rfl⟩, hleft⟩
    · obtain ⟨name, ends, hid, hends, hnew, hleft, rfl⟩ := (reads_buffer d line _ _ _).1 h
      have hw := Declaration.Written.buffer hid hends
      exact ⟨_, _, hw, ended_of_written hw nofun _, trivial, ⟨hnew, rfl⟩, hleft⟩
    · obtain ⟨name, fields, us, hw, hended, hfits, hnew, hleft, rfl⟩ := (reads_context sections d line _ _ _).1 h
      exact ⟨_, _, hw, hended, hfits, ⟨hnew, rfl⟩, hleft⟩
    · cases hkind : SamplerKind.ofKeyword? keyword with
      | some kind =>
        rw [hkind] at h
        obtain rfl := ofKeyword?_eq_some_iff.1 hkind
        obtain ⟨name, fields, us, hw, hrange, hnew, hleft, rfl⟩ := (reads_sampler d kind line _ _ _).1 h
        exact ⟨_, _, hw, ended_of_written hw nofun _, hrange, ⟨hnew, rfl⟩, hleft⟩
      | none =>
        rw [hkind] at h
        exact ((Reads.failAt _ _ _ _ _).1 h).elim
  · rintro ⟨decl, us, hw, hended, hfits, hextends, hleft⟩
    cases decl with
    | flag name =>
      cases hw with
      | flag hid hends => exact (reads_flag d line _ _ _).2 ⟨name, _, hid, hends, hextends, hleft⟩
    | sampler kind name fields =>
      obtain rfl : keyword = samplerKeyword kind := by cases hw <;> rfl
      obtain ⟨hnew, rfl⟩ := hextends
      have hread := (reads_sampler d kind line _ _ _).2 ⟨name, fields, us, hw, hfits, hnew, hleft, rfl⟩
      cases kind <;> exact hread
    | uniform kind name defaults =>
      obtain rfl : keyword = uniformKeyword kind := by cases hw; rfl
      obtain ⟨hnew, rfl⟩ := hextends
      have hread := (reads_uniform d kind line _ _ _).2 ⟨name, defaults, us, hw, hfits, hnew, hleft, rfl⟩
      cases kind <;> exact hread
    | buffer name =>
      obtain ⟨hnew, rfl⟩ := hextends
      cases hw with
      | buffer hid hends => exact (reads_buffer d line _ _ _).2 ⟨name, _, hid, hends, hnew, hleft, rfl⟩
    | context name fields =>
      obtain rfl : keyword = "context" := by cases hw <;> rfl
      obtain ⟨hnew, rfl⟩ := hextends
      exact (reads_context sections d line _ _ _).2 ⟨name, fields, us, hw, hended, hfits, hnew, hleft, rfl⟩

end Declarations

/-! ## Apart from lines -/

def SamplerDraft.unplaced (s : SamplerDraft) : SamplerDraft := { s with line := 0 }

/-- Fields do not change the line of a sampler, and do not depend on it. -/
theorem unplaced_samplerOf (line : UInt32) (kind : SamplerKind) (name : String) (fields : List SamplerField) :
    (samplerOf line kind name fields).unplaced = samplerOf 0 kind name fields := by
  have hfold (s : SamplerDraft) :
      (fields.foldl SamplerField.applyTo s).unplaced = fields.foldl SamplerField.applyTo s.unplaced := by
    induction fields generalizing s with
    | nil => rfl
    | cons f fields ih =>
      rw [List.foldl_cons, List.foldl_cons, ih]
      cases f <;> rfl
  exact hfold _

namespace Declarations

variable {sections : List String}

def unplaced (d : Declarations) : Declarations := { d with samplers := d.samplers.map SamplerDraft.unplaced }

@[simp] theorem names_unplaced (d : Declarations) : d.unplaced.names = d.names := by
  unfold names unplaced
  rw [List.map_map]
  rfl

/-- What a declaration adds does not depend on lines. -/
theorem extends_unplaced_iff {line : UInt32} {d e : Declarations} {decl : Declaration} :
    decl.Extends sections 0 d.unplaced e ↔ ∃ d', decl.Extends sections line d d' ∧ d'.unplaced = e := by
  cases decl with
  | flag name =>
    constructor
    · rintro ⟨i, w, hpush, rfl⟩
      exact ⟨_, ⟨i, w, hpush, rfl⟩, rfl⟩
    · rintro ⟨_, ⟨i, w, hpush, rfl⟩, rfl⟩
      exact ⟨i, w, hpush, rfl⟩
  | sampler kind name fields =>
    unfold Declaration.Extends
    rw [names_unplaced]
    constructor
    · rintro ⟨hnew, rfl⟩
      exact ⟨_, ⟨hnew, rfl⟩, by simp [unplaced, unplaced_samplerOf]⟩
    · rintro ⟨_, ⟨hnew, rfl⟩, rfl⟩
      exact ⟨hnew, by simp [unplaced, unplaced_samplerOf]⟩
  | uniform kind name defaults =>
    unfold Declaration.Extends
    rw [names_unplaced]
    constructor
    · rintro ⟨hnew, rfl⟩
      exact ⟨_, ⟨hnew, rfl⟩, rfl⟩
    · rintro ⟨_, ⟨hnew, rfl⟩, rfl⟩
      exact ⟨hnew, rfl⟩
  | buffer name =>
    unfold Declaration.Extends
    rw [names_unplaced]
    constructor
    · rintro ⟨hnew, rfl⟩
      exact ⟨_, ⟨hnew, rfl⟩, rfl⟩
    · rintro ⟨_, ⟨hnew, rfl⟩, rfl⟩
      exact ⟨hnew, rfl⟩
  | context name fields =>
    constructor
    · rintro ⟨hnew, rfl⟩
      exact ⟨_, ⟨hnew, rfl⟩, rfl⟩
    · rintro ⟨_, ⟨hnew, rfl⟩, rfl⟩
      exact ⟨hnew, rfl⟩

/-! ## All declarations -/

/-- What a step through declarations does, apart from lines. -/
inductive Step (sections : List String) (e : Declarations) : List Token → Bool × Declarations → List Token → Prop
  | done : Step sections e [] (false, e) []
  | declared {decl : Declaration} {keyword : String} {us rest : List Token} {e' : Declarations}
      (written : decl.Written Token.Alike keyword us) (ended : Ended us rest) (fits : decl.Fits sections)
      (extended : decl.Extends sections 0 e e') : Step sections e (.word keyword :: (us ++ rest)) (true, e') rest

theorem isIdentifier_keyword {decl : Declaration} {keyword : String} {us : List Token}
    (h : decl.Written Token.Alike keyword us) : IsIdentifier keyword := by
  have hsampler : ∀ kind, IsIdentifier (samplerKeyword kind) := by rintro (_ | _ | _ | _) <;> decide
  have huniform : ∀ kind, IsIdentifier (uniformKeyword kind) := by rintro (_ | _) <;> decide
  cases h with
  | sampler | samplerState => exact hsampler _
  | uniform => exact huniform _
  | flag | buffer | context | contextEnded => decide

theorem shows_step (sections : List String) (d : Declarations) :
    (declarationStep sections d).Shows (Prod.map id unplaced) (Step sections d.unplaced) := by
  rintro ⟨source, tokens, line, endLine⟩ x rest
  cases tokens with
  | nil =>
    show _ ↔ Step sections d.unplaced [] x rest
    constructor
    · rintro ⟨_, _, ⟨⟩, rfl, rfl⟩
      exact .done
    · rintro ⟨⟩
      exact ⟨_, _, rfl, rfl, rfl⟩
  | cons p ps =>
    -- The line of a declaration is that of its first token, which the look at the end of the section moves to.
    have hread := (Reads.ident_bind fun keyword =>
      (reads_keyword sections d p.line keyword).bind_pure fun d' => (true, d')) ⟨source, p :: ps, p.line, endLine⟩
    show (∃ y s', _ = EStateM.Result.ok y s' ∧ _) ↔ Step sections d.unplaced (p.token :: ps.map (·.token)) x rest
    constructor
    · rintro ⟨y, s', h, rfl, rfl⟩
      obtain ⟨keyword, mid, hword, -, d', ⟨decl, us, hw, hended, hfits, hextends, rfl⟩, rfl⟩ :=
        (hread y s'.left).1 ⟨s', h, rfl⟩
      rw [show p.token :: ps.map (·.token) = .word keyword :: (us ++ s'.left) from hword]
      exact .declared hw hended hfits (extends_unplaced_iff.2 ⟨d', hextends, rfl⟩)
    · generalize hleft : p.token :: ps.map (·.token) = left
      rintro (_ | ⟨hw, hended, hfits, hextends⟩)
      · cases hleft
      · obtain ⟨d', hextends, rfl⟩ := extends_unplaced_iff.1 hextends
        obtain ⟨s', h, hrest⟩ := (hread (true, d') rest).2
          ⟨_, _, hleft, isIdentifier_keyword hw, d', ⟨_, _, hw, hended, hfits, hextends, rfl⟩, rfl⟩
        exact ⟨_, s', h, rfl, hrest⟩

/-- What declarations in a row make of those before them. -/
inductive ExtendsAll (sections : List String) : Declarations → List Declaration → Declarations → Prop
  | nil (e : Declarations) : ExtendsAll sections e [] e
  | cons {e e' e'' : Declarations} {decl : Declaration} {ds : List Declaration} (fits : decl.Fits sections)
      (first : decl.Extends sections 0 e e') (others : ExtendsAll sections e' ds e'') :
      ExtendsAll sections e (decl :: ds) e''

theorem not_starts_of_derives {ds : List Declaration} {ts : List Token} (h : Derives Token.Alike ds ts) :
    ¬ Starts (.punct ';') ts := by
  cases h with
  | nil => exact not_starts_nil _
  | cons hw => exact not_starts_word (by decide) (isIdentifier_keyword hw)

/-- Steps through declarations go through declarations in a row, up to the end. -/
theorem repeats_step_iff {e e' : Declarations} {ts rest : List Token} :
    Repeats (Step sections) e ts e' rest ↔
      rest = [] ∧ ∃ ds, Derives Token.Alike ds ts ∧ ExtendsAll sections e ds e' := by
  constructor
  · intro h
    induction h with
    | last h =>
      cases h with
      | done => exact ⟨rfl, [], .nil, .nil _⟩
    | more h _ ih =>
      cases h with
      | declared hw _ hfits hextends =>
        obtain ⟨hrest, ds, hds, hall⟩ := ih
        exact ⟨hrest, _, .cons hw hds, .cons hfits hextends hall⟩
  · rintro ⟨rfl, ds, hds, hall⟩
    induction hds generalizing e with
    | nil =>
      cases hall
      exact .last .done
    | cons hw hds ih =>
      obtain _ | ⟨hfits, hextends, hall⟩ := hall
      exact .more (.declared hw (fun _ _ _ => not_starts_of_derives hds) hfits hextends) (ih hall)

/-- Apart from lines, the declarations of tokens are read just if the tokens derive from them, one after the other. -/
theorem read_iff {s : TokenStream} {e : Declarations} :
    (∃ d, read sections s = .ok d ∧ d.unplaced = e) ↔
      ∃ ds, Derives Token.Alike ds s.left ∧ ExtendsAll sections empty ds e := by
  have hless : ∀ c ts c' rest, Step sections c ts (true, c') rest → rest.length < ts.length := by
    rintro c ts c' rest h
    cases h with
    | declared => simp only [List.length_cons, List.length_append]; omega
  have hshows := shows_repeatStep unplaced (shows_step sections) hless empty s e
  simp only [repeats_step_iff] at hshows
  unfold read
  constructor
  · rintro ⟨d, hread, rfl⟩
    split at hread
    · cases hread
    · next d' s' hr =>
      cases hread
      exact ((hshows s'.left).1 ⟨d, s', hr, rfl, rfl⟩).2
  · intro h
    obtain ⟨d, s', hr, rfl, -⟩ := (hshows []).2 ⟨rfl, h⟩
    exact ⟨d, by rw [hr], rfl⟩

end Declarations

end ShaderVariant
