import ShaderVariant.Proofs.Declaration.Sequence

/-!
# Lines of declarations

* `Reader.Consumes` : a reader leaves an end of the tokens that it is given, lines included;
* `Declarations.consumes_keyword` : the readers of declarations do, so that each one begins at a token of the section;
* `Declarations.Opens`, `opens_of_read` : a sampler is kept with the line of the keyword that opens its declaration.
-/

namespace ShaderVariant

open Grammar

/-! ## Readers -/

namespace Reader

variable {α β : Type}

/-- What a reader leaves is an end of what it was given. -/
def Consumes (r : Reader α) : Prop := ∀ s a s', r s = .ok a s' → s'.tokens <:+ s.tokens

namespace Consumes

theorem pure (a : α) : Consumes (Pure.pure a) := by
  rintro s _ _ ⟨⟩
  exact List.suffix_refl _

theorem fail (fault : ParseFault) : Consumes (Reader.fail fault : Reader α) := by
  rintro s a s' ⟨⟩

theorem failAt (line : UInt32) (fault : ParseFault) : Consumes (Reader.failAt line fault : Reader α) := by
  rintro s a s' ⟨⟩

theorem sourceName : Consumes Reader.sourceName := by
  rintro s _ _ ⟨⟩
  exact List.suffix_refl _

theorem bind {r : Reader α} {f : α → Reader β} (h : r.Consumes) (hf : ∀ a, (f a).Consumes) : (r >>= f).Consumes := by
  intro s b s'' hb
  rw [show (r >>= f) s = EStateM.bind r f s from rfl, EStateM.bind] at hb
  split at hb
  · next a s' ha => exact (hf a _ _ _ hb).trans (h _ _ _ ha)
  · cases hb

theorem ite {c : Prop} [Decidable c] {r r' : Reader α} (h : r.Consumes) (h' : r'.Consumes) :
    (if c then r else r').Consumes := by
  split
  · exact h
  · exact h'

theorem take (value : Token → Option α) (fault : Option Token → ParseFault) : (Reader.take value fault).Consumes := by
  rintro ⟨source, tokens, line, endLine⟩ a s' h
  unfold Reader.take TokenStream.next at h
  cases tokens with
  | nil => cases h
  | cons p ps =>
    simp only at h
    split at h
    · cases h
      exact List.suffix_cons p ps
    · cases h

theorem expect (text : String) : (Reader.expect text).Consumes := .take _ _

theorem ident : Reader.ident.Consumes := .take _ _

theorem check (text : String) : (Reader.check text).Consumes := by
  rintro ⟨source, tokens, line, endLine⟩ a s' h
  unfold Reader.check at h
  cases tokens with
  | nil =>
    cases h
    exact List.suffix_refl _
  | cons p ps =>
    simp only at h
    split at h
    · cases h
      exact List.suffix_cons p ps
    · cases h
      exact List.suffix_refl _

theorem skipPast (close : Char) : (Reader.skipPast close).Consumes := by
  intro s a s' h
  unfold Reader.skipPast at h
  split at h
  · next p ps hrest =>
    cases h
    exact (List.suffix_cons p ps).trans (hrest ▸ List.dropWhile_suffix _)
  · cases h

theorem repeatStep {step : β → Reader (Bool × β)} (h : ∀ b, (step b).Consumes) (b : β) :
    Consumes (Reader.repeatStep step b) := by
  intro s c s' hr
  induction b, s using repeatStep.induct step with
  | case1 b s e t hstep =>
    rw [Reader.repeatStep, hstep] at hr
    cases hr
  | case2 b s again b' t hstep hmore ih =>
    rw [Reader.repeatStep, hstep] at hr
    simp only [hmore, and_self, dite_true] at hr
    exact (ih hr).trans (h b _ _ _ hstep)
  | case3 b s again b' t hstep hdone =>
    rw [Reader.repeatStep, hstep] at hr
    simp only [hdone, dite_false] at hr
    cases hr
    exact h b _ _ _ hstep

theorem orFail (o : Option α) (fault : ParseFault) : (Declarations.orFail o fault).Consumes := by
  cases o with
  | none => exact .fail fault
  | some a => exact .pure a

theorem named {γ : Type} (ofName? : String → Option α) (fault : String → ParseFault) (f : α → γ) :
    (do
      let n ← Reader.ident
      let a ← Declarations.orFail (ofName? n) (fault n)
      Pure.pure (f a) : Reader γ).Consumes :=
  .bind .ident fun _ => .bind (.orFail _ _) fun _ => .pure _

end Consumes

end Reader

/-! ## Readers of declarations -/

namespace Declarations

open Reader

theorem consumes_newName (d : Declarations) (line : UInt32) : (d.newName line).Consumes :=
  .bind .ident fun _ => .ite (.failAt _ _) (.pure _)

theorem consumes_flag (d : Declarations) (line : UInt32) : (d.readFlag line).Consumes := by
  refine .bind .ident fun name => .bind (.expect _) fun _ => ?_
  cases d.vocabulary.push name with
  | error e => exact .failAt _ _
  | ok r => exact .pure _

theorem consumes_buffer (d : Declarations) (line : UInt32) : (d.readBuffer line).Consumes :=
  .bind (consumes_newName d line) fun _ => .bind (.expect _) fun _ => .pure _

theorem consumes_samplerField (s : SamplerDraft) (key : String) : (readSamplerField s key).Consumes := by
  unfold readSamplerField
  split
  · exact .bind (.take _ _) fun _ => .pure _
  · exact .bind (.take _ _) fun _ => .ite (.pure _) (.fail _)
  · exact .named _ _ _
  · exact .named _ _ _
  · exact .bind (.take _ _) fun _ => .ite (.pure _) (.fail _)
  · exact .fail _

theorem consumes_samplerStep (s : SamplerDraft) : (samplerStep s).Consumes :=
  .bind (.check _) fun _ => .ite (.pure _) <| .bind .ident fun _ => .bind (.expect _) fun _ =>
    .bind (consumes_samplerField s _) fun _ => .bind (.expect _) fun _ => .pure _

theorem consumes_sampler (d : Declarations) (kind : SamplerKind) (line : UInt32) :
    (d.readSampler kind line).Consumes := by
  have hstate (s : SamplerDraft) : (readSamplerState s).Consumes :=
    .bind (.check _) fun _ => .ite
      (.bind (.expect _) fun _ => .bind (.expect _) fun _ => .repeatStep consumes_samplerStep s) (.pure s)
  exact .bind (consumes_newName d line) fun _ => .bind (hstate _) fun _ => .bind (.expect _) fun _ => .pure _

theorem consumes_uniform (d : Declarations) (kind : UniformKind) (line : UInt32) :
    (d.readUniform kind line).Consumes := by
  have hstep (name : String) (values : List Binary32) : (defaultStep name kind.size values).Consumes :=
    .bind (.take _ _) fun _ => .ite (.fail _) (.bind (.check _) fun _ => .pure _)
  have hdefaults (name : String) : (readDefaults name kind.size).Consumes :=
    .bind (.check _) fun _ => .ite (.bind (.repeatStep (hstep name) []) fun _ => .bind (.expect _) fun _ => .pure _)
      (.bind (.take _ _) fun _ => .pure _)
  have hskip : skipAnnotations.Consumes := .bind (.check _) fun _ => .ite (.skipPast _) (.pure _)
  exact .bind (consumes_newName d line) fun name => .bind hskip fun _ =>
    .bind (.bind (.check _) fun _ => .ite (hdefaults name) (.pure _)) fun _ => .bind (.expect _) fun _ => .pure _

theorem consumes_blendMode (state : RenderState) : (readBlendMode state).Consumes := by
  have hfactor : readBlendFactor.Consumes := .bind .ident fun _ => .orFail _ _
  exact .bind (.check _) fun _ => .ite
    (.bind hfactor fun _ => .bind (.expect _) fun _ => .bind hfactor fun _ => .bind (.expect _) fun _ => .pure _)
    (.named _ _ _)

theorem consumes_stateField (state : RenderState) (key : String) : (readStateField state key).Consumes := by
  unfold readStateField
  split
  · exact .bind (.take _ _) fun _ => .pure _
  · exact .bind (.take _ _) fun _ => .pure _
  · exact .bind (.take _ _) fun _ => .pure _
  · exact .named _ _ _
  · exact .named _ _ _
  · exact consumes_blendMode state
  · exact .bind (.take _ _) fun _ => .ite (.pure _) (.fail _)
  · exact .fail _

theorem consumes_contextField (sections : List String) (c : ContextDecl) (key : String) :
    (readContextField sections c key).Consumes := by
  unfold readContextField
  cases Stage.ofKey? key with
  | some stage =>
    exact .bind (.bind (.expect _) fun _ => .bind .ident fun _ => .bind .ident fun _ => .orFail _ _) fun _ => .pure _
  | none => exact .bind (consumes_stateField _ _) fun _ => .pure _

theorem consumes_context (sections : List String) (d : Declarations) (line : UInt32) :
    (readContext sections d line).Consumes := by
  have hstep (c : ContextDecl) : (contextStep sections c).Consumes :=
    .bind (.check _) fun _ => .ite (.pure _) <| .bind .ident fun _ => .bind (.expect _) fun _ =>
      .bind (consumes_contextField sections c _) fun _ => .bind (.expect _) fun _ => .pure _
  have hvalid (c : ContextDecl) : (validate c line).Consumes := by
    refine .bind .sourceName fun _ => ?_
    cases c.stages.fault? with
    | some fault => exact .failAt _ _
    | none => exact .pure _
  exact .bind .ident fun name => .ite (.failAt _ _) <| .bind (.expect _) fun _ =>
    .bind (.repeatStep hstep _) fun c => .bind (.check _) fun _ => .bind (hvalid c) fun _ => .pure _

theorem consumes_keyword (sections : List String) (d : Declarations) (line : UInt32) (keyword : String) :
    (readKeyword sections d line keyword).Consumes := by
  unfold readKeyword
  split
  · exact consumes_flag d line
  · exact consumes_uniform d .float line
  · exact consumes_uniform d .float4 line
  · exact consumes_buffer d line
  · exact consumes_context sections d line
  · cases SamplerKind.ofKeyword? keyword with
    | some kind => exact consumes_sampler d kind line
    | none => exact .failAt _ _

/-! ## Samplers and their lines -/

/-- The tokens hold the keyword and the name with which the declaration of a sampler opens, and it is kept with the line
of the keyword. -/
def Opens (tokens : List Token.Placed) (s : SamplerDraft) : Prop :=
  ∃ keyword name rest, keyword :: name :: rest <:+ tokens ∧ keyword.token = .word (samplerKeyword s.kind) ∧
    name.token = .word s.name ∧ keyword.line = s.line

theorem Opens.mono {tokens others : List Token.Placed} {s : SamplerDraft} (h : Opens tokens s)
    (hle : tokens <:+ others) : Opens others s := by
  obtain ⟨keyword, name, rest, htokens, h⟩ := h
  exact ⟨keyword, name, rest, htokens.trans hle, h⟩

/-- What fields say of a sampler is not its name, its kind or its line. -/
theorem samplerOf_head (line : UInt32) (kind : SamplerKind) (name : String) (fields : List SamplerField) :
    (samplerOf line kind name fields).name = name ∧ (samplerOf line kind name fields).kind = kind ∧
      (samplerOf line kind name fields).line = line := by
  have hfold (s : SamplerDraft) : (fields.foldl SamplerField.applyTo s).name = s.name ∧
      (fields.foldl SamplerField.applyTo s).kind = s.kind ∧ (fields.foldl SamplerField.applyTo s).line = s.line := by
    induction fields generalizing s with
    | nil => exact ⟨rfl, rfl, rfl⟩
    | cons f fields ih =>
      rw [List.foldl_cons]
      have hstep : (f.applyTo s).name = s.name ∧ (f.applyTo s).kind = s.kind ∧ (f.applyTo s).line = s.line := by
        cases f <;> exact ⟨rfl, rfl, rfl⟩
      rw [← hstep.1, ← hstep.2.1, ← hstep.2.2]
      exact ih _
  exact hfold _

/-- A step keeps what it finds and adds at most a sampler whose declaration opens at the first token. -/
theorem opens_step {sections : List String} {d d' : Declarations} {again : Bool} {s s' : TokenStream}
    (h : declarationStep sections d s = .ok (again, d') s') :
    s'.tokens <:+ s.tokens ∧ ∀ x ∈ d'.samplers, x ∈ d.samplers ∨ Opens s.tokens x := by
  obtain ⟨source, tokens, line, endLine⟩ := s
  cases tokens with
  | nil =>
    cases h
    exact ⟨List.suffix_refl _, fun x hx => Or.inl hx⟩
  | cons p ps =>
    have hread := Reads.ident_bind fun keyword =>
      (reads_keyword sections d p.line keyword).bind_pure fun d' => (true, d')
    have hconsumes := Consumes.bind .ident fun keyword =>
      .bind (consumes_keyword sections d p.line keyword) fun d' => .pure (true, d')
    refine ⟨hconsumes ⟨source, p :: ps, p.line, endLine⟩ _ _ h, fun x hx => ?_⟩
    obtain ⟨keyword, mid, hleft, -, e, ⟨decl, us, hw, -, -, hextends, rfl⟩, heq⟩ :=
      (hread ⟨source, p :: ps, p.line, endLine⟩ (again, d') s'.left).1 ⟨s', h, rfl⟩
    cases heq
    cases decl with
    | flag name =>
      obtain ⟨i, vocabulary, -, rfl⟩ := hextends
      exact Or.inl hx
    | uniform kind name defaults =>
      obtain ⟨-, rfl⟩ := hextends
      exact Or.inl hx
    | buffer name =>
      obtain ⟨-, rfl⟩ := hextends
      exact Or.inl hx
    | context name fields =>
      obtain ⟨-, rfl⟩ := hextends
      exact Or.inl hx
    | sampler kind name fields =>
      obtain ⟨-, rfl⟩ := hextends
      rcases List.mem_append.1 hx with hx | hx
      · exact Or.inl hx
      · obtain rfl := List.mem_singleton.1 hx
        obtain ⟨hname, hkind, hline⟩ := samplerOf_head p.line kind name fields
        obtain ⟨hp, hps⟩ := List.cons.inj hleft
        obtain ⟨rfl, us', rfl⟩ : keyword = samplerKeyword kind ∧ ∃ us', us = .word name :: us' := by
          cases hw <;> exact ⟨rfl, _, rfl⟩
        cases ps with
        | nil => cases hps
        | cons q qs =>
          obtain ⟨hq, -⟩ := List.cons.inj hps
          exact Or.inr ⟨p, q, qs, List.suffix_refl _, by rw [hkind]; exact hp, by rw [hname]; exact hq, hline.symm⟩

/-- Every sampler that is read is kept with the line of the keyword that opens its declaration. -/
theorem opens_of_read {sections : List String} {s : TokenStream} {d : Declarations} (h : read sections s = .ok d) :
    ∀ x ∈ d.samplers, Opens s.tokens x := by
  have hrun (d₀ : Declarations) (t s' : TokenStream)
      (hr : Reader.repeatStep (declarationStep sections) d₀ t = .ok d s') :
      ∀ x ∈ d.samplers, x ∈ d₀.samplers ∨ Opens t.tokens x := by
    induction d₀, t using repeatStep.induct (declarationStep sections) with
    | case1 d₀ t e u hstep =>
      rw [Reader.repeatStep, hstep] at hr
      cases hr
    | case2 d₀ t again d₁ u hstep hmore ih =>
      rw [Reader.repeatStep, hstep] at hr
      simp only [hmore, and_self, dite_true] at hr
      obtain ⟨hle, hfirst⟩ := opens_step hstep
      intro x hx
      rcases ih hr x hx with hx | hx
      · exact hfirst x hx
      · exact Or.inr (hx.mono hle)
    | case3 d₀ t again d₁ u hstep hdone =>
      rw [Reader.repeatStep, hstep] at hr
      simp only [hdone, dite_false] at hr
      cases hr
      exact (opens_step hstep).2
  unfold read at h
  split at h
  · cases h
  · next d' s' hr =>
    cases h
    intro x hx
    exact (hrun _ _ _ hr x hx).resolve_left List.not_mem_nil

end Declarations

end ShaderVariant
