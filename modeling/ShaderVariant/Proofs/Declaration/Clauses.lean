import ShaderVariant.Proofs.Declaration.Reads

/-!
# Clauses of declarations

Each reader of a part of a declaration accepts what the grammar says of that part, with any token of the right spelling
for marks and for the words `sampler_state` and `compile`, and makes of it what the part means.

* `reads_samplerField`, `reads_stateField`, `reads_contextField` : the value behind a key;
* `reads_fields` : fields up to the brace behind them;
* `reads_samplerState`, `reads_annotations`, `reads_optionalDefaults` : the optional parts.
-/

namespace ShaderVariant

open Grammar Reader

/-! ## Names of values -/

theorem AddressMode.named : Named AddressMode.ofName? AddressMode.name :=
  named_of_find? AddressMode.all (by intro m; cases m <;> decide) (by decide) (by decide)

theorem FilterMode.named : Named FilterMode.ofName? FilterMode.name :=
  named_of_find? FilterMode.all (by intro m; cases m <;> decide) (by decide) (by decide)

theorem DepthFunc.named : Named DepthFunc.ofName? DepthFunc.name :=
  named_of_find? DepthFunc.all (by intro f; cases f <;> decide) (by decide) (by decide)

theorem CullMode.named : Named CullMode.ofName? CullMode.name :=
  named_of_find? CullMode.all (by intro m; cases m <;> decide) (by decide) (by decide)

theorem BlendPreset.named : Named BlendPreset.ofName? BlendPreset.name :=
  named_of_find? BlendPreset.all (by intro p; cases p <;> decide) (by decide) (by decide)

theorem BlendFactor.named : Named BlendFactor.ofName? BlendFactor.name :=
  named_of_find? BlendFactor.all (by intro f; cases f <;> decide) (by decide) (by decide)

theorem Stage.ofKey?_eq_some_iff {key : String} {bound : Stage} :
    Stage.ofKey? key = some bound ↔ (key, bound) ∈ stageKeys := by
  constructor
  · intro h
    unfold Stage.ofKey? at h
    split at h <;> cases h <;> decide
  · intro h
    simp only [stageKeys, List.mem_cons, List.not_mem_nil, or_false, Prod.mk.injEq] at h
    rcases h with ⟨rfl, rfl⟩ | ⟨rfl, rfl⟩ | ⟨rfl, rfl⟩ | ⟨rfl, rfl⟩ | ⟨rfl, rfl⟩ | ⟨rfl, rfl⟩ | ⟨rfl, rfl⟩ <;> rfl

theorem ofKey?_of_written {f : StateField} {key : String} {value : List Token}
    (h : f.Written Token.Alike key value) : Stage.ofKey? key = none := by
  cases h <;> rfl

theorem findIdx?_eq_some_iff_idxOf {names : List String} {name : String} {i : Nat} :
    names.findIdx? (· == name) = some i ↔ name ∈ names ∧ i = names.idxOf name := by
  rw [List.findIdx?_eq_some_iff_findIdx_eq, ← List.idxOf_lt_length_iff]
  constructor
  · rintro ⟨hlt, rfl⟩
    exact ⟨hlt, rfl⟩
  · rintro ⟨hlt, rfl⟩
    exact ⟨hlt, rfl⟩

theorem not_starts_word {c : Char} (hc : Text.isIdentifier [c] = false) {name : String} (h : IsIdentifier name)
    {ts : List Token} : ¬ Starts (.punct c) (.word name :: ts) := by
  rw [starts_cons]
  intro halike
  replace halike : name = String.singleton c := halike
  rw [IsIdentifier, halike, String.toList_singleton, hc] at h
  cases h

theorem not_starts_float {c : Char} (hc : Binary32.parse? (dropFloatSuffix [c]) = none) {w : String} {value : Binary32}
    (h : IsFloat w value) {ts : List Token} : ¬ Starts (.punct c) (.word w :: ts) := by
  rw [starts_cons]
  intro halike
  replace halike : w = String.singleton c := halike
  rw [IsFloat, halike, String.toList_singleton, hc] at h
  cases h

namespace Declarations

/-! ## Values of fields -/

/-- What is written for a sampler field and may stand in it does to the sampler what the field means. -/
theorem reads_samplerField (s : SamplerDraft) (key : String) :
    (readSamplerField s key).Reads fun ts s' rest =>
      ∃ f value, SamplerField.Written f key value ∧ f.InRange ∧ ts = value ++ rest ∧ s' = f.applyTo s := by
  intro stream s' rest
  constructor
  · intro h
    unfold readSamplerField at h
    split at h
    · obtain ⟨texture, hleft, rfl⟩ := (reads_string.bind_pure _ _ _ _).1 h
      exact ⟨_, _, .texture texture, trivial, hleft, rfl⟩
    · obtain ⟨w, found, hint, hrange, hleft, rfl⟩ := (reads_inRange _ _ _ _ _).1 h
      exact ⟨_, _, .unit hint, hrange, hleft, rfl⟩
    · obtain ⟨mode, hleft, rfl⟩ := (reads_named_map AddressMode.named _ _ _ _ _).1 h
      exact ⟨_, _, .address mode, trivial, hleft, rfl⟩
    · obtain ⟨mode, hleft, rfl⟩ := (reads_named_map FilterMode.named _ _ _ _ _).1 h
      exact ⟨_, _, .filter mode, trivial, hleft, rfl⟩
    · obtain ⟨w, found, hint, hrange, hleft, rfl⟩ := (reads_inRange _ _ _ _ _).1 h
      exact ⟨_, _, .anisotropy hint, hrange, hleft, rfl⟩
    · exact ((Reads.fail _ _ _ _).1 h).elim
  · rintro ⟨f, value, hw, hrange, hleft, rfl⟩
    cases hw with
    | texture texture => exact (reads_string.bind_pure _ _ _ _).2 ⟨texture, hleft, rfl⟩
    | unit hint => exact (reads_inRange _ _ _ _ _).2 ⟨_, _, hint, hrange, hleft, rfl⟩
    | address mode => exact (reads_named_map AddressMode.named _ _ _ _ _).2 ⟨mode, hleft, rfl⟩
    | filter mode => exact (reads_named_map FilterMode.named _ _ _ _ _).2 ⟨mode, hleft, rfl⟩
    | anisotropy hint => exact (reads_inRange _ _ _ _ _).2 ⟨_, _, hint, hrange, hleft, rfl⟩

/-- Two factors in braces, or the name of a preset. -/
theorem reads_blendMode (state : RenderState) :
    (readBlendMode state).Reads fun ts state' rest =>
      (∃ opening source comma destination closing, (Token.punct '\x7b').Alike opening ∧ (Token.punct ',').Alike comma ∧
        (Token.punct '\x7d').Alike closing ∧ ts = opening :: .word (BlendFactor.name source) :: comma ::
          .word (BlendFactor.name destination) :: closing :: rest ∧ state' = state.withFactors source destination) ∨
      ∃ preset, ts = .word (BlendPreset.name preset) :: rest ∧ state' = state.withPreset preset := by
  have hfactor := reads_named BlendFactor.named .unknownBlendFactor
  have hfactors := hfactor.bind fun source => Reads.expect_bind (g := .punct ',') rfl (hfactor.bind fun destination =>
    reads_expect_pure (g := .punct '\x7d') rfl (state.withFactors source destination))
  have hpreset := reads_named_map BlendPreset.named .unknownBlendMode state.withPreset
  refine (hfactors.check hpreset (g := .punct '\x7b') rfl).congr fun ts state' rest => ?_
  constructor
  · rintro (⟨opening, _, rfl, ho, source, _, rfl, comma, _, rfl, hc, destination, _, rfl, closing, rfl, hcl, rfl⟩ |
      ⟨-, preset, rfl, rfl⟩)
    · exact Or.inl ⟨opening, source, comma, destination, closing, ho, hc, hcl, rfl, rfl⟩
    · exact Or.inr ⟨preset, rfl, rfl⟩
  · rintro (⟨opening, source, comma, destination, closing, ho, hc, hcl, rfl, rfl⟩ | ⟨preset, rfl, rfl⟩)
    · exact Or.inl ⟨_, _, rfl, ho, source, _, rfl, _, _, rfl, hc, destination, _, rfl, _, rfl, hcl, rfl⟩
    · exact Or.inr ⟨not_starts_word (by decide) (BlendPreset.named.identifier preset), preset, rfl, rfl⟩

/-- What is written for a render state field and may stand in it does to the state what the field means. -/
theorem reads_stateField (state : RenderState) (key : String) :
    (readStateField state key).Reads fun ts state' rest =>
      ∃ f value, StateField.Written Token.Alike f key value ∧ f.InRange ∧ ts = value ++ rest ∧
        state' = f.applyTo state := by
  intro stream state' rest
  constructor
  · intro h
    unfold readStateField at h
    split at h
    · obtain ⟨on, hleft, rfl⟩ := (reads_boolean.bind_pure _ _ _ _).1 h
      exact ⟨_, _, .depthWrite on, trivial, hleft, rfl⟩
    · obtain ⟨on, hleft, rfl⟩ := (reads_boolean.bind_pure _ _ _ _).1 h
      exact ⟨_, _, .depthTest on, trivial, hleft, rfl⟩
    · obtain ⟨on, hleft, rfl⟩ := (reads_boolean.bind_pure _ _ _ _).1 h
      exact ⟨_, _, .alphaToCoverage on, trivial, hleft, rfl⟩
    · obtain ⟨func, hleft, rfl⟩ := (reads_named_map DepthFunc.named _ _ _ _ _).1 h
      exact ⟨_, _, .depthFunc func, trivial, hleft, rfl⟩
    · obtain ⟨mode, hleft, rfl⟩ := (reads_named_map CullMode.named _ _ _ _ _).1 h
      exact ⟨_, _, .cullMode mode, trivial, hleft, rfl⟩
    · rcases (reads_blendMode _ _ _ _).1 h with ⟨_, source, _, destination, _, ho, hc, hcl, hleft, rfl⟩ |
        ⟨preset, hleft, rfl⟩
      · exact ⟨_, _, .blendFactors source destination ho hc hcl, trivial, hleft, rfl⟩
      · exact ⟨_, _, .blendPreset preset, trivial, hleft, rfl⟩
    · obtain ⟨w, found, hint, hrange, hleft, rfl⟩ := (reads_inRange _ _ _ _ _).1 h
      exact ⟨_, _, .patchVertices hint, hrange, hleft, rfl⟩
    · exact ((Reads.fail _ _ _ _).1 h).elim
  · rintro ⟨f, value, hw, hrange, hleft, rfl⟩
    cases hw with
    | depthWrite on => exact (reads_boolean.bind_pure _ _ _ _).2 ⟨on, hleft, rfl⟩
    | depthTest on => exact (reads_boolean.bind_pure _ _ _ _).2 ⟨on, hleft, rfl⟩
    | alphaToCoverage on => exact (reads_boolean.bind_pure _ _ _ _).2 ⟨on, hleft, rfl⟩
    | depthFunc func => exact (reads_named_map DepthFunc.named _ _ _ _ _).2 ⟨func, hleft, rfl⟩
    | cullMode mode => exact (reads_named_map CullMode.named _ _ _ _ _).2 ⟨mode, hleft, rfl⟩
    | blendPreset preset => exact (reads_blendMode _ _ _ _).2 (Or.inr ⟨preset, hleft, rfl⟩)
    | blendFactors source destination ho hc hcl =>
      exact (reads_blendMode _ _ _ _).2 (Or.inl ⟨_, source, _, destination, _, ho, hc, hcl, hleft, rfl⟩)
    | patchVertices hint => exact (reads_inRange _ _ _ _ _).2 ⟨_, _, hint, hrange, hleft, rfl⟩

/-- The section that a stage is bound to: the place of a name among the code sections. -/
theorem reads_stageSection (sections : List String) :
    (readStageSection sections).Reads fun ts i rest =>
      ∃ compile language code, (Token.word "compile").Alike compile ∧ IsIdentifier language ∧ IsIdentifier code ∧
        code ∈ sections ∧ ts = compile :: .word language :: .word code :: rest ∧ i = sections.idxOf code := by
  refine (Reads.expect_bind (g := .word "compile") rfl (.ident_bind fun language => .ident_bind fun code =>
    reads_orFail _ _)).congr fun ts i rest => ?_
  constructor
  · rintro ⟨compile, _, rfl, hcompile, language, _, rfl, hlanguage, code, _, rfl, hcode, hi, rfl⟩
    obtain ⟨hmem, rfl⟩ := findIdx?_eq_some_iff_idxOf.1 hi
    exact ⟨compile, language, code, hcompile, hlanguage, hcode, hmem, rfl, rfl⟩
  · rintro ⟨compile, language, code, hcompile, hlanguage, hcode, hmem, rfl, rfl⟩
    exact ⟨compile, _, rfl, hcompile, language, _, rfl, hlanguage, code, _, rfl, hcode,
      findIdx?_eq_some_iff_idxOf.2 ⟨hmem, rfl⟩, rfl⟩

/-- What is written for a context field and fits does to the context what the field means. -/
theorem reads_contextField (sections : List String) (c : ContextDecl) (key : String) :
    (readContextField sections c key).Reads fun ts c' rest =>
      ∃ f value, ContextField.Written Token.Alike f key value ∧ f.Fits sections ∧ ts = value ++ rest ∧
        c' = f.applyTo sections c := by
  intro stream c' rest
  constructor
  · intro h
    cases hkey : Stage.ofKey? key with
    | some bound =>
      rw [readContextField, hkey] at h
      obtain ⟨_, ⟨_, _, code, hcompile, hlanguage, hcode, hmem, hleft, rfl⟩, rfl⟩ :=
        ((reads_stageSection sections).bind_pure _ _ _ _).1 h
      exact ⟨_, _, .stage (Stage.ofKey?_eq_some_iff.1 hkey) hcompile hlanguage hcode, hmem, hleft, rfl⟩
    | none =>
      rw [readContextField, hkey] at h
      obtain ⟨_, ⟨f, value, hw, hrange, hleft, rfl⟩, rfl⟩ := ((reads_stateField _ key).bind_pure _ _ _ _).1 h
      exact ⟨_, _, .state hw, hrange, hleft, rfl⟩
  · rintro ⟨f, value, hw, hfits, hleft, rfl⟩
    cases hw with
    | stage hkey hcompile hlanguage hcode =>
      rw [readContextField, Stage.ofKey?_eq_some_iff.2 hkey]
      exact ((reads_stageSection sections).bind_pure _ _ _ _).2
        ⟨_, ⟨_, _, _, hcompile, hlanguage, hcode, hfits, hleft, rfl⟩, rfl⟩
    | state hw =>
      rw [readContextField, ofKey?_of_written hw]
      exact ((reads_stateField _ key).bind_pure _ _ _ _).2 ⟨_, ⟨_, _, hw, hfits, hleft, rfl⟩, rfl⟩

/-! ## Blocks of fields -/

variable {β F : Type}

/-- A step through a block: its closing brace, or a field. -/
def blockStep (readField : β → String → Reader β) (b : β) : Reader (Bool × β) := do
  if ← check "\x7d" then return (false, b)
  else
    let key ← ident
    expect "="
    let b ← readField b key
    expect ";"
    return (true, b)

theorem samplerStep_eq : samplerStep = blockStep readSamplerField := rfl

theorem contextStep_eq (sections : List String) : contextStep sections = blockStep (readContextField sections) := rfl

/-- What a step through a block does: nothing at the closing brace, and otherwise what a field means. -/
inductive BlockStep (Value : F → String → List Token → Prop) (fits : F → Prop) (apply : β → F → β) (b : β) :
    List Token → Bool × β → List Token → Prop
  | closing {closing : Token} {rest : List Token} (closes : (Token.punct '\x7d').Alike closing) :
      BlockStep Value fits apply b (closing :: rest) (false, b) rest
  | field {f : F} {key : String} {value rest : List Token} {equals ends : Token} (written : Value f key value)
      (fit : fits f) (sets : (Token.punct '=').Alike equals) (closes : (Token.punct ';').Alike ends) :
      BlockStep Value fits apply b (.word key :: equals :: (value ++ ends :: rest)) (true, apply b f) rest

section Block

variable {Value : F → String → List Token → Prop} {fits : F → Prop} {apply : β → F → β}

theorem reads_blockStep {readField : β → String → Reader β}
    (hread : ∀ b key, (readField b key).Reads fun ts b' rest =>
      ∃ f value, Value f key value ∧ fits f ∧ ts = value ++ rest ∧ b' = apply b f)
    (hkey : ∀ f key value, Value f key value → IsIdentifier key) (b : β) :
    (blockStep readField b).Reads (BlockStep Value fits apply b) := by
  have hfield := Reads.ident_bind fun key => .expect_bind (g := .punct '=') rfl ((hread b key).bind fun b' =>
    reads_expect_pure (g := .punct ';') rfl (true, b'))
  refine ((Reads.pure (false, b)).check hfield (g := .punct '\x7d') rfl).congr fun ts x rest => ?_
  constructor
  · rintro (⟨closing, _, rfl, hcl, rfl, rfl⟩ |
      ⟨-, key, _, rfl, -, equals, _, rfl, heq, _, _, ⟨f, value, hw, hfit, rfl, rfl⟩, ends, rfl, hends, rfl⟩)
    · exact .closing hcl
    · exact .field hw hfit heq hends
  · rintro (hcl | ⟨hw, hfit, heq, hends⟩)
    · exact Or.inl ⟨_, _, rfl, hcl, rfl, rfl⟩
    · have hid := hkey _ _ _ hw
      exact Or.inr ⟨not_starts_word (by decide) hid, _, _, rfl, hid, _, _, rfl, heq, _, _,
        ⟨_, _, hw, hfit, rfl, rfl⟩, _, rfl, hends, rfl⟩

/-- Steps through a block do what the fields up to the closing brace mean, one after the other. -/
theorem repeats_blockStep_iff {b b' : β} {ts rest : List Token} :
    Repeats (BlockStep Value fits apply) b ts b' rest ↔
      ∃ fs us closing, Fields Token.Alike Value fs us ∧ (∀ f ∈ fs, fits f) ∧ (Token.punct '\x7d').Alike closing ∧
        ts = us ++ closing :: rest ∧ b' = fs.foldl apply b := by
  constructor
  · intro h
    induction h with
    | last h =>
      cases h with
      | closing hcl => exact ⟨[], [], _, .nil, List.forall_mem_nil _, hcl, rfl, rfl⟩
    | more h _ ih =>
      cases h with
      | field hw hfit heq hends =>
        obtain ⟨fs, us, closing, hfs, hfits, hcl, rfl, rfl⟩ := ih
        exact ⟨_ :: fs, _, closing, .cons hw heq hends hfs, List.forall_mem_cons.2 ⟨hfit, hfits⟩, hcl, by simp, rfl⟩
  · rintro ⟨fs, us, closing, hfs, hfits, hcl, rfl, rfl⟩
    induction hfs generalizing b with
    | nil => exact .last (.closing hcl)
    | cons hw heq hends _ ih =>
      obtain ⟨hfit, hfits⟩ := List.forall_mem_cons.1 hfits
      rw [List.cons_append, List.cons_append, List.append_assoc, List.cons_append]
      exact .more (.field hw hfit heq hends) (ih hfits)

/-- Repeated steps read the fields of a block and its closing brace. -/
theorem reads_fields {readField : β → String → Reader β}
    (hread : ∀ b key, (readField b key).Reads fun ts b' rest =>
      ∃ f value, Value f key value ∧ fits f ∧ ts = value ++ rest ∧ b' = apply b f)
    (hkey : ∀ f key value, Value f key value → IsIdentifier key) (b : β) :
    Reads (repeatStep (blockStep readField) b) fun ts b' rest =>
      ∃ fs us closing, Fields Token.Alike Value fs us ∧ (∀ f ∈ fs, fits f) ∧ (Token.punct '\x7d').Alike closing ∧
        ts = us ++ closing :: rest ∧ b' = fs.foldl apply b := by
  refine (reads_repeatStep (reads_blockStep hread hkey) ?_ b).congr fun _ _ _ => repeats_blockStep_iff
  rintro b ts b' rest h
  cases h with
  | field => simp only [List.length_cons, List.length_append]; omega

end Block

/-! ## Optional parts -/

/-- Fields of a sampler, which are absent unless an equals sign follows. -/
theorem reads_samplerState (s : SamplerDraft) :
    (readSamplerState s).Reads fun ts s' rest =>
      (∃ equals state opening closing fs us, (Token.punct '=').Alike equals ∧ (Token.word "sampler_state").Alike state ∧
        (Token.punct '\x7b').Alike opening ∧ (Token.punct '\x7d').Alike closing ∧
        Fields Token.Alike SamplerField.Written fs us ∧ (∀ f ∈ fs, SamplerField.InRange f) ∧
        ts = equals :: state :: opening :: (us ++ closing :: rest) ∧ s' = fs.foldl SamplerField.applyTo s) ∨
      ¬ Starts (.punct '=') ts ∧ s' = s ∧ rest = ts := by
  have hkey : ∀ f key value, SamplerField.Written f key value → IsIdentifier key := by
    rintro f key value (_ | _ | _ | _ | _) <;> decide
  have hfields := samplerStep_eq ▸ reads_fields reads_samplerField hkey s
  have hblock := Reads.expect_bind (g := .word "sampler_state") rfl (.expect_bind (g := .punct '\x7b') rfl hfields)
  refine (hblock.check (.pure s) (g := .punct '=') rfl).congr fun ts s' rest => or_congr_left ?_
  constructor
  · rintro ⟨equals, _, rfl, heq, state, _, rfl, hstate, opening, _, rfl, ho, hblock⟩
    obtain ⟨fs, us, closing, hfs, hrange, hcl, rfl, rfl⟩ := hblock
    exact ⟨equals, state, opening, closing, fs, us, heq, hstate, ho, hcl, hfs, hrange, rfl, rfl⟩
  · rintro ⟨equals, state, opening, closing, fs, us, heq, hstate, ho, hcl, hfs, hrange, rfl, rfl⟩
    exact ⟨_, _, rfl, heq, _, _, rfl, hstate, _, _, rfl, ho, fs, us, closing, hfs, hrange, hcl, rfl, rfl⟩

/-- Annotations, which are absent unless an angle bracket follows. -/
theorem reads_annotations :
    skipAnnotations.Reads fun ts _ rest =>
      ∃ us, Annotations Token.Alike us ∧ ts = us ++ rest ∧ (us = [] → ¬ Starts (.punct '<') rest) := by
  refine ((reads_skipPast '>').check (.pure ()) (g := .punct '<') rfl).congr fun ts a rest => ?_
  constructor
  · rintro (⟨opening, _, rfl, ho, inner, rfl, hinner⟩ | ⟨hno, -, rfl⟩)
    · exact ⟨_, .present ho hinner, by simp, nofun⟩
    · exact ⟨[], .absent, rfl, fun _ => hno⟩
  · rintro ⟨us, hus, rfl, hno⟩
    cases hus with
    | absent => exact Or.inr ⟨hno rfl, rfl, rfl⟩
    | present ho hinner => exact Or.inl ⟨_, _, rfl, ho, _, by simp, hinner⟩

/-- What a step through default values does: there has to be room for one more. -/
inductive DefaultStep (size : Nat) (values : List Binary32) : List Token → Bool × List Binary32 → List Token → Prop
  | last {w : String} {value : Binary32} {rest : List Token} (float : IsFloat w value) (room : values.length < size)
      (stops : ¬ Starts (.punct ',') rest) : DefaultStep size values (.word w :: rest) (false, values ++ [value]) rest
  | more {w : String} {value : Binary32} {comma : Token} {rest : List Token} (float : IsFloat w value)
      (room : values.length < size) (separates : (Token.punct ',').Alike comma) :
      DefaultStep size values (.word w :: comma :: rest) (true, values ++ [value]) rest

theorem reads_defaultStep (name : String) (size : Nat) (values : List Binary32) :
    (defaultStep name size values).Reads (DefaultStep size values) := by
  refine (reads_float.bind fun value => (Reads.fail _).ite ((reads_check (g := .punct ',') rfl).bind_pure
    fun more => (more, values ++ [value]))).congr fun ts x rest => ?_
  constructor
  · rintro ⟨value, _, ⟨w, rfl, hfloat⟩, ⟨-, ⟨⟩⟩ | ⟨hroom, more, ⟨rfl, comma, rfl, hcomma⟩ | ⟨rfl, hno, rfl⟩, rfl⟩⟩
    · exact .more hfloat (Nat.lt_of_not_le hroom) hcomma
    · exact .last hfloat (Nat.lt_of_not_le hroom) hno
  · rintro (⟨hfloat, hroom, hno⟩ | ⟨hfloat, hroom, hcomma⟩)
    · exact ⟨_, _, ⟨_, rfl, hfloat⟩, Or.inr ⟨Nat.not_le_of_lt hroom, false, Or.inr ⟨rfl, hno, rfl⟩, rfl⟩⟩
    · exact ⟨_, _, ⟨_, rfl, hfloat⟩, Or.inr ⟨Nat.not_le_of_lt hroom, true, Or.inl ⟨rfl, _, rfl, hcomma⟩, rfl⟩⟩

/-- Steps through default values read one number after the other, as long as commas follow. -/
theorem repeats_defaultStep_iff {size : Nat} {values values' : List Binary32} {ts rest : List Token} :
    Repeats (DefaultStep size) values ts values' rest ↔
      ∃ xs us, Numbers Token.Alike xs us ∧ (values ++ xs).length ≤ size ∧ ¬ Starts (.punct ',') rest ∧
        ts = us ++ rest ∧ values' = values ++ xs := by
  constructor
  · intro h
    induction h with
    | last h =>
      cases h with
      | last hfloat hroom hno => exact ⟨_, _, .last hfloat, by simpa using Nat.succ_le_of_lt hroom, hno, rfl, rfl⟩
    | more h _ ih =>
      cases h with
      | more hfloat hroom hcomma =>
        obtain ⟨xs, us, hxs, hsize, hno, rfl, rfl⟩ := ih
        exact ⟨_, _, .more hfloat hcomma hxs, by simpa using hsize, hno, rfl, by simp⟩
  · rintro ⟨xs, us, hxs, hsize, hno, rfl, rfl⟩
    induction hxs generalizing values with
    | last hfloat => exact .last (.last hfloat (Nat.lt_of_succ_le (by simpa using hsize)) hno)
    | @more w value xs comma us hfloat hcomma hxs ih =>
      have hroom : values.length < size := by
        rw [List.length_append, List.length_cons] at hsize
        omega
      rw [List.append_cons values value xs] at hsize ⊢
      exact .more (.more hfloat hroom hcomma) (ih hsize)

/-- Default values, which are absent unless an equals sign follows, and not more than there are components. -/
theorem reads_optionalDefaults (name : String) {size : Nat} (hsize : 1 ≤ size) :
    (readOptionalDefaults name size).Reads fun ts values rest =>
      ∃ us, Defaults Token.Alike values us ∧ values.length ≤ size ∧ ts = us ++ rest ∧
        (us = [] → ¬ Starts (.punct '=') rest) := by
  have hless : ∀ b ts b' rest, DefaultStep size b ts (true, b') rest → rest.length < ts.length := by
    rintro b ts b' rest h
    cases h with
    | more => simp only [List.length_cons]; omega
  have hbraced := (reads_repeatStep (reads_defaultStep name size) hless []).bind fun values =>
    reads_expect_pure (g := .punct '\x7d') rfl values
  have hdefaults := hbraced.check (reads_float.bind_pure fun value => [value]) (g := .punct '\x7b') rfl
  refine (hdefaults.check (.pure []) (g := .punct '=') rfl).congr fun ts values rest => ?_
  constructor
  · rintro (⟨equals, _, rfl, heq, ⟨opening, _, rfl, ho, values', _, hnumbers, closing, rfl, hcl, rfl⟩ |
      ⟨-, value, ⟨w, rfl, hfloat⟩, rfl⟩⟩ | ⟨hno, rfl, rfl⟩)
    · obtain ⟨xs, us, hxs, hle, -, rfl, rfl⟩ := repeats_defaultStep_iff.1 hnumbers
      exact ⟨_, .braced heq ho hxs hcl, hle, by simp, nofun⟩
    · exact ⟨_, .single heq hfloat, hsize, rfl, nofun⟩
    · exact ⟨[], .absent, Nat.zero_le _, rfl, fun _ => hno⟩
  · rintro ⟨us, hus, hle, rfl, hno⟩
    cases hus with
    | absent => exact Or.inr ⟨hno rfl, rfl, rfl⟩
    | single heq hfloat =>
      exact Or.inl ⟨_, _, rfl, heq, Or.inr ⟨not_starts_float (by decide) hfloat, _, ⟨_, rfl, hfloat⟩, rfl⟩⟩
    | braced heq ho hxs hcl =>
      exact Or.inl ⟨_, _, rfl, heq, Or.inl ⟨_, _, rfl, ho, _, _ :: _, repeats_defaultStep_iff.2
        ⟨_, _, hxs, hle, not_starts_of_alike hcl (by decide) _, by simp, rfl⟩, _, rfl, hcl, rfl⟩⟩

end Declarations

end ShaderVariant
