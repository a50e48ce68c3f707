import ShaderVariant.Settings.Json
import ShaderVariant.Proofs.Json.Records

/-!
# Settings from JSON

* `Settings.Draft` : which settings are written, and with what values. `Draft.settings` are the settings that it stands
  for, with defaults for the rest;
* `Settings.DraftText` : the documents that write a draft, in any order and among other members;
* `ofJson_exact` : such a document is read as the settings of its draft, and what is written is read back.
-/

namespace ShaderVariant

open Json

/-! ## Values of stages -/

namespace PerStage

variable {α : Type}

def ofFn (f : Stage → α) : PerStage α :=
  ⟨f .vertex, f .fragment, f .geometry, f .tessControl, f .tessEval, f .compute⟩

end PerStage

namespace Settings

/-! ## Preambles -/

def QuotedText (s t : Text) : Prop := ∃ u, StringText s u ∧ t = '"' :: u

theorem quotedText_quote (s : Text) : QuotedText s (quote s) := ⟨_, stringText_quote s, rfl⟩

def preambleSchema : Schema (PerStage Text) Stage fun _ => Text where
  label := Stage.label
  Writes _ := QuotedText
  set s preamble p := p.set s preamble

/-- The preambles that are written, and those of `p` otherwise. -/
def writtenPreambles (w : Stage → Option Text) (p : PerStage Text) : PerStage Text :=
  .ofFn fun s => (w s).getD (p.get s)

theorem fits_preambles : preambleSchema.Fits preambleFields writtenPreambles where
  known s := by
    refine ⟨preambleField s, by cases s <;> rfl, fun a t h => ?_⟩
    obtain ⟨u, hu, rfl⟩ := h
    exact (takes_readText hu).map _
  unknown key h := by
    refine List.find?_eq_none.2 fun f hf => ?_
    obtain ⟨s, -, rfl⟩ := List.mem_map.1 hf
    rw [beq_iff_eq]
    exact (h s).symm
  onto_none _ := rfl
  onto_set w s a p hw := by
    unfold writtenPreambles
    congr 1
    funext x
    by_cases hx : x = s
    · subst hx
      simp [preambleSchema, hw]
    · rw [Function.update_of_ne hx]
      simp only [preambleSchema, PerStage.get_set_of_ne (Ne.symm hx)]

def PreamblesText (w : Stage → Option Text) (t : Text) : Prop := ∃ ms, preambleSchema.Written w ms ∧ ObjectText ms t

/-! ## Fields -/

inductive Field where
  | preambles
  | emitFlagDefines
  | strictFlags
  | memoizeAssembly
  | maskUnusedFlags
  deriving DecidableEq

namespace Field

/-- What may be written for a field: some of the preambles, or a truth value. -/
abbrev Value : Field → Type
  | preambles => Stage → Option Text
  | _ => Bool

def label : Field → String
  | preambles => "preambles"
  | emitFlagDefines => "emit_flag_defines"
  | strictFlags => "strict_flags"
  | memoizeAssembly => "memoize_assembly"
  | maskUnusedFlags => "mask_unused_flags"

def Writes : (f : Field) → f.Value → Text → Prop
  | preambles, w, t => PreamblesText w t
  | emitFlagDefines, b, t | strictFlags, b, t | memoizeAssembly, b, t | maskUnusedFlags, b, t => t = writeBool b

def set : (f : Field) → f.Value → Settings → Settings
  | preambles, w, s => { s with preambles := writtenPreambles w (.uniform []) }
  | emitFlagDefines, b, s => { s with emitFlagDefines := b }
  | strictFlags, b, s => { s with strictFlags := b }
  | memoizeAssembly, b, s => { s with memoizeAssembly := b }
  | maskUnusedFlags, b, s => { s with maskUnusedFlags := b }

end Field

def schema : Schema Settings Field Field.Value := ⟨Field.label, Field.Writes, Field.set⟩

/-- A choice of fields and their values. -/
abbrev Draft := (f : Field) → Option f.Value

namespace Draft

/-- The settings that are written, and those of `s` otherwise. -/
def onto (d : Draft) (s : Settings) : Settings where
  preambles := (d .preambles).elim s.preambles fun w => writtenPreambles w (.uniform [])
  emitFlagDefines := (d .emitFlagDefines).getD s.emitFlagDefines
  strictFlags := (d .strictFlags).getD s.strictFlags
  memoizeAssembly := (d .memoizeAssembly).getD s.memoizeAssembly
  maskUnusedFlags := (d .maskUnusedFlags).getD s.maskUnusedFlags

/-- The settings that a draft stands for. Without a value of its own, a preamble is empty, flags are defined, unknown
flags are not worth a warning, assembled sections are kept, and combinations are keyed as requested. -/
def settings (d : Draft) : Settings where
  preambles := .ofFn fun s => ((d .preambles).bind fun w => w s).getD []
  emitFlagDefines := (d .emitFlagDefines).getD true
  strictFlags := (d .strictFlags).getD false
  memoizeAssembly := (d .memoizeAssembly).getD true
  maskUnusedFlags := (d .maskUnusedFlags).getD false

theorem onto_default (d : Draft) : d.onto default = d.settings := by
  unfold onto settings
  congr 1
  cases d .preambles <;> rfl

end Draft

theorem takes_switch (name : String) (set : Bool → Settings → Settings) (b : Bool) :
    Takes (switchField name set).read (writeBool b) (set b) :=
  (takes_readBool b).map set

theorem fits_fields : schema.Fits fields Draft.onto where
  known f := by
    cases f with
    | preambles =>
      refine ⟨preamblesField, rfl, fun w t h => ?_⟩
      obtain ⟨ms, hw, ht⟩ := h
      exact (fits_preambles.takes ht hw (.uniform [])).map _
    | emitFlagDefines | strictFlags | memoizeAssembly | maskUnusedFlags =>
      refine ⟨_, rfl, fun b t h => ?_⟩
      cases h
      exact takes_switch _ _ b
  unknown key h := by
    have hkey : ∀ f : Field, f.label ≠ key := fun f => (h f).symm
    refine List.find?_eq_none.2 fun f hf => ?_
    simp only [beq_iff_eq]
    rw [fields] at hf
    simp only [List.mem_cons, List.not_mem_nil, or_false] at hf
    rcases hf with rfl | rfl | rfl | rfl | rfl
    · exact hkey .preambles
    · exact hkey .emitFlagDefines
    · exact hkey .strictFlags
    · exact hkey .memoizeAssembly
    · exact hkey .maskUnusedFlags
  onto_none _ := rfl
  onto_set d f a s hd := by
    cases f <;> simp [Draft.onto, schema, Field.set, hd]

/-! ## Documents -/

/-- A document that writes a draft: an object with a member for each field that is written, in any order and among
members with other keys, whose values may be anything. -/
def DraftText (d : Draft) (t : Text) : Prop :=
  ∃ b ms body b', Spaces b ∧ ObjectText ms body ∧ schema.Written d ms ∧ Spaces b' ∧ t = b ++ (body ++ b')

theorem ofJson_of_draftText {d : Draft} {t : Text} (h : DraftText d t) : ofJson t = .ok d.settings := by
  obtain ⟨b, ms, body, b', hb, hbody, hw, hb', rfl⟩ := h
  rw [ofJson, ← d.onto_default]
  exact readDocument_of_takes (fits_fields.takes hbody hw default) hb hb'

/-! ## Writing -/

theorem draftText_writeObject {d : Draft} {ms : List (String × Text)} (hms : ms ≠ []) (hw : schema.Written d ms) :
    DraftText d (writeObject 1 ms) :=
  ⟨[], ms, _, [], spaces_nil, objectText_writeObject 1 hms, hw, spaces_nil, (List.append_nil _).symm⟩

theorem preamblesText_write (p : PerStage Text) :
    PreamblesText (fun s => some (p.get s)) (writeObject 2 (preambleMembers p)) := by
  refine ⟨preambleMembers p, ?_, objectText_writeObject 2 (List.cons_ne_nil _ _)⟩
  have hlabel : Function.Injective preambleSchema.label := by
    intro x y h
    cases x <;> cases y <;> first | rfl | exact absurd h (by decide)
  exact preambleSchema.written_all hlabel (by decide) Stage.mem_all fun s => quotedText_quote (p.get s)

namespace Field

def all : List Field := [preambles, emitFlagDefines, strictFlags, memoizeAssembly, maskUnusedFlags]

def value (s : Settings) : (f : Field) → f.Value
  | preambles => fun stage => some (s.preambles.get stage)
  | emitFlagDefines => s.emitFlagDefines
  | strictFlags => s.strictFlags
  | memoizeAssembly => s.memoizeAssembly
  | maskUnusedFlags => s.maskUnusedFlags

def text (s : Settings) : Field → Text
  | preambles => writeObject 2 (preambleMembers s.preambles)
  | emitFlagDefines => writeBool s.emitFlagDefines
  | strictFlags => writeBool s.strictFlags
  | memoizeAssembly => writeBool s.memoizeAssembly
  | maskUnusedFlags => writeBool s.maskUnusedFlags

theorem writes_text (s : Settings) (f : Field) : f.Writes (f.value s) (f.text s) := by
  cases f with
  | preambles => exact preamblesText_write s.preambles
  | _ => rfl

theorem label_injective : Function.Injective label := by
  intro f g h
  cases f <;> cases g <;> first | rfl | exact absurd h (by decide)

end Field

theorem settings_value (s : Settings) : Draft.settings (fun f => some (f.value s)) = s := rfl

theorem draftText_toJson (s : Settings) : DraftText (fun f => some (f.value s)) s.toJson := by
  have hw : schema.Written (fun f => some (f.value s)) (Field.all.map fun f => (f.label, f.text s)) :=
    schema.written_all Field.label_injective (by decide) (fun f => by cases f <;> decide) (Field.writes_text s)
  exact draftText_writeObject (List.cons_ne_nil _ _) hw

/-- Settings that are written as JSON are read back as they were, whatever characters the preambles hold. A document
that writes some of the fields, and some of the preambles if it writes preambles, in any order, in any spelling and
among unknown fields with any values, is read as the values that are written, and every field that is not written has
its default. -/
theorem ofJson_exact :
    (∀ s : Settings, ofJson s.toJson = .ok s) ∧ ∀ (d : Draft) (t : Text), DraftText d t → ofJson t = .ok d.settings := by
  refine ⟨fun s => ?_, fun d t h => ofJson_of_draftText h⟩
  rw [ofJson_of_draftText (draftText_toJson s), settings_value]

/-- One switch and one preamble, behind an unknown field: the others have their defaults. -/
theorem ofJson_exact_someFields :
    ofJson (writeObject 1
      [("other", "[0]".toList), ("strict_flags", writeBool true),
        ("preambles", writeObject 2 [("vertex", quote "#version 450\n".toList)])]) =
      .ok { preambles := (PerStage.uniform []).set .vertex "#version 450\n".toList, emitFlagDefines := true,
            strictFlags := true, memoizeAssembly := true, maskUnusedFlags := false } := by
  have hpreambles : PreamblesText (Function.update (fun _ => none) Stage.vertex (some "#version 450\n".toList))
      (writeObject 2 [("vertex", quote "#version 450\n".toList)]) := by
    refine ⟨_, ?_, objectText_writeObject 2 (List.cons_ne_nil _ _)⟩
    exact .known (i := Stage.vertex) (quotedText_quote _) List.not_mem_nil .nil
  have hother : Form .value "[0]".toList :=
    .array (.lastElement (.element spaces_nil (.number (.mk .zero .absent .absent)) spaces_nil))
  have hlast := Schema.Written.known (S := schema) (i := .preambles) hpreambles List.not_mem_nil .nil
  have hmore := Schema.Written.known (S := schema) (i := .strictFlags) (a := true) rfl (by decide) hlast
  have hw : schema.Written _ (("other", "[0]".toList) :: _) := hmore.unknown (fun f => by cases f <;> decide) hother
  exact (ofJson_exact.2 _ _ (draftText_writeObject (List.cons_ne_nil _ _) hw)).trans rfl

/-- White space and escapes do not matter. -/
example : ofJson "\x7b \"strict_flags\": true, \"preambles\": \x7b \"vertex\": \"\\u0023version 450\\n\" \x7d \x7d".toList =
    .ok { (default : Settings).withPreamble .vertex "#version 450\n".toList with strictFlags := true } := by
  decide +kernel

end Settings

end ShaderVariant
