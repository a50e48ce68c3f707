import ShaderVariant.Shader.Basic
import ShaderVariant.Fragment.Assembly
import ShaderVariant.Settings.Basic
import ShaderVariant.Source.Gate

/-!
# Stage sources

What a compiler is given for a context and a mask: for each bound stage the preamble, the definitions of the active
flags and the gated text of its section.

* `Workspace` : the fragments and settings that sources are assembled from;
* `Shader.link`, `Shader.combinationKey` : the flags that a context uses, and the mask reduced to them;
* `Shader.assembledSection` : a section with its includes expanded, kept for the generation if the settings say so;
* `Shader.finishStage`, `Shader.stageSources`, `Shader.assembleStageSources` : the final sources.

An operation that may fail answers with its result and the shader after it.
-/

namespace ShaderVariant

/-- What sources are assembled from, besides the shader. -/
structure Workspace where
  fragments : FragmentStore
  settings : Settings

namespace Shader

/-! ## Linking -/

/-- The flags that the sections of a context use, with all that they include. -/
def usedFlags (s : Shader) (fragments : FragmentStore) (d : ContextDecl) : Mask :=
  Mask.union ((d.stages.toList.filterMap fun b => s.sections[b.2]?).map fun f => fragments.flagBits f s.vocabulary)

/-- The context with its used flags, found anew if the shader has changed since they were found. -/
def linked (s : Shader) (fragments : FragmentStore) (c : Context) : Context :=
  if c.linkedAt = some s.generation then c
  else { c with usedFlags := s.usedFlags fragments c.decl, linkedAt := some s.generation }

def link (s : Shader) (fragments : FragmentStore) (i : Nat) : Shader := s.modifyContext i (s.linked fragments)

/-- The mask that a combination of a context is kept under, and the shader after it was found. -/
def combinationKey (w : Workspace) (i : Nat) (m : Mask) (s : Shader) : Mask × Shader :=
  match s.contexts[i]? with
  | none => (m, s)
  | some c =>
    if w.settings.maskUnusedFlags then (m &&& (s.linked w.fragments c).usedFlags, s.link w.fragments i) else (m, s)

/-! ## Assembling -/

def assembledSection (w : Workspace) (i : Nat) (s : Shader) : Except ShaderError Text × Shader :=
  match s.memo.get? i with
  | some t => (.ok t, s)
  | none =>
    match s.sections[i]? with
    | none => (.error (.invalidContext s.name "" (.missingSection i)), s)
    | some f =>
      match w.fragments.assembleFragment f none with
      | .error e => (.error e, s)
      | .ok t => (.ok t, if w.settings.memoizeAssembly then { s with memo := s.memo.set i t } else s)

/-- A text that ends its last line. -/
def closed (t : Text) : Text := if t.isEmpty || Text.endsLine t then t else t ++ ['\n']

def defines (names : List String) : Text := names.flatMap fun name => "#define ".toList ++ name.toList ++ ['\n']

/-- What goes in front of the gated text of a stage. -/
def stageHeader (s : Shader) (settings : Settings) (stage : Stage) (m : Mask) : Text :=
  closed (settings.preambles.get stage) ++ if settings.emitFlagDefines then defines (s.vocabulary.namesIn m) else []

def finishStage (s : Shader) (settings : Settings) (stage : Stage) (m : Mask) (assembled : Text) :
    Except ShaderError Text :=
  (gate s.vocabulary m assembled).map (s.stageHeader settings stage m ++ ·)

def stageSources (w : Workspace) (m : Mask) : List (Stage × Nat) → Shader → Except ShaderError (List StageSource) × Shader
  | [], s => (.ok [], s)
  | (stage, i) :: bound, s =>
    match s.assembledSection w i with
    | (.error e, s) => (.error e, s)
    | (.ok assembled, s) =>
      match s.finishStage w.settings stage m assembled with
      | .error e => (.error e, s)
      | .ok source =>
        match stageSources w m bound s with
        | (.error e, s) => (.error e, s)
        | (.ok sources, s) => (.ok (⟨stage, source⟩ :: sources), s)

/-- The final sources of the context with an index, as a compiler would be given them. -/
def assembleStageSources (w : Workspace) (i : Nat) (m : Mask) (s : Shader) :
    Except ShaderError (List StageSource) × Shader :=
  match s.loadError? with
  | some e => (.error e, s)
  | none =>
    match s.contexts[i]? with
    | none => (.error (s.noContext (displayIndex i)), s)
    | some c => s.stageSources w m c.decl.stages.toList

/-! ## Digests -/

/-- The bytes that a source list is hashed by: label and source of each stage, each closed by a zero. -/
def encodeSources (sources : List StageSource) : Bytes :=
  sources.flatMap fun s => Utf8.encode s.stage.label.toList ++ 0 :: Utf8.encode s.source ++ [0]

def digest (sources : List StageSource) : XXH3.Hash128 := XXH3.hash128 (encodeSources sources)

end Shader

end ShaderVariant
