import ShaderVariant.Context
import ShaderVariant.Declaration.ShaderSource
import ShaderVariant.Fragment.Reach

/-!
# Shaders

A shader is what one source declares: its flags, contexts, code sections, samplers, uniforms and buffers. Its
generation moves whenever its sources may have changed.

* `Shader.failed`, `Shader.ofSource` : a shader that could not be loaded, and one that was;
* `Shader.apply`, `Shader.markFailed` : new content, or the failure to get any, for a shader without programs;
* `Shader.invalidate` : the same content, but everything cached is stale;
* `Shader.preLoadMask` : asks for a mask to be compiled ahead;
* `Shader.dependsOn`, `Shader.includesDirectly` : use of shared fragments.
-/

namespace ShaderVariant

/-- A shader. `diagnostic` says why it is not loaded; `preLoad` are the masks to compile ahead; `memo` holds the
assembled text of sections for the present generation. -/
structure Shader where
  name : String
  diagnostic : Option String
  vocabulary : Vocabulary
  contexts : List Context
  sections : List Fragment
  samplers : List Sampler
  uniforms : List Uniform
  buffers : List String
  preLoad : List Mask
  generation : Generation
  ready : Bool
  memo : Assoc Nat Text

namespace Shader

def failed (name diagnostic : String) : Shader :=
  { name, diagnostic := some diagnostic, vocabulary := .empty, contexts := [], sections := [], samplers := [],
    uniforms := [], buffers := [], preLoad := [], generation := .zero, ready := false, memo := [] }

/-- The shader with the content of a source, whose sections are given as fragments. Masks to compile ahead stay only
while the flags stay, since a bit means the flag declared at its place. -/
def apply (s : Shader) (source : ShaderSource) (sections : List Fragment) : Shader :=
  { name := s.name, diagnostic := none, vocabulary := source.vocabulary,
    contexts := source.contexts.map Context.ofDecl, sections, samplers := source.samplers,
    uniforms := source.uniforms, buffers := source.buffers,
    preLoad := if source.vocabulary.sameFlags s.vocabulary then s.preLoad else [],
    generation := s.generation.next, ready := false, memo := [] }

def ofSource (name : String) (source : ShaderSource) (sections : List Fragment) : Shader :=
  (failed name "").apply source sections

/-- The shader without content. Its flags, declared elements and masks to compile ahead are kept. -/
def markFailed (s : Shader) (diagnostic : String) : Shader :=
  { s with diagnostic := some diagnostic, contexts := [], sections := [], ready := false, memo := [],
           generation := s.generation.next }

/-- Makes everything that was built stale. -/
def invalidate (s : Shader) : Shader := { s with memo := [], generation := s.generation.next }

def isLoaded (s : Shader) : Bool := s.diagnostic.isNone

def loadError? (s : Shader) : Option ShaderError := s.diagnostic.map (.notLoaded s.name)

/-! ## Contexts -/

def findContext? (s : Shader) (name : String) : Option Nat := s.contexts.findIdx? (·.name == name)

def modifyContext (s : Shader) (i : Nat) (f : Context → Context) : Shader :=
  { s with contexts := s.contexts.modify i f }

def noContext (s : Shader) (name : String) : ShaderError := .unknownContext s.name name

def displayIndex (i : Nat) : String := s!"#{i}"

def programs (s : Shader) : List Program := s.contexts.flatMap Context.programs

def combinationCount (s : Shader) : Nat := s.contexts.foldr (fun c n => c.combinations.length + n) 0

/-! ## Requests and use of fragments -/

/-- Asks for a mask to be compiled ahead. Asking twice changes nothing. -/
def preLoadMask (s : Shader) (m : Mask) : Shader :=
  if s.preLoad.contains m then s else { s with preLoad := s.preLoad ++ [m] }

def encode (s : Shader) (names : List String) : Mask := s.vocabulary.encode names

/-- Whether a section includes a fragment, directly or through others. -/
def dependsOn (s : Shader) (fragments : FragmentStore) (k : FragmentKey) : Bool :=
  s.sections.any (fragments.hasDependency · k)

def includesDirectly (s : Shader) (k : FragmentKey) : Bool := s.sections.any (·.includesDirectly k)

end Shader

end ShaderVariant
