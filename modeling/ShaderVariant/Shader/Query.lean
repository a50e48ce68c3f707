import ShaderVariant.Shader.Basic

/-!
# Element queries

Tools ask for declared elements by numbers: a kind of element, an index and a parameter. Whatever does not exist, or
has no such parameter, has no answer.

* `Shader.elementCount`, `Shader.intParam?`, `Shader.floatParam?`, `Shader.textParam?` : the questions;
* `Shader.setFloatParam?` : another default value for a component of a uniform.
-/

namespace ShaderVariant

inductive ElementKind where
  | context
  | sampler
  | uniform
  | buffer
  deriving DecidableEq, Repr

def ElementKind.ofCode? : Int → Option ElementKind
  | 600 => some context
  | 601 => some sampler
  | 602 => some uniform
  | 609 => some buffer
  | _ => none

inductive ElementParam where
  | contextName
  | samplerName
  | samplerTexture
  | uniformName
  | uniformSize
  | uniformDefault
  | bufferName
  | samplerUnit
  deriving DecidableEq, Repr

def ElementParam.ofCode? : Int → Option ElementParam
  | 603 => some contextName
  | 604 => some samplerName
  | 605 => some samplerTexture
  | 606 => some uniformName
  | 607 => some uniformSize
  | 608 => some uniformDefault
  | 610 => some bufferName
  | 611 => some samplerUnit
  | _ => none

/-- Replaces a default value of a component that the uniform has. -/
def Uniform.withDefault? (u : Uniform) (component : Nat) (x : Binary32) : Option Uniform :=
  if component < u.size then some { u with defaults := u.defaults.setIfInBounds component x } else none

namespace Shader

def elementCount (s : Shader) (kind : Int) : Nat :=
  match ElementKind.ofCode? kind with
  | some .context => s.contexts.length
  | some .sampler => s.samplers.length
  | some .uniform => s.uniforms.length
  | some .buffer => s.buffers.length
  | none => 0

/-- An integer parameter: the number of a uniform's components, or a sampler's texture unit. -/
def intParam? (s : Shader) (kind : Int) (i : Nat) (param : Int) : Option Nat :=
  match ElementKind.ofCode? kind, ElementParam.ofCode? param with
  | some .uniform, some .uniformSize => s.uniforms[i]?.map Uniform.size
  | some .sampler, some .samplerUnit => s.samplers[i]?.map Sampler.unit
  | _, _ => none

def floatParam? (s : Shader) (kind : Int) (i : Nat) (param : Int) (component : Nat) : Option Binary32 :=
  match ElementKind.ofCode? kind, ElementParam.ofCode? param with
  | some .uniform, some .uniformDefault => s.uniforms[i]?.bind (·.values[component]?)
  | _, _ => none

def textParam? (s : Shader) (kind : Int) (i : Nat) (param : Int) : Option String :=
  match ElementKind.ofCode? kind, ElementParam.ofCode? param with
  | some .context, some .contextName => s.contexts[i]?.map Context.name
  | some .sampler, some .samplerName => s.samplers[i]?.map Sampler.name
  | some .sampler, some .samplerTexture => s.samplers[i]?.bind Sampler.texture
  | some .uniform, some .uniformName => s.uniforms[i]?.map Uniform.name
  | some .buffer, some .bufferName => s.buffers[i]?
  | _, _ => none

/-- The shader with another default value for a component of a uniform, if there is such a component. -/
def setFloatParam? (s : Shader) (kind : Int) (i : Nat) (param : Int) (component : Nat) (x : Binary32) :
    Option Shader :=
  match ElementKind.ofCode? kind, ElementParam.ofCode? param with
  | some .uniform, some .uniformDefault =>
    (s.uniforms[i]?.bind (·.withDefault? component x)).map fun u => { s with uniforms := s.uniforms.set i u }
  | _, _ => none

end Shader

end ShaderVariant
