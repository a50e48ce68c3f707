import ShaderVariant.Loader
import ShaderVariant.Shader.Build

/-!
# Shader libraries

A library owns the shared fragments, the shaders under keys and names, the settings, and the loader that sources come
from.

* `Library.workspace` : what its shaders are assembled from;
* `Library.setSettings` : other settings, which make everything stale;
* `Library.fragmentChanged` : tells every shader that includes a fragment, directly or not, that it has changed.

An operation that may fail answers with its result and the library after it.
-/

namespace ShaderVariant

/-- Fragments, shaders, settings and the loader of sources. -/
structure Library where
  fragments : FragmentStore
  shaders : SlotMap Shader
  names : Assoc String ShaderKey
  settings : Settings
  loader : Loader

namespace Library

def new (loader : Loader) (settings : Settings) : Library :=
  { fragments := .empty, shaders := .empty, names := [], settings, loader }

instance : Inhabited Library := ⟨new default default⟩

def workspace (l : Library) : Workspace := ⟨l.fragments, l.settings⟩

def shader? (l : Library) (k : ShaderKey) : Option Shader := l.shaders.get? k

def findShader? (l : Library) (name : String) : Option ShaderKey := l.names.get? name

def noShader (k : ShaderKey) : ShaderError := .unknownShader (displayShaderKey k)

def setShader (l : Library) (k : ShaderKey) (s : Shader) : Library := { l with shaders := l.shaders.set k s }

def modifyShader (l : Library) (k : ShaderKey) (f : Shader → Shader) : Library :=
  { l with shaders := l.shaders.modify k f }

def registerShader (l : Library) (s : Shader) : ShaderKey × Library :=
  let (k, shaders) := l.shaders.insert s
  (k, { l with shaders, names := l.names.set s.name k })

/-- Replaces the settings. The sources depend on them, so every shader is invalidated. -/
def setSettings (l : Library) (settings : Settings) : Library :=
  { l with settings, shaders := l.shaders.mapValues fun _ s => s.invalidate }

/-- Invalidates every shader that includes a fragment; the number of them. -/
def fragmentChanged (l : Library) (k : FragmentKey) : Nat × Library :=
  let uses (s : Shader) : Bool := s.dependsOn l.fragments k
  (l.shaders.values.countP uses,
    { l with shaders := l.shaders.mapValues fun _ s => if uses s then s.invalidate else s })

end Library

end ShaderVariant
