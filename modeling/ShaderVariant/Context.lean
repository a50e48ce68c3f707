import ShaderVariant.Combination
import ShaderVariant.Declaration.Basic
import ShaderVariant.Table.Assoc

/-!
# Contexts

A context is a declared pass of a shader together with the combinations that were built for it. The flags that its
sections use are found once in a generation of the shader.
-/

namespace ShaderVariant

/-- A declared context with its combinations by mask. `usedFlags` was found at the generation `linkedAt`. -/
structure Context where
  decl : ContextDecl
  usedFlags : Mask
  linkedAt : Option Generation
  compiled : Bool
  combinations : Assoc Mask Combination
  deriving DecidableEq, Repr

namespace Context

def ofDecl (decl : ContextDecl) : Context :=
  { decl, usedFlags := .empty, linkedAt := none, compiled := false, combinations := [] }

def name (c : Context) : String := c.decl.name

def combination? (c : Context) (key : Mask) : Option Combination := c.combinations.get? key

/-- The combination of a key, a new one if there is none. -/
def entry (c : Context) (key : Mask) : Combination := (c.combination? key).getD (.new key)

def put (c : Context) (key : Mask) (b : Combination) : Context :=
  { c with combinations := c.combinations.set key b }

def programs (c : Context) : List Program := c.combinations.filterMap (·.2.program)

/-- The context without its combinations, to be linked again. -/
def cleared (c : Context) : Context := { c with linkedAt := none, compiled := false, combinations := [] }

end Context

end ShaderVariant
