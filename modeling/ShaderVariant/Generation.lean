/-!
# Generations

A generation counts the changes of an object. What is cached records the generation it was built at and is stale
once its owner has moved on. The counter has 64 bits and wraps.
-/

namespace ShaderVariant

/-- A change counter of 64 bits. -/
structure Generation where
  count : UInt64
  deriving DecidableEq, Repr, Inhabited

namespace Generation

def zero : Generation := ⟨0⟩

def next (g : Generation) : Generation := ⟨g.count + 1⟩

/-- Whether something stamped `stamp` is older than this generation. -/
def isNewerThan (g stamp : Generation) : Bool := stamp.count < g.count

def display (g : Generation) : String := s!"gen#{g.count}"

@[simp] theorem isNewerThan_self (g : Generation) : g.isNewerThan g = false := by
  have : ¬ g.count < g.count := by rw [UInt64.lt_iff_toNat_lt]; exact Nat.lt_irrefl _
  simp [isNewerThan, this]

end Generation

end ShaderVariant
