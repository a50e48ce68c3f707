import ShaderVariant.Fragment.Store

/-!
# Assembly

Assembling a fragment puts the assembled text of every include at its place, in order and depth first. Each occurrence
is expanded on its own.

* `FragmentStore.expand` : the text of a fragment whose includes from some place on are still to be expanded, inside
  the fragments on `path`;
* `FragmentStore.assemble` : the text of a stored fragment;
* `FragmentStore.assembleFragment` : the text of any fragment; a stored one is on its own path.

A fragment may not occur inside itself, so every nested include is a stored key that is new on the path: that bounds
the depth.
-/

namespace ShaderVariant.FragmentStore

/-- The names of a cycle that closes at `target`, from its first occurrence on the path back to it. -/
def cycleNames (s : FragmentStore) (path : List FragmentKey) (target : FragmentKey) : List String :=
  (path.dropWhile (· ≠ target) ++ [target]).map s.displayName

/-- Expands `includes` in the text `rest`, which begins at byte `start` of its fragment. -/
def expand (s : FragmentStore) (path : List FragmentKey) (start : Nat) (rest : Text) :
    List Include → Except ShaderError Text
  | [] => .ok rest
  | i :: more =>
    if _hp : i.target ∈ path then .error (.cyclicDependency (s.cycleNames path i.target))
    else
      match _hs : s.get? i.target with
      | none => .error (.danglingFragment i.target)
      | some f =>
        match s.expand (path ++ [i.target]) 0 f.text f.includes with
        | .error e => .error e
        | .ok inner =>
          match s.expand path i.offset (rest.splitBytes (i.offset - start)).2 more with
          | .error e => .error e
          | .ok outer => .ok ((rest.splitBytes (i.offset - start)).1 ++ inner ++ outer)
termination_by includes => s.unvisited path + includes.length
decreasing_by
  · have := unvisited_append_lt _hs _hp
    rw [List.length_cons]
    omega
  · exact Nat.lt_succ_self _

/-- The text of a fragment inside the fragments on `path`. -/
def expandFragment (s : FragmentStore) (path : List FragmentKey) (f : Fragment) : Except ShaderError Text :=
  s.expand path 0 f.text f.includes

def assemble (s : FragmentStore) (k : FragmentKey) : Except ShaderError Text :=
  match s.get? k with
  | none => .error (.danglingFragment k)
  | some f => s.expandFragment [k] f

/-- The text of a fragment. `home` is the key of the table entry that it is, if it is one. The entry under its own
name is on its own path; a fragment outside the table is on none, whatever its name is. -/
def assembleFragment (s : FragmentStore) (f : Fragment) (home : Option FragmentKey) : Except ShaderError Text :=
  match s.find? f.name with
  | none => s.expandFragment [] f
  | some k => s.expandFragment (if home = some k then [k] else []) f

end ShaderVariant.FragmentStore
