import ShaderVariant.Fragment.Store

/-!
# Reach

What a fragment includes, directly and through other fragments.

* `FragmentStore.closure` : all keys reached from some keys through includes, each once; keys that are not stored are
  reached too, but lead nowhere;
* `FragmentStore.hasDependency`, `dependsOn` : whether a fragment includes a given one;
* `FragmentStore.flagBits` : the bits of all flags that a fragment and what it includes refer to.
-/

namespace ShaderVariant.FragmentStore

/-- The worker of `closure`: `visited` are the keys reached so far, `pending` those still to be followed. -/
def closureFrom (s : FragmentStore) (visited : List FragmentKey) : List FragmentKey → List FragmentKey
  | [] => visited
  | k :: pending =>
    if _hv : k ∈ visited then s.closureFrom visited pending
    else
      match _hs : s.get? k with
      | none => s.closureFrom (visited ++ [k]) pending
      | some f => s.closureFrom (visited ++ [k]) (f.targets ++ pending)
termination_by pending => s.unvisited visited + pending.length
decreasing_by
  · exact Nat.lt_succ_self _
  · exact Nat.add_lt_add_of_le_of_lt (unvisited_append_le s visited k) (Nat.lt_succ_self _)
  · have := unvisited_append_lt _hs _hv
    rw [List.length_append, List.length_cons, Fragment.targets, List.length_map]
    omega

/-- The keys reached from some keys, these included. -/
def closure (s : FragmentStore) (keys : List FragmentKey) : List FragmentKey := s.closureFrom [] keys

def hasDependency (s : FragmentStore) (f : Fragment) (target : FragmentKey) : Bool :=
  (s.closure f.targets).contains target

def dependsOn (s : FragmentStore) (k target : FragmentKey) : Bool :=
  match s.get? k with
  | none => false
  | some f => s.hasDependency f target

/-- The bits of the flags that a fragment and everything it includes refer to. -/
def flagBits (s : FragmentStore) (f : Fragment) (v : Vocabulary) : Mask :=
  v.encode f.flagRefs ||| Mask.union (((s.closure f.targets).filterMap s.get?).map fun g => v.encode g.flagRefs)

end ShaderVariant.FragmentStore
