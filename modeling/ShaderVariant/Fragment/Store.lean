import ShaderVariant.Fragment.Basic
import ShaderVariant.Table.Assoc

/-!
# The fragment table

Shared fragments by key, and their keys by name.

* `FragmentStore.insert` : adds a fragment, or gives the fragment of the same name new content;
* `FragmentStore.get?`, `find?` : look-up by key and by name;
* `FragmentStore.remove`, `replaceContent` : removal and change;
* `FragmentStore.includersOf` : the fragments that include a given one directly.
-/

namespace ShaderVariant

/-- Shared fragments, by key and by name. -/
structure FragmentStore where
  table : SlotMap Fragment
  names : Assoc String FragmentKey

namespace FragmentStore

def empty : FragmentStore := ⟨.empty, []⟩

instance : Inhabited FragmentStore := ⟨empty⟩

def get? (s : FragmentStore) (k : FragmentKey) : Option Fragment := s.table.get? k

def find? (s : FragmentStore) (name : String) : Option FragmentKey := s.names.get? name

def contains (s : FragmentStore) (k : FragmentKey) : Bool := s.table.contains k

def size (s : FragmentStore) : Nat := s.table.size

def list (s : FragmentStore) : List (FragmentKey × String) := s.table.entries.map fun e => (e.1, e.2.name)

def insertNew (s : FragmentStore) (f : Fragment) : FragmentKey × FragmentStore :=
  let (k, table) := s.table.insert f
  (k, ⟨table, s.names.set f.name k⟩)

/-- Adds a fragment. The fragment that has its name keeps its key and takes over the content. -/
def insert (s : FragmentStore) (f : Fragment) : FragmentKey × FragmentStore :=
  match s.find? f.name with
  | none => s.insertNew f
  | some k => if s.contains k then (k, { s with table := s.table.modify k (·.replacedBy f) }) else s.insertNew f

def remove (s : FragmentStore) (k : FragmentKey) : Option Fragment × FragmentStore :=
  match s.get? k with
  | none => (none, s)
  | some f => (some f, ⟨s.table.remove k, s.names.erase f.name⟩)

def replaceContent (s : FragmentStore) (k : FragmentKey) (f : Fragment) : Except ShaderError FragmentStore :=
  if s.contains k then .ok { s with table := s.table.modify k (·.replacedBy f) } else .error (.danglingFragment k)

/-- The name of a fragment in messages; its key if it is not stored. -/
def displayName (s : FragmentStore) (k : FragmentKey) : String :=
  match s.get? k with
  | some f => f.name
  | none => displayFragmentKey k

/-- The fragments that include a given one directly, in the order of the table. -/
def includersOf (s : FragmentStore) (k : FragmentKey) : List FragmentKey :=
  (s.table.entries.filter (·.2.includesDirectly k)).map (·.1)

/-! ## Visiting -/

/-- What is left to visit among entries: one for each whose key is not in a list, and one for each of its includes. -/
def unvisitedIn (visited : List FragmentKey) : List (FragmentKey × Fragment) → Nat
  | [] => 0
  | e :: es => (if e.1 ∈ visited then 0 else e.2.includes.length + 1) + unvisitedIn visited es

def unvisited (s : FragmentStore) (visited : List FragmentKey) : Nat := unvisitedIn visited s.table.entries

theorem unvisitedIn_append_le (visited : List FragmentKey) (k : FragmentKey) (es : List (FragmentKey × Fragment)) :
    unvisitedIn (visited ++ [k]) es ≤ unvisitedIn visited es := by
  induction es with
  | nil => exact Nat.le_refl _
  | cons e es ih =>
    rw [unvisitedIn, unvisitedIn]
    by_cases hv : e.1 ∈ visited
    · rw [if_pos (List.mem_append_left _ hv), if_pos hv]
      omega
    · rw [if_neg hv]
      split <;> omega

theorem unvisitedIn_append_lt {visited : List FragmentKey} {k : FragmentKey} {f : Fragment} (hv : k ∉ visited)
    (es : List (FragmentKey × Fragment)) (hk : SlotMap.lookup k es = some f) :
    unvisitedIn (visited ++ [k]) es + f.includes.length < unvisitedIn visited es := by
  induction es with
  | nil => cases hk
  | cons e es ih =>
    obtain ⟨key, g⟩ := e
    rw [unvisitedIn, unvisitedIn]
    rw [SlotMap.lookup] at hk
    split at hk
    · next h =>
      cases hk
      subst h
      rw [if_pos (List.mem_append_right _ (List.mem_singleton.2 rfl)), if_neg hv]
      have := unvisitedIn_append_le visited key es
      show 0 + _ + f.includes.length < f.includes.length + 1 + _
      omega
    · next h =>
      have := ih hk
      by_cases hkey : key ∈ visited
      · rw [if_pos (List.mem_append_left _ hkey), if_pos hkey]
        omega
      · rw [if_neg hkey]
        split <;> omega

/-- Visiting more leaves no more unvisited. -/
theorem unvisited_append_le (s : FragmentStore) (visited : List FragmentKey) (k : FragmentKey) :
    s.unvisited (visited ++ [k]) ≤ s.unvisited visited :=
  unvisitedIn_append_le visited k s.table.entries

/-- Visiting a stored fragment for the first time takes it and its includes off. -/
theorem unvisited_append_lt {s : FragmentStore} {visited : List FragmentKey} {k : FragmentKey} {f : Fragment}
    (hk : s.get? k = some f) (hv : k ∉ visited) :
    s.unvisited (visited ++ [k]) + f.includes.length < s.unvisited visited :=
  unvisitedIn_append_lt hv s.table.entries hk

end FragmentStore

end ShaderVariant
