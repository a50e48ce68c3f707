import Mathlib.Logic.Relation
import Mathlib.Tactic.Tauto
import ShaderVariant.Fragment.Reach

/-!
# Walks through a fragment table

A walk follows includes. It has pending keys, some of them perhaps many times over, and takes one of them in each turn.

* `FragmentStore.Includes` : a stored fragment includes a key directly;
* `FragmentStore.Turn`, `Turns` : one turn of a walk, whichever pending key it takes, and turns in a row;
* `Turns.le_includes` : a walk ends, since a key adds what it includes only the first time that it is taken;
* `FragmentStore.Follows` : what has been visited or is pending is reached, and what is reached is not lost. A turn keeps
  that (`Follows.turn`), so in the end just what is reached has been visited (`Follows.mem_iff`);
* `mem_closure_iff` : the closure is where such a walk ends.
-/

namespace ShaderVariant.FragmentStore

open Relation (ReflTransGen)

def Includes (s : FragmentStore) (k x : FragmentKey) : Prop := ∃ f, s.get? k = some f ∧ x ∈ f.targets

/-- The keys that a walk has visited, and those that it still has to follow. -/
structure Walk where
  visited : List FragmentKey
  pending : List FragmentKey

/-- One turn of a walk: some pending key is taken. If it is new, it is visited, and what it includes becomes pending. -/
inductive Turn (s : FragmentStore) : Walk → Walk → Prop
  | again {k : FragmentKey} {visited pending rest : List FragmentKey} (hk : pending.Perm (k :: rest)) (hv : k ∈ visited) :
      Turn s ⟨visited, pending⟩ ⟨visited, rest⟩
  | missing {k : FragmentKey} {visited pending rest : List FragmentKey} (hk : pending.Perm (k :: rest))
      (hv : k ∉ visited) (hs : s.get? k = none) : Turn s ⟨visited, pending⟩ ⟨visited ++ [k], rest⟩
  | stored {k : FragmentKey} {visited pending rest : List FragmentKey} {f : Fragment} (hk : pending.Perm (k :: rest))
      (hv : k ∉ visited) (hs : s.get? k = some f) : Turn s ⟨visited, pending⟩ ⟨visited ++ [k], f.targets ++ rest⟩

inductive Turns (s : FragmentStore) : Nat → Walk → Walk → Prop
  | refl (w : Walk) : Turns s 0 w w
  | head {n : Nat} {u v w : Walk} (h : s.Turn u v) (hs : Turns s n v w) : Turns s (n + 1) u w

variable {s : FragmentStore} {keys : List FragmentKey} {u v w : Walk} {n : Nat} {x : FragmentKey}

/-! ## Walks end -/

/-- What is left of a walk: the fragments that are not visited, with their includes, and the pending keys. -/
def left (s : FragmentStore) (w : Walk) : Nat := s.unvisited w.visited + w.pending.length

theorem Turn.left_lt (h : s.Turn v w) : s.left w < s.left v := by
  unfold left
  cases h with
  | again hk hv =>
    have hlen := hk.length_eq
    simp only [List.length_cons] at hlen ⊢
    omega
  | @missing k visited _ _ hk hv hs =>
    have hlen := hk.length_eq
    have hle := unvisited_append_le s visited k
    simp only [List.length_cons] at hlen ⊢
    omega
  | stored hk hv hs =>
    have hlen := hk.length_eq
    have hlt := unvisited_append_lt hs hv
    simp only [List.length_cons, List.length_append, Fragment.targets, List.length_map] at hlen ⊢
    omega

theorem Turns.add_left_le (h : s.Turns n v w) : n + s.left w ≤ s.left v := by
  induction h with
  | refl => omega
  | head hturn _ ih =>
    have := hturn.left_lt
    omega

theorem unvisited_nil (s : FragmentStore) :
    s.unvisited [] = s.size + (s.table.values.flatMap Fragment.targets).length := by
  unfold unvisited size SlotMap.size SlotMap.values
  induction s.table.entries with
  | nil => rfl
  | cons e es ih =>
    rw [unvisitedIn, if_neg List.not_mem_nil, ih]
    simp only [List.length_cons, List.map_cons, List.flatMap_cons, List.length_append, Fragment.targets, List.length_map]
    omega

/-- A walk has no more turns than there are keys to start with, fragments, and includes of these. -/
theorem Turns.le_includes (h : s.Turns n ⟨[], keys⟩ w) :
    n ≤ keys.length + s.size + (s.table.values.flatMap Fragment.targets).length := by
  have hle := h.add_left_le
  simp only [left, unvisited_nil] at hle
  omega

/-! ## What is visited -/

/-- What a walk from some keys has got at. -/
structure Follows (s : FragmentStore) (keys : List FragmentKey) (w : Walk) : Prop where
  reached : ∀ x, x ∈ w.visited ∨ x ∈ w.pending → ∃ k ∈ keys, ReflTransGen s.Includes k x
  started : ∀ x ∈ keys, x ∈ w.visited ∨ x ∈ w.pending
  followed : ∀ k ∈ w.visited, ∀ x, s.Includes k x → x ∈ w.visited ∨ x ∈ w.pending

namespace Follows

theorem start (s : FragmentStore) (keys : List FragmentKey) : s.Follows keys ⟨[], keys⟩ := by
  refine ⟨fun x hx => ?_, fun x hx => .inr hx, fun k hk => absurd hk List.not_mem_nil⟩
  rcases hx with hx | hx
  · exact absurd hx List.not_mem_nil
  · exact ⟨x, hx, .refl⟩

theorem turn (h : s.Follows keys v) (ht : s.Turn v w) : s.Follows keys w := by
  obtain ⟨reached, started, followed⟩ := h
  cases ht with
  | again hk hv =>
    -- Nothing is lost with a key that has been visited.
    have keep : ∀ x, x ∈ _ ∨ x ∈ _ → x ∈ _ ∨ x ∈ _ := fun x hx => by
      rcases hx with hx | hx
      · exact .inl hx
      · rcases List.mem_cons.1 (hk.mem_iff.1 hx) with rfl | hx
        · exact .inl hv
        · exact .inr hx
    refine ⟨fun x hx => reached x ?_, fun x hx => keep x (started x hx), fun k hk x hx => keep x (followed k hk x hx)⟩
    exact hx.imp_right fun hx => hk.mem_iff.2 (List.mem_cons_of_mem _ hx)
  | @missing k visited pending rest hk hv hs =>
    have keep : ∀ x, x ∈ visited ∨ x ∈ pending → x ∈ visited ++ [k] ∨ x ∈ rest := fun x hx => by
      rw [hk.mem_iff, List.mem_cons] at hx
      rw [List.mem_append, List.mem_singleton]
      tauto
    refine ⟨fun x hx => reached x ?_, fun x hx => keep x (started x hx), fun r hr x hx => ?_⟩
    · rw [hk.mem_iff, List.mem_cons]
      rw [List.mem_append, List.mem_singleton] at hx
      tauto
    · rcases List.mem_append.1 hr with hr | hr
      · exact keep x (followed r hr x hx)
      · obtain ⟨f, hf, -⟩ := hx
        rw [List.mem_singleton.1 hr, hs] at hf
        cases hf
  | @stored k visited pending rest f hk hv hs =>
    have keep : ∀ x, x ∈ visited ∨ x ∈ pending → x ∈ visited ++ [k] ∨ x ∈ f.targets ++ rest := fun x hx => by
      rw [hk.mem_iff, List.mem_cons] at hx
      rw [List.mem_append, List.mem_append, List.mem_singleton]
      tauto
    obtain ⟨r, hr, hrk⟩ := reached k (.inr (hk.mem_iff.2 List.mem_cons_self))
    refine ⟨fun x hx => ?_, fun x hx => keep x (started x hx), fun y hy x hx => ?_⟩
    · by_cases hx' : x ∈ f.targets
      · exact ⟨r, hr, hrk.tail ⟨f, hs, hx'⟩⟩
      · refine reached x ?_
        rw [hk.mem_iff, List.mem_cons]
        rw [List.mem_append, List.mem_append, List.mem_singleton] at hx
        tauto
    · rcases List.mem_append.1 hy with hy | hy
      · exact keep x (followed y hy x hx)
      · obtain ⟨g, hg, hx⟩ := hx
        rw [List.mem_singleton.1 hy, hs] at hg
        cases hg
        exact .inr (List.mem_append_left _ hx)

theorem turns (h : s.Follows keys v) (ht : s.Turns n v w) : s.Follows keys w := by
  induction ht with
  | refl => exact h
  | head hturn _ ih => exact ih (h.turn hturn)

/-- When nothing is pending any more, what is reached has been visited. -/
theorem mem_iff {visited : List FragmentKey} (h : s.Follows keys ⟨visited, []⟩) :
    x ∈ visited ↔ ∃ k ∈ keys, ReflTransGen s.Includes k x := by
  constructor
  · intro hx
    exact h.reached x (.inl hx)
  · rintro ⟨k, hk, hx⟩
    induction hx with
    | refl => exact (h.started k hk).resolve_right List.not_mem_nil
    | tail _ hstep ih => exact (h.followed _ ih _ hstep).resolve_right List.not_mem_nil

end Follows

/-! ## The closure -/

/-- The closure takes pending keys from the front until there are none. -/
theorem exists_turns_closureFrom (s : FragmentStore) (visited pending : List FragmentKey) :
    ∃ n, s.Turns n ⟨visited, pending⟩ ⟨s.closureFrom visited pending, []⟩ := by
  fun_induction closureFrom s visited pending with
  | case1 visited => exact ⟨0, .refl _⟩
  | case2 visited k pending hv ih =>
    obtain ⟨n, hn⟩ := ih
    exact ⟨n + 1, .head (.again (.refl _) hv) hn⟩
  | case3 visited k pending hv hs ih =>
    obtain ⟨n, hn⟩ := ih
    exact ⟨n + 1, .head (.missing (.refl _) hv hs) hn⟩
  | case4 visited k pending hv f hs ih =>
    obtain ⟨n, hn⟩ := ih
    exact ⟨n + 1, .head (.stored (.refl _) hv hs) hn⟩

/-- The closure holds what is reached through includes. -/
theorem mem_closure_iff {s : FragmentStore} {keys : List FragmentKey} {x : FragmentKey} :
    x ∈ s.closure keys ↔ ∃ k ∈ keys, ReflTransGen s.Includes k x := by
  obtain ⟨n, hn⟩ := s.exists_turns_closureFrom [] keys
  exact ((Follows.start s keys).turns hn).mem_iff

end ShaderVariant.FragmentStore
