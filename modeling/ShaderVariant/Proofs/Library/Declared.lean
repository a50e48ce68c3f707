import ShaderVariant.Proofs.Declaration.WellFormed
import ShaderVariant.Proofs.Library.Reachable

/-!
# What the shaders of a library declare

* `Shader.Declared` : the contexts have names of their own, and the flags are identifiers;
* `Library.Lawful` : what a library is like besides: fragments, shaders and names in order, and every shader declared.
  Every reachable library is lawful (`Reachable.lawful`), and every operation keeps that.
-/

namespace ShaderVariant

open Relation (ReflTransGen)

namespace Shader

/-- The contexts of a shader have names of their own, and its flags are identifiers. -/
def Declared (s : Shader) : Prop := Declarations.Sound s.vocabulary (s.contexts.map Context.decl)

variable {s s' : Shader}

theorem declared_failed (name diagnostic : String) : (failed name diagnostic).Declared := Declarations.sound_empty

theorem Declared.frame (h : s.Declared) (hf : Frame s s') : s'.Declared := by
  unfold Declared
  rw [hf.vocabulary, hf.decls]
  exact h

theorem Declared.index_eq (h : s.Declared) {i j : Nat} {c d : Context} (hc : s.contexts[i]? = some c)
    (hd : s.contexts[j]? = some d) (hn : c.name = d.name) : i = j := by
  have hnames : (s.contexts.map Context.name).Nodup := by
    have := h.contexts
    rwa [List.map_map] at this
  have hi : (s.contexts.map Context.name)[i]? = some c.name := by rw [List.getElem?_map, hc, Option.map_some]
  have hj : (s.contexts.map Context.name)[j]? = some c.name := by rw [List.getElem?_map, hd, Option.map_some, hn]
  obtain ⟨hi', he⟩ := List.getElem?_eq_some_iff.1 hi
  obtain ⟨hj', hf⟩ := List.getElem?_eq_some_iff.1 hj
  exact (List.getElem_inj hnames).1 (he.trans hf.symm)

theorem declared_apply (s : Shader) {l : Library} {source : ShaderSource} {sections : List Fragment}
    (h : l.Contents s.name source sections) : (s.apply source sections).Declared := by
  obtain ⟨t, ht⟩ := h.parsed
  have hdecls : (source.contexts.map Context.ofDecl).map Context.decl = source.contexts := by
    rw [List.map_map]
    exact List.map_id _
  unfold Declared
  rw [show (s.apply source sections).contexts.map Context.decl = source.contexts from hdecls]
  exact ShaderSource.sound_of_parse ht

end Shader

theorem Session.Refills.declared {l : Library} {s s' : Shader} (h : Refills l s s') (hs : s.Declared) : s'.Declared := by
  cases h with
  | cleared =>
    have hdecls : (s.contexts.map Context.cleared).map Context.decl = s.contexts.map Context.decl := by
      rw [List.map_map]
      rfl
    unfold Shader.Declared
    rw [hdecls]
    exact hs
  | failed diagnostic => exact ⟨List.nodup_nil, hs.flags⟩
  | applied source sections h => exact s.declared_apply h

def Library.Declared (l : Library) : Prop := ∀ k s, l.shader? k = some s → s.Declared

namespace Session

variable {σ : Type} [ProgramCompiler σ]

theorem Quiet.declared {x y : Session σ} (h : Quiet x y) (hx : x.library.Regular) (hd : x.library.Declared) :
    y.library.Declared := by
  intro k s' hs'
  obtain ⟨s, hs, ⟨rfl, -⟩ | ⟨-, hwork⟩⟩ := h.shader hx hs'
  · exact hd k s' hs
  · exact (hd k s hs).frame hwork.frame

theorem Turn.declared {x y : Session σ} (h : Turn x y) (hx : x.library.Regular) (hd : x.library.Declared) :
    y.library.Declared := by
  intro k s' hs'
  cases h.shader hx hs' with
  | stays hs => exact hd k s' hs
  | stale hs =>
    have hold := hd k _ hs
    exact hold
  | refilled hs _ hr => exact hr.declared (hd k _ hs)
  | registered _ hr =>
    rcases hr with rfl | hr
    · exact Shader.declared_failed _ _
    · exact hr.declared (Shader.declared_failed _ _)

end Session

namespace Library

/-- Every shader of a reachable library has contexts with names of their own, and flags that are identifiers. -/
theorem Reachable.declared {l : Library} (h : l.Reachable) : l.Declared :=
  (h.of_steps (fun _ _ _ _ hs => nomatch hs) (fun hq hx hd => hq.declared hx hd) fun ht hx hd => ht.declared hx hd).2

/-- Fragments and shaders are in order, names stand for the shaders that have them, and all shaders are declared. -/
structure Lawful (l : Library) : Prop where
  regular : l.Regular
  named : l.Named
  declared : l.Declared

theorem Reachable.lawful {l : Library} (h : l.Reachable) : l.Lawful := ⟨h.regular, h.named, h.declared⟩

end Library

namespace Session

variable {σ : Type} [ProgramCompiler σ]

theorem Quiet.lawful {x y : Session σ} (h : Quiet x y) (hx : x.library.Lawful) : y.library.Lawful :=
  ⟨h.regular hx.regular, h.named hx.named, h.declared hx.regular hx.declared⟩

theorem Turn.lawful {x y : Session σ} (h : Turn x y) (hx : x.library.Lawful) : y.library.Lawful :=
  ⟨h.regular hx.regular, h.named hx.named, h.declared hx.regular hx.declared⟩

theorem lawful_of_quiet {x y : Session σ} (h : ReflTransGen Quiet x y) (hx : x.library.Lawful) : y.library.Lawful := by
  induction h with
  | refl => exact hx
  | tail _ hstep ih => exact hstep.lawful ih

theorem Move.lawful {k? : Option ShaderKey} {x y : Session σ} (h : Move k? x y) (hx : x.library.Lawful) :
    y.library.Lawful := by
  cases h with
  | quiet _ h => exact lawful_of_quiet h hx
  | turn hload h hq =>
    exact lawful_of_quiet hq (h.turn.lawful (Quiet.lawful (.load _ hload) hx))

theorem lawful_step {x : Session σ} (hx : x.library.Lawful) (op : Operation) : (x.step op).library.Lawful :=
  (move_step hx.regular op).lawful hx

theorem lawful_run {x : Session σ} (hx : x.library.Lawful) (ops : List Operation) : (x.run ops).library.Lawful := by
  induction ops generalizing x with
  | nil => exact hx
  | cons op ops ih => exact ih (lawful_step hx op)

end Session

end ShaderVariant
