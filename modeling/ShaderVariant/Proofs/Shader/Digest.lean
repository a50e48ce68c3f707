import ShaderVariant.Proofs.Text
import ShaderVariant.Shader.Sources

/-!
# What digests are taken of

A source list is hashed as one text: the label and the source of each stage, each closed by a zero. Sources may hold
zeros themselves, so a source can be read as two.

* `Utf8.encode_injective` : texts with the same bytes are the same;
* `StageSource.Plain` : no label of a later stage stands between zeros in a source; `plain_of_not_mem`;
* `Shader.encodeSources_inj`, `Shader.eq_of_frames` : lists of plain sources with the same bytes are the same;
* `Shader.encodeSources_split` : a source that is not plain has the bytes of two sources.
-/

namespace ShaderVariant

theorem Utf8.encode_injective : Function.Injective encode := by
  intro s t h
  have hbytes : s.utf8Encode = t.utf8Encode := congrArg List.toByteArray h
  have hstrings : String.ofList s = String.ofList t := by
    rw [← String.toByteArray_inj, String.toByteArray_ofList, String.toByteArray_ofList, hbytes]
  exact String.ofList_injective hstrings

theorem Utf8.encode_append (s t : Text) : encode (s ++ t) = encode s ++ encode t := List.flatMap_append

def nul : Char := '\x00'

namespace Stage

theorem nul_not_mem_label (s : Stage) : nul ∉ s.label.toList := by cases s <;> decide

theorem label_injective : Function.Injective label := by
  intro s t h
  cases s <;> cases t <;> first | rfl | exact absurd h (by decide)

def InOrder (stages : List Stage) : Prop := stages.Pairwise fun s t => s.index < t.index

theorem inOrder_of_sublist {stages : List Stage} (h : stages.Sublist all) : InOrder stages :=
  List.Pairwise.sublist h (by unfold all; decide)

end Stage

namespace StageSource

def frame (x : StageSource) : Text := x.stage.label.toList ++ nul :: (x.source ++ [nul])

/-- No label of a later stage stands between zeros in the source, which a zero closes. -/
def Plain (x : StageSource) : Prop :=
  ∀ t : Stage, x.stage.index < t.index → ¬ nul :: t.label.toList ++ [nul] <:+: x.source ++ [nul]

theorem plain_of_not_mem {x : StageSource} (h : nul ∉ x.source) : x.Plain := by
  intro t _ hinfix
  have hcount := hinfix.sublist.count_le nul
  rw [List.count_append, List.count_append, List.count_cons_self, List.count_eq_zero.2 h] at hcount
  simp only [List.count_singleton_self] at hcount
  omega

end StageSource

namespace Shader

open StageSource (frame Plain)

def frames (xs : List StageSource) : Text := xs.flatMap frame

theorem encodeSources_eq (xs : List StageSource) : encodeSources xs = Utf8.encode (frames xs) := by
  have hnul : Utf8.encode [nul] = [0] := by decide
  induction xs with
  | nil => rfl
  | cons x xs ih =>
    have hx : Utf8.encode (frame x) =
        Utf8.encode x.stage.label.toList ++ 0 :: Utf8.encode x.source ++ [0] := by
      rw [frame, ← List.singleton_append, Utf8.encode_append, Utf8.encode_append, Utf8.encode_append, hnul,
        List.append_assoc]
      rfl
    rw [frames, List.flatMap_cons, Utf8.encode_append, ← frames, ← ih, hx]
    rfl

theorem encodeSources_inj {xs ys : List StageSource} : encodeSources xs = encodeSources ys ↔ frames xs = frames ys := by
  rw [encodeSources_eq, encodeSources_eq, Utf8.encode_injective.eq_iff]

theorem frames_cons (x : StageSource) (xs : List StageSource) :
    frames (x :: xs) = x.stage.label.toList ++ nul :: (x.source ++ nul :: frames xs) := by
  simp [frames, frame]

/-- A text up to its first zero and one up to a later zero. -/
theorem isPrefix_of_append_nul {s a u v : Text} (hs : nul ∉ s) (h : s ++ nul :: u = a ++ nul :: v) :
    s ++ [nul] <+: a ++ [nul] := by
  have hfront : s ++ [nul] <+: a ++ nul :: v := ⟨u, by rw [← h, List.append_assoc]; rfl⟩
  have hback : a ++ [nul] <+: a ++ nul :: v := ⟨v, by rw [List.append_assoc]; rfl⟩
  refine List.prefix_of_prefix_length_le hfront hback ?_
  by_contra hlong
  -- Else the zero behind `a` stands inside `s`.
  rw [List.length_append, List.length_append, List.length_singleton, Nat.add_le_add_iff_right, Nat.not_le] at hlong
  have hinside : a ++ [nul] <+: s :=
    List.prefix_of_prefix_length_le hback ⟨nul :: u, h⟩ (by rw [List.length_append]; exact hlong)
  exact hs (hinside.subset (List.mem_append_right _ List.mem_cons_self))

/-- A plain source does not go on where another one, with stages behind it that come later, ends. -/
theorem eq_nil_of_plain {y : StageSource} {s a : Text} {xs ys : List StageSource} (hy : y.Plain)
    (hlater : ∀ z ∈ xs, y.stage.index < z.stage.index) (hsource : y.source = s ++ a)
    (h : nul :: frames xs = a ++ nul :: frames ys) : a = [] := by
  cases a with
  | nil => rfl
  | cons c a =>
    rw [List.cons_append, List.cons.injEq] at h
    obtain ⟨rfl, hframes⟩ := h
    cases xs with
    | nil =>
      have hlength := congrArg List.length hframes
      rw [List.length_append] at hlength
      simp [frames] at hlength
    | cons z zs =>
      rw [frames_cons] at hframes
      obtain ⟨r, hr⟩ := isPrefix_of_append_nul z.stage.nul_not_mem_label hframes
      refine absurd ⟨s, r, ?_⟩ (hy z.stage (hlater z List.mem_cons_self))
      have hclosed := congrArg (s ++ nul :: ·) hr
      simpa [hsource] using hclosed

/-- Lists of plain sources in pipeline order with the same text are the same. -/
theorem eq_of_frames {xs ys : List StageSource} (hxs : Stage.InOrder (xs.map StageSource.stage))
    (hys : Stage.InOrder (ys.map StageSource.stage)) (hx : ∀ x ∈ xs, x.Plain) (hy : ∀ y ∈ ys, y.Plain)
    (h : frames xs = frames ys) : xs = ys := by
  induction xs generalizing ys with
  | nil =>
    cases ys with
    | nil => rfl
    | cons y ys =>
      rw [frames_cons] at h
      simp [frames] at h
  | cons x xs ih =>
    cases ys with
    | nil =>
      rw [frames_cons] at h
      simp [frames] at h
    | cons y ys =>
      obtain ⟨hxlater, hxs⟩ := List.pairwise_cons.1 hxs
      obtain ⟨hylater, hys⟩ := List.pairwise_cons.1 hys
      obtain ⟨hxplain, hx⟩ := List.forall_mem_cons.1 hx
      obtain ⟨hyplain, hy⟩ := List.forall_mem_cons.1 hy
      rw [frames_cons, frames_cons] at h
      obtain ⟨hlabel, hrest⟩ :=
        Text.eq_of_append_cons x.stage.nul_not_mem_label y.stage.nul_not_mem_label h
      have hstage : x.stage = y.stage := Stage.label_injective (String.toList_injective hlabel)
      -- One source is as long as the other, since neither goes on behind it.
      have hsource : x.source = y.source ∧ frames xs = frames ys := by
        rcases List.append_eq_append_iff.1 hrest with ⟨a, ha, hframes⟩ | ⟨a, ha, hframes⟩
        · obtain rfl := eq_nil_of_plain hyplain
            (fun z hz => hstage ▸ hxlater _ (List.mem_map_of_mem hz)) ha hframes
          exact ⟨by rw [ha, List.append_nil], List.tail_eq_of_cons_eq hframes⟩
        · obtain rfl := eq_nil_of_plain hxplain
            (fun z hz => hstage ▸ hylater _ (List.mem_map_of_mem hz)) ha hframes
          exact ⟨by rw [ha, List.append_nil], (List.tail_eq_of_cons_eq hframes).symm⟩
      rw [ih hxs hys hx hy hsource.2]
      exact congrArg (· :: ys) (by cases x; cases y; cases hstage; cases hsource.1; rfl)

/-- A source in which a label stands between zeros has the bytes of two sources. -/
theorem encodeSources_split (before after : List StageSource) (s t : Stage) (a b : Text) :
    encodeSources (before ++ ⟨s, a ++ nul :: t.label.toList ++ nul :: b⟩ :: after) =
      encodeSources (before ++ ⟨s, a⟩ :: ⟨t, b⟩ :: after) := by
  rw [encodeSources_inj]
  simp [frames, frame]

end Shader

end ShaderVariant
