import ShaderVariant.Proofs.Flag.Search

/-!
# Masks of names and names of masks

A mask and a list of names say the same of the declared flags, all 32 of them at most.

* `Vocabulary.isSet_encode_iff`, `isSet_fullMask_iff` : the bits of a mask of names and of the mask of all flags;
* `Vocabulary.encode_eq_iff` : what the mask of a list depends on;
* `Vocabulary.namesIn_encode`, `encode_namesIn` : from names to a mask and back, in both orders;
* `Vocabulary.encodeStrict_eq` : the strict encoding is the other one, or the first unknown name.
-/

namespace ShaderVariant

theorem filterMap_getElem?_range {α : Type} (as : List α) (n : Nat) :
    (List.range n).filterMap (fun i => as[i]?) = as.take n := by
  induction n with
  | zero => rfl
  | succ n ih =>
    rw [List.range_succ, List.filterMap_append, ih, List.take_add_one]
    cases h : as[n]? <;> simp [h]

namespace Vocabulary

variable (v : Vocabulary)

theorem bitOf?_eq_none_iff {name : String} : v.bitOf? name = none ↔ name ∉ v.names := by
  rw [Option.eq_none_iff_forall_ne_some]
  simp only [ne_eq, v.agrees.bitOf?, List.mem_iff_getElem?, not_exists]

/-! ## Bits -/

/-- The bits of a mask of names are the places of the declared names among them. -/
theorem isSet_encode_iff (S : List String) (i : Nat) :
    (v.encode S).isSet i = true ↔ ∃ name ∈ S, v.names[i]? = some name := by
  unfold encode
  rw [Mask.isSet_union_bit, List.mem_filterMap]
  simp only [v.agrees.bitOf?]
  refine and_iff_right_of_imp ?_
  rintro ⟨name, -, hi⟩
  exact Nat.lt_of_lt_of_le (List.getElem?_eq_some_iff.1 hi).1 v.length_names_le

/-- The mask of all flags has a bit for each of them and no other bit, also if there are 32. -/
theorem isSet_fullMask_iff (i : Nat) : v.fullMask.isSet i = true ↔ i < v.names.length := by
  have hle := v.length_names_le
  rw [length_names] at hle ⊢
  unfold fullMask Mask.isSet
  rw [BitVec.getLsbD_ofNat, Nat.one_shiftLeft, Nat.testBit_two_pow_sub_one]
  simp only [Bool.and_eq_true, decide_eq_true_eq]
  omega

/-! ## Masks of names -/

/-- Two lists have the same mask just if the same declared names are in them. -/
theorem encode_eq_iff (S T : List String) :
    v.encode S = v.encode T ↔ ∀ name ∈ v.names, (name ∈ S ↔ name ∈ T) := by
  constructor
  · intro h name hname
    obtain ⟨i, hi⟩ := List.mem_iff_getElem?.1 hname
    -- A list has the name just if the bit of the name is set.
    have hbit (S : List String) : (v.encode S).isSet i = true ↔ name ∈ S := by
      rw [isSet_encode_iff, hi]
      simp
    rw [← hbit S, ← hbit T, h]
  · intro h
    refine Mask.ext_isSet fun i _ => Bool.eq_iff_iff.2 ?_
    rw [isSet_encode_iff, isSet_encode_iff]
    refine exists_congr fun name => ?_
    rw [and_congr_left_iff]
    exact fun hi => h name (List.mem_of_getElem? hi)

theorem namesIn_eq (m : Mask) :
    v.namesIn m = (List.range 32).filterMap fun i => if m.isSet i then v.names[i]? else none := by
  unfold namesIn Mask.setBits
  rw [List.filterMap_filter]
  refine List.filterMap_congr fun i _ => ?_
  rw [nameOf?_eq]

/-- The names in the mask of a list are the declared names in it, in order of declaration. -/
theorem namesIn_encode (S : List String) : v.namesIn (v.encode S) = v.names.filter (· ∈ S) := by
  have hnames : v.names = (List.range 32).filterMap fun i => v.names[i]? := by
    rw [filterMap_getElem?_range, List.take_of_length_le v.length_names_le]
  conv_rhs => rw [hnames]
  rw [namesIn_eq, List.filter_filterMap]
  refine List.filterMap_congr fun i _ => ?_
  have hbit := v.isSet_encode_iff S i
  cases hi : v.names[i]? with
  | none => simp
  | some name =>
    rw [hi] at hbit
    by_cases hS : name ∈ S
    · rw [if_pos (hbit.2 ⟨name, hS, rfl⟩)]
      simp [Option.filter, hS]
    · have hno : ¬ (v.encode S).isSet i = true := fun h => by
        obtain ⟨_, hmem, ⟨⟩⟩ := hbit.1 h
        exact hS hmem
      rw [if_neg hno]
      simp [Option.filter, hS]

/-- The mask of the names in a mask is the part of it that is declared. -/
theorem encode_namesIn (m : Mask) : v.encode (v.namesIn m) = m &&& v.fullMask := by
  refine Mask.ext_isSet fun i hi => Bool.eq_iff_iff.2 ?_
  rw [isSet_encode_iff, Mask.isSet_and, Bool.and_eq_true, isSet_fullMask_iff, namesIn_eq]
  simp only [List.mem_filterMap, List.mem_range]
  constructor
  · rintro ⟨name, ⟨j, -, hj⟩, hname⟩
    split at hj
    · next hset =>
      -- No name is declared twice, so the two places are one.
      obtain ⟨hlt, hnamei⟩ := List.getElem?_eq_some_iff.1 hname
      obtain rfl : i = j := (List.getElem?_inj hlt v.nodup_names).1 (hname.trans hj.symm)
      exact ⟨hset, hlt⟩
    · cases hj
  · rintro ⟨hset, hlt⟩
    refine ⟨v.names[i], ⟨i, hi, ?_⟩, List.getElem?_eq_getElem hlt⟩
    rw [if_pos hset, List.getElem?_eq_getElem hlt]

/-! ## Strict encoding -/

theorem unknownNames_eq (S : List String) : v.unknownNames S = S.filter (· ∉ v.names) := by
  unfold unknownNames
  refine List.filter_congr fun name _ => ?_
  rw [Bool.eq_iff_iff, Option.isNone_iff_eq_none, bitOf?_eq_none_iff, decide_eq_true_iff]

theorem encode_cons (name : String) (S : List String) :
    v.encode (name :: S) = ((v.bitOf? name).map Mask.bit).getD .empty ||| v.encode S := by
  refine Mask.ext_isSet fun i hi => Bool.eq_iff_iff.2 ?_
  rw [Mask.isSet_or, Bool.or_eq_true, isSet_encode_iff, isSet_encode_iff, List.exists_mem_cons_iff,
    ← v.agrees.bitOf?]
  refine or_congr_left ?_
  cases v.bitOf? name with
  | none => simp
  | some j => simp [Mask.isSet_bit, hi]

/-- The strict encoding adds the mask of a list to the one before, or fails with the first name that is unknown. -/
theorem encodeStrictFrom_eq (m : Mask) (S : List String) :
    v.encodeStrictFrom m S =
      match (v.unknownNames S).head? with
      | none => .ok (m ||| v.encode S)
      | some name => .error name := by
  induction S generalizing m with
  | nil =>
    have hm : m ||| v.encode [] = m := Mask.ext_isSet fun i _ => by simp [encode, Mask.union]
    exact congrArg Except.ok hm.symm
  | cons name S ih =>
    rw [encodeStrictFrom, encode_cons]
    unfold unknownNames
    cases hbit : v.bitOf? name with
    | none => simp [hbit]
    | some i =>
      simp only [ih, Option.map_some, Option.getD_some, ← BitVec.or_assoc]
      rw [List.filter_cons_of_neg (by simp [hbit])]
      rfl

theorem encodeStrict_eq (S : List String) :
    v.encodeStrict S =
      match (v.unknownNames S).head? with
      | none => .ok (v.encode S)
      | some name => .error name := by
  unfold encodeStrict
  rw [encodeStrictFrom_eq]
  have hempty : Mask.empty ||| v.encode S = v.encode S := Mask.ext_isSet fun i _ => by simp
  rw [hempty]

end Vocabulary

end ShaderVariant
