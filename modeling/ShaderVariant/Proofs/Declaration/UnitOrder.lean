import ShaderVariant.Proofs.Declaration.Lines
import ShaderVariant.Declaration.ShaderSource
import ShaderVariant.Proofs.Except

/-!
# Which sampler gets which texture unit

* `SamplerDraft.spareUnits` : the units outside a list, lowest first; the first of them is the free one
  (`head?_spareUnits`), and the others are spare when it is taken (`spareUnits_of_freeUnit?`);
* `SamplerDraft.AtUnits` : every sampler is at the unit that it asks for, and the `k`-th one that asks for none is at
  the `k`-th spare unit; `AtUnits.unit_mem` and `AtUnits.unit_lt` follow;
* `SamplerDraft.assignFrom_eq_ok_iff`, `assignFrom_eq_error_iff` : what is assigned, and who is left without;
* `SamplerDraft.assignFrom_eq_assignBits` : the same by a set of bits, of which the lowest unset one is taken;
* `SamplerDraft.assignUnits_exact` : all of it for the samplers of a file.
-/

namespace ShaderVariant

namespace SamplerDraft

/-! ## Spare units -/

def spareUnits (used : List Nat) : List Nat := (List.range textureUnits).filter fun u => !used.contains u

theorem mem_spareUnits {used : List Nat} {u : Nat} : u ∈ spareUnits used ↔ u < textureUnits ∧ u ∉ used := by
  simp [spareUnits]

theorem pairwise_spareUnits (used : List Nat) : (spareUnits used).Pairwise (· < ·) :=
  List.pairwise_lt_range.filter _

theorem head?_spareUnits (used : List Nat) : (spareUnits used).head? = freeUnit? used := List.head?_filter

theorem spareUnits_of_freeUnit? {used : List Nat} {u : Nat} (h : freeUnit? used = some u) :
    spareUnits used = u :: spareUnits (u :: used) := by
  obtain ⟨rest, hrest⟩ := List.head?_eq_some_iff.1 ((head?_spareUnits used).trans h)
  have hlater : ∀ v ∈ rest, u < v := (List.pairwise_cons.1 (hrest ▸ pairwise_spareUnits used)).1
  have htaken : spareUnits (u :: used) = (spareUnits used).filter (· != u) := by
    unfold spareUnits
    rw [List.filter_filter]
    exact List.filter_congr fun v _ => by simp [bne, beq_eq_decide]
  rw [htaken, hrest, List.filter_cons_of_neg (by simp), List.filter_eq_self.2]
  exact fun v hv => bne_iff_ne.2 (Nat.ne_of_gt (hlater v hv))

theorem spareUnits_of_freeUnit?_eq_none {used : List Nat} (h : freeUnit? used = none) : spareUnits used = [] :=
  List.head?_eq_none_iff.1 ((head?_spareUnits used).trans h)

/-! ## Samplers at units -/

/-- How many of the first `i` samplers ask for no unit. -/
def unplacedBefore (ds : List SamplerDraft) (i : Nat) : Nat := (ds.take i).countP (·.unit.isNone)

/-- The samplers `ds` at units: every one that asks for a unit is there, and the `k`-th one that asks for none is at the
`k`-th unit of `spare`. -/
structure AtUnits (spare : List Nat) (ds : List SamplerDraft) (ss : List Sampler) : Prop where
  length_eq : ss.length = ds.length
  own (i : Nat) (d : SamplerDraft) (u : Nat) : ds[i]? = some d → d.unit = some u → ss[i]? = some (d.withUnit u)
  given (i : Nat) (d : SamplerDraft) : ds[i]? = some d → d.unit = none →
    ∃ u, spare[unplacedBefore ds i]? = some u ∧ ss[i]? = some (d.withUnit u)

namespace AtUnits

variable {spare : List Nat} {d : SamplerDraft} {ds : List SamplerDraft} {ss : List Sampler} {u : Nat}

theorem nil_iff : AtUnits spare [] ss ↔ ss = [] := by
  constructor
  · exact fun h => List.length_eq_zero_iff.1 h.length_eq
  · rintro rfl
    exact ⟨rfl, nofun, nofun⟩

/-- A sampler that asks for a unit stands before others. -/
theorem cons_own_iff (hd : d.unit = some u) :
    AtUnits spare (d :: ds) ss ↔ ∃ ss', AtUnits spare ds ss' ∧ ss = d.withUnit u :: ss' := by
  have hcount (i : Nat) : unplacedBefore (d :: ds) (i + 1) = unplacedBefore ds i :=
    List.countP_cons_of_neg (by simp [hd])
  constructor
  · intro h
    cases ss with
    | nil => cases h.length_eq
    | cons s ss =>
      have hs : s = d.withUnit u := Option.some.inj (h.own 0 d u rfl hd)
      refine ⟨ss, ⟨Nat.succ.inj h.length_eq, fun i => h.own (i + 1), fun i e he hnone => ?_⟩, by rw [hs]⟩
      exact hcount i ▸ h.given (i + 1) e he hnone
  · rintro ⟨ss, h, rfl⟩
    refine ⟨congrArg Nat.succ h.length_eq, fun i e v he hv => ?_, fun i e he hnone => ?_⟩
    · cases i with
      | zero => cases he; cases hd.symm.trans hv; rfl
      | succ i => exact h.own i e v he hv
    · cases i with
      | zero => cases he; cases hd.symm.trans hnone
      | succ i => exact (hcount i).symm ▸ h.given i e he hnone

/-- A sampler that asks for no unit stands before others: it takes the first spare one. -/
theorem cons_given_iff (hd : d.unit = none) :
    AtUnits (u :: spare) (d :: ds) ss ↔ ∃ ss', AtUnits spare ds ss' ∧ ss = d.withUnit u :: ss' := by
  have hcount (i : Nat) : unplacedBefore (d :: ds) (i + 1) = unplacedBefore ds i + 1 :=
    List.countP_cons_of_pos (by simp [hd])
  constructor
  · intro h
    cases ss with
    | nil => cases h.length_eq
    | cons s ss =>
      obtain ⟨v, hv, hs⟩ := h.given 0 d rfl hd
      cases hv
      cases hs
      refine ⟨ss, ⟨Nat.succ.inj h.length_eq, fun i => h.own (i + 1), fun i e he hnone => ?_⟩, rfl⟩
      have := h.given (i + 1) e he hnone
      rwa [hcount i] at this
  · rintro ⟨ss, h, rfl⟩
    refine ⟨congrArg Nat.succ h.length_eq, fun i e v he hv => ?_, fun i e he hnone => ?_⟩
    · cases i with
      | zero => cases he; cases hd.symm.trans hv
      | succ i => exact h.own i e v he hv
    · cases i with
      | zero => cases he; exact ⟨u, rfl, rfl⟩
      | succ i => rw [hcount i]; exact h.given i e he hnone

/-- Without a spare unit no sampler can ask for none. -/
theorem not_cons_nil (hd : d.unit = none) : ¬ AtUnits [] (d :: ds) ss := by
  intro h
  obtain ⟨u, hu, -⟩ := h.given 0 d rfl hd
  cases hu

theorem unit_mem (h : AtUnits spare ds ss) {i : Nat} {s : Sampler} (hd : ds[i]? = some d) (hnone : d.unit = none)
    (hs : ss[i]? = some s) : s.unit ∈ spare := by
  obtain ⟨u, hu, hss⟩ := h.given i d hd hnone
  cases hs.symm.trans hss
  exact List.mem_of_getElem? hu

/-- Of two samplers that ask for no unit the later one is at the higher unit, if the spare units ascend. -/
theorem unit_lt (h : AtUnits spare ds ss) (hspare : spare.Pairwise (· < ·)) {i j : Nat} (hij : i < j)
    {e : SamplerDraft} {s t : Sampler} (hd : ds[i]? = some d) (he : ds[j]? = some e) (hdnone : d.unit = none)
    (henone : e.unit = none) (hs : ss[i]? = some s) (ht : ss[j]? = some t) : s.unit < t.unit := by
  have hbefore : unplacedBefore ds i < unplacedBefore ds j := by
    have hnext : unplacedBefore ds (i + 1) = unplacedBefore ds i + 1 := by
      unfold unplacedBefore
      rw [List.take_add_one, hd, Option.toList_some, List.countP_append, List.countP_singleton,
        if_pos (by simp [hdnone])]
    have hle : unplacedBefore ds (i + 1) ≤ unplacedBefore ds j :=
      (List.take_prefix_take_left hij).sublist.countP_le
    omega
  obtain ⟨u, hu, hss⟩ := h.given i d hd hdnone
  cases hs.symm.trans hss
  obtain ⟨v, hv, hss⟩ := h.given j e he henone
  cases ht.symm.trans hss
  obtain ⟨hi, rfl⟩ := List.getElem?_eq_some_iff.1 hu
  obtain ⟨hj, rfl⟩ := List.getElem?_eq_some_iff.1 hv
  exact List.pairwise_iff_getElem.1 hspare _ _ hi hj hbefore

end AtUnits

/-! ## What is assigned -/

/-- Samplers are at their own units and at the spare ones in order, as far as these go. -/
theorem assignFrom_eq_ok_iff {used : List Nat} {ds : List SamplerDraft} {ss : List Sampler} :
    assignFrom used ds = .ok ss ↔ AtUnits (spareUnits used) ds ss := by
  induction ds generalizing used ss with
  | nil =>
    rw [AtUnits.nil_iff, assignFrom, Except.ok.injEq]
    exact eq_comm
  | cons d ds ih =>
    rw [assignFrom]
    cases hunit : d.unit with
    | some u => simp only [AtUnits.cons_own_iff hunit, map_cons_eq_ok_iff, ih]
    | none =>
      cases hfree : freeUnit? used with
      | none =>
        rw [spareUnits_of_freeUnit?_eq_none hfree]
        exact iff_of_false nofun (AtUnits.not_cons_nil hunit)
      | some u =>
        rw [spareUnits_of_freeUnit? hfree]
        simp only [AtUnits.cons_given_iff hunit, map_cons_eq_ok_iff, ih]

/-- Left without a unit is the first sampler that asks for none behind as many as there are spare units. -/
theorem assignFrom_eq_error_iff {used : List Nat} {ds : List SamplerDraft} {d : SamplerDraft} :
    assignFrom used ds = .error d ↔ (ds.filter (·.unit.isNone))[(spareUnits used).length]? = some d := by
  induction ds generalizing used with
  | nil => exact iff_of_false nofun nofun
  | cons e ds ih =>
    rw [assignFrom]
    cases hunit : e.unit with
    | some u => simp only [map_eq_error_iff, ih, List.filter_cons, hunit, Option.isNone_some, Bool.false_eq_true, if_false]
    | none =>
      rw [List.filter_cons_of_pos (by simp [hunit])]
      cases hfree : freeUnit? used with
      | none => simp [spareUnits_of_freeUnit?_eq_none hfree]
      | some u => simp only [map_eq_error_iff, ih, spareUnits_of_freeUnit? hfree, List.length_cons, List.getElem?_cons_succ]

/-! ## Sets of bits -/

def unitBits (used : List Nat) : Mask := Mask.union (used.map Mask.bit)

theorem isSet_unitBits {used : List Nat} {u : Nat} (h : u < textureUnits) :
    (unitBits used).isSet u = true ↔ u ∈ used := by
  simp [unitBits, Mask.isSet_union, Mask.isSet_bit, show u < 32 from h]

/-- Gives units to the samplers that have none, each the lowest unset bit of the set of used units. -/
def assignBits (used : Mask) : List SamplerDraft → Except SamplerDraft (List Sampler)
  | [] => .ok []
  | d :: ds =>
    match d.unit with
    | some unit => (assignBits used ds).map (d.withUnit unit :: ·)
    | none =>
      if used = Mask.all then .error d
      else (assignBits (used ||| Mask.bit (~~~used).ctz.toNat) ds).map (d.withUnit (~~~used).ctz.toNat :: ·)

/-- The free unit is the lowest unset bit. -/
theorem freeUnit?_eq_ctz (used : List Nat) :
    freeUnit? used = if unitBits used = Mask.all then none else some (~~~unitBits used).ctz.toNat := by
  split
  · next h =>
    refine List.find?_eq_none.2 fun u hu => ?_
    have hset : (unitBits used).isSet u = true := by
      rw [h, Mask.isSet, Mask.all, BitVec.getLsbD_allOnes]
      exact decide_eq_true (List.mem_range.1 hu)
    simpa using (isSet_unitBits (List.mem_range.1 hu)).1 hset
  · next h =>
    have hne : ~~~unitBits used ≠ 0#32 := fun hzero => h (by
      rw [← BitVec.not_not (b := unitBits used), hzero]
      rfl)
    have hfree := BitVec.getLsbD_true_ctz_of_ne_zero hne
    have hlt : (~~~unitBits used).ctz.toNat < textureUnits := BitVec.lt_of_getLsbD hfree
    have hunset (u : Nat) (hu : u < textureUnits) : (~~~unitBits used).getLsbD u = true ↔ u ∉ used := by
      rw [← isSet_unitBits hu, BitVec.getLsbD_not, Mask.isSet]
      simp [show u < 32 from hu]
    refine List.find?_range_eq_some.2 ⟨?_, List.mem_range.2 hlt, fun v hv => ?_⟩
    · simpa using (hunset _ hlt).1 hfree
    · have hset := mt (hunset v (Nat.lt_trans hv hlt)).2 (by simp [BitVec.getLsbD_false_of_lt_ctz hv])
      simpa using hset

theorem unitBits_cons (u : Nat) (used : List Nat) : unitBits (u :: used) = unitBits used ||| Mask.bit u := by
  refine Mask.ext_isSet fun i _ => ?_
  simp only [unitBits, Mask.isSet_or, Mask.isSet_union, List.map_cons, List.any_cons]
  exact Bool.or_comm _ _

/-- A set of bits does as well as a list of units. -/
theorem assignFrom_eq_assignBits (used : List Nat) (ds : List SamplerDraft) :
    assignFrom used ds = assignBits (unitBits used) ds := by
  induction ds generalizing used with
  | nil => rfl
  | cons d ds ih =>
    rw [assignFrom, assignBits]
    cases hunit : d.unit with
    | some u => simp only [ih]
    | none =>
      rw [freeUnit?_eq_ctz]
      split_ifs
      · rfl
      · simp only [ih, unitBits_cons]

/-! ## The samplers of a file -/

/-- The units that are spare when all that are written out are taken, wherever they stand. -/
def unitsLeft (ds : List SamplerDraft) : List Nat := spareUnits (ds.filterMap (·.unit))

theorem mem_unitsLeft {ds : List SamplerDraft} {u : Nat} :
    u ∈ unitsLeft ds ↔ u < textureUnits ∧ ∀ d ∈ ds, d.unit ≠ some u := by
  rw [unitsLeft, mem_spareUnits, List.mem_filterMap]
  simp only [not_exists, not_and]

/-- The units of the samplers `ss` for those of `ds` that ask for none: they ascend, exist, and nobody asks for them. -/
structure Chosen (ds : List SamplerDraft) (ss : List Sampler) : Prop where
  lt (i j : Nat) (d e : SamplerDraft) (s t : Sampler) : i < j → ds[i]? = some d → ds[j]? = some e → d.unit = none →
    e.unit = none → ss[i]? = some s → ss[j]? = some t → s.unit < t.unit
  new (i : Nat) (d : SamplerDraft) (s : Sampler) : ds[i]? = some d → d.unit = none → ss[i]? = some s →
    s.unit < textureUnits ∧ ∀ e ∈ ds, e.unit ≠ some s.unit

theorem AtUnits.chosen {ds : List SamplerDraft} {ss : List Sampler} (h : AtUnits (unitsLeft ds) ds ss) :
    Chosen ds ss where
  lt _ _ _ _ _ _ hij hd he hdnone henone hs ht := h.unit_lt (pairwise_spareUnits _) hij hd he hdnone henone hs ht
  new _ _ _ hd hdnone hs := mem_unitsLeft.1 (h.unit_mem hd hdnone hs)

/-- The fault of a file whose samplers do not all get a unit. -/
theorem ofDeclarations_eq_error_iff {source : String} {r : Declarations} {code : List CodeSection} {e : ParseError} :
    ShaderSource.ofDeclarations source r code = .error e ↔
      ∃ d, assignUnits r.samplers = .error d ∧ e = ⟨source, d.line, .noFreeTextureUnit d.name⟩ := by
  unfold ShaderSource.ofDeclarations
  split
  · next d hd => simp [hd, eq_comm]
  · next ss hss => simp [hss]

/-- Samplers stay at the units that are written out, and the `k`-th of the others comes to the `k`-th unit that is
left; these ascend, exist and are not written out. That fails just if more samplers ask for no unit than units are left,
and then at the first of them without one: the fault names it and the line of the keyword that declares it. A loop over
a set of bits that takes the lowest unset one does the same. -/
theorem assignUnits_exact (ds : List SamplerDraft) :
    assignUnits ds = assignBits (unitBits (ds.filterMap (·.unit))) ds ∧
    ((unitsLeft ds).Pairwise (· < ·) ∧ ∀ u, u ∈ unitsLeft ds ↔ u < textureUnits ∧ ∀ d ∈ ds, d.unit ≠ some u) ∧
    (∀ ss, assignUnits ds = .ok ss ↔ AtUnits (unitsLeft ds) ds ss) ∧ (∀ ss, assignUnits ds = .ok ss → Chosen ds ss) ∧
    (∀ d, assignUnits ds = .error d ↔ (ds.filter (·.unit.isNone))[(unitsLeft ds).length]? = some d) ∧
    ((∃ d, assignUnits ds = .error d) ↔ (unitsLeft ds).length < ds.countP (·.unit.isNone)) ∧
    (∀ source r code e, r.samplers = ds → (ShaderSource.ofDeclarations source r code = .error e ↔
      ∃ d, assignUnits ds = .error d ∧ e = ⟨source, d.line, .noFreeTextureUnit d.name⟩)) ∧
    ∀ sections stream r, Declarations.read sections stream = .ok r → r.samplers = ds →
      ∀ d ∈ ds, Declarations.Opens stream.tokens d := by
  refine ⟨assignFrom_eq_assignBits _ ds, ⟨pairwise_spareUnits _, fun u => mem_unitsLeft⟩,
    fun ss => assignFrom_eq_ok_iff, fun ss hss => ?_, fun d => assignFrom_eq_error_iff, ?_, ?_, ?_⟩
  · exact (assignFrom_eq_ok_iff.1 hss).chosen
  · have hleft := List.getElem?_eq_none_iff (l := ds.filter (·.unit.isNone)) (i := (unitsLeft ds).length)
    rw [List.countP_eq_length_filter, ← Nat.not_le, ← hleft, ← ne_eq, Option.ne_none_iff_exists']
    exact exists_congr fun d => assignFrom_eq_error_iff
  · rintro source r code e rfl
    exact ofDeclarations_eq_error_iff
  · rintro sections stream r hread rfl
    exact Declarations.opens_of_read hread

/-- Units are given in order around those that later samplers ask for. -/
example : (assignUnits [.ofName "a" .tex2D 1, { SamplerDraft.ofName "b" .tex2D 2 with unit := some 1 },
      .ofName "c" .tex2D 3, { SamplerDraft.ofName "d" .tex2D 4 with unit := some 0 }]).map (·.map (·.unit)) =
    .ok [2, 1, 3, 0] := by
  decide +kernel

end SamplerDraft

end ShaderVariant
