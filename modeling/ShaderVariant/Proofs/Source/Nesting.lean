import ShaderVariant.Proofs.Source.Gate

/-!
# Nested conditionals

The conditionals of a text form a tree, which is read off the lines alone: no mask and no open conditional has a part
in it.

* `Nesting.Role.ofLine` : what a line does to the conditionals around it;
* `Nesting.Block`, `Nesting.Branches` : lines whose conditionals are all closed, and the branches of one conditional;
* `Block.eq_of_lines_eq` : lines belong to one tree at most;
* `Block.conditionals` : the conditionals of a tree, each with what separates its branches;
* `Block.rows` : the lines of a tree, each with the tests of the branches around it.
-/

namespace ShaderVariant.Nesting

open Gate (Test Row)

/-! ## Roles of lines -/

inductive Separator where
  | elif
  | otherwise
  deriving DecidableEq, Repr

def Separator.unmatched : Separator → ConditionalFault
  | elif => .unmatchedElif
  | otherwise => .unmatchedElse

/-- What is wrong with a separator that a conditional on a declared flag does not admit. -/
def Separator.refused : Separator → ConditionalFault
  | elif => .elifOnFlag
  | otherwise => .duplicateElse

/-- What a line does to the conditionals around it. -/
inductive Role where
  | plain
  | opening
  | separator (kind : Separator)
  | closing
  deriving DecidableEq, Repr

def Role.ofLine (l : Text) : Role :=
  match Directive.ofLine? l with
  | some (.ifdef _) => opening
  | some (.ifndef _) => opening
  | some .ifExpr => opening
  | some .elifExpr => separator .elif
  | some .elseBranch => separator .otherwise
  | some .endif => closing
  | some (.inclusion _) => plain
  | some .other => plain
  | none => plain

/-- The test for the first branch of the conditional that a line opens, if it is one on a declared flag. -/
def flagTest? (v : Vocabulary) (l : Text) : Option Test :=
  match Directive.ofLine? l with
  | some (.ifdef name) => (Gate.bitOf? v name).map fun bit => ⟨bit, true⟩
  | some (.ifndef name) => (Gate.bitOf? v name).map fun bit => ⟨bit, false⟩
  | _ => none

theorem role_of_flagTest? {v : Vocabulary} {l : Text} (h : (flagTest? v l).isSome = true) :
    Role.ofLine l = .opening := by
  unfold flagTest? at h
  unfold Role.ofLine
  generalize Directive.ofLine? l = d at h ⊢
  match d with
  | some (.ifdef _) | some (.ifndef _) => rfl
  | none | some .ifExpr | some .elifExpr | some .elseBranch | some .endif | some (.inclusion _) | some .other => cases h

/-! ## Trees -/

mutual

/-- Lines whose conditionals are all closed: plain lines and whole conditionals. -/
inductive Block where
  | empty
  | line (l : Text) (plain : Role.ofLine l = .plain) (rest : Block)
  | conditional (opening : Text) (opens : Role.ofLine opening = .opening) (branches : Branches) (closing : Text)
      (closes : Role.ofLine closing = .closing) (rest : Block)

/-- What stands between the opening and the closing line of a conditional: branches with separators between them. -/
inductive Branches where
  | last (body : Block)
  | more (body : Block) (separator : Text) (kind : Separator) (separates : Role.ofLine separator = .separator kind)
      (others : Branches)

end

mutual

def Block.lines : Block → List Text
  | .empty => []
  | .line l _ rest => l :: rest.lines
  | .conditional opening _ branches closing _ rest => opening :: (branches.lines ++ closing :: rest.lines)

def Branches.lines : Branches → List Text
  | .last body => body.lines
  | .more body separator _ _ others => body.lines ++ separator :: others.lines

end

/-- Lines that are balanced: each `#elif`, `#else` and `#endif` belongs to an open conditional, and all are closed. -/
def Balanced (ls : List Text) : Prop := ∃ b : Block, b.lines = ls

def Branches.separators : Branches → List Separator
  | .last _ => []
  | .more _ _ kind _ others => kind :: others.separators

/-- A conditional of a tree: the line that opens it and the separators at its own level. -/
structure Conditional where
  opening : Text
  separators : List Separator
  deriving DecidableEq, Repr

/-- A conditional on a declared flag has at most one `#else` and no `#elif` at its own level. -/
def Conditional.Proper (v : Vocabulary) (c : Conditional) : Prop :=
  (flagTest? v c.opening).isSome = true → Separator.elif ∉ c.separators ∧ c.separators.count .otherwise ≤ 1

mutual

def Block.conditionals : Block → List Conditional
  | .empty => []
  | .line _ _ rest => rest.conditionals
  | .conditional opening _ branches _ _ rest =>
    ⟨opening, branches.separators⟩ :: (branches.conditionals ++ rest.conditionals)

def Branches.conditionals : Branches → List Conditional
  | .last body => body.conditionals
  | .more body _ _ _ others => body.conditionals ++ others.conditionals

end

/-! ## Lines and the branches around them -/

mutual

/-- The lines of a block, each with the tests of the branches on declared flags that hold it: `around` are those around
the block. The lines of a conditional on a declared flag itself have none. -/
def Block.rows (v : Vocabulary) (around : List Test) : Block → List Row
  | .empty => []
  | .line l _ rest => ⟨l, some around⟩ :: rest.rows v around
  | .conditional opening _ branches closing _ rest =>
    let own := if (flagTest? v opening).isSome then none else some around
    ⟨opening, own⟩ :: (branches.rows v (flagTest? v opening) around ++ ⟨closing, own⟩ :: rest.rows v around)

/-- The lines of branches, the first of which is for `test?`; behind a separator the test is for the other value. -/
def Branches.rows (v : Vocabulary) (test? : Option Test) (around : List Test) : Branches → List Row
  | .last body => body.rows v (test?.toList ++ around)
  | .more body separator _ _ others =>
    body.rows v (test?.toList ++ around) ++
      ⟨separator, if test?.isSome then none else some around⟩ :: others.rows v (test?.map Test.negated) around

end

/-! ## One tree -/

/-- Lines that start outside of the block before them: they are none, or separate or end its branch. -/
def StartsOutside : List Text → Prop
  | [] => True
  | l :: _ => Role.ofLine l ≠ .plain ∧ Role.ofLine l ≠ .opening

theorem startsOutside_separator {l : Text} {kind : Separator} (h : Role.ofLine l = .separator kind) (ls : List Text) :
    StartsOutside (l :: ls) := by
  show Role.ofLine l ≠ .plain ∧ Role.ofLine l ≠ .opening
  rw [h]
  exact ⟨Role.noConfusion, Role.noConfusion⟩

theorem startsOutside_closing {l : Text} (h : Role.ofLine l = .closing) (ls : List Text) : StartsOutside (l :: ls) := by
  show Role.ofLine l ≠ .plain ∧ Role.ofLine l ≠ .opening
  rw [h]
  exact ⟨Role.noConfusion, Role.noConfusion⟩

mutual

/-- A block ends where lines start that are outside of it. -/
theorem Block.eq_of_append (b c : Block) {r s : List Text} (hr : StartsOutside r) (hs : StartsOutside s)
    (h : b.lines ++ r = c.lines ++ s) : b = c ∧ r = s := by
  match b, c with
  | .empty, .empty => exact ⟨rfl, h⟩
  | .empty, .line l plain rest =>
    rw [show r = l :: _ from h] at hr
    exact absurd plain hr.1
  | .empty, .conditional opening opens .. =>
    rw [show r = opening :: _ from h] at hr
    exact absurd opens hr.2
  | .line l plain rest, .empty =>
    rw [show s = l :: _ from h.symm] at hs
    exact absurd plain hs.1
  | .conditional opening opens .., .empty =>
    rw [show s = opening :: _ from h.symm] at hs
    exact absurd opens hs.2
  | .line l plain rest, .line l' plain' rest' =>
    obtain ⟨rfl, htail⟩ := List.cons.inj h
    obtain ⟨rfl, rfl⟩ := Block.eq_of_append rest rest' hr hs htail
    exact ⟨rfl, rfl⟩
  | .line l plain rest, .conditional opening opens .. =>
    rw [(List.cons.inj h).1, opens] at plain
    cases plain
  | .conditional opening opens .., .line l plain rest =>
    rw [← (List.cons.inj h).1, opens] at plain
    cases plain
  | .conditional opening opens branches closing closes rest,
    .conditional opening' opens' branches' closing' closes' rest' =>
    obtain ⟨rfl, htail⟩ := List.cons.inj h
    obtain ⟨rfl, hclose⟩ := Branches.eq_of_append branches branches' closes closes' (r := rest.lines ++ r)
      (s := rest'.lines ++ s) (by simpa using htail)
    obtain ⟨rfl, hrest⟩ := List.cons.inj hclose
    obtain ⟨rfl, rfl⟩ := Block.eq_of_append rest rest' hr hs hrest
    exact ⟨rfl, rfl⟩

/-- Branches end at the line that closes their conditional. -/
theorem Branches.eq_of_append (b c : Branches) {l m : Text} {r s : List Text} (hl : Role.ofLine l = .closing)
    (hm : Role.ofLine m = .closing) (h : b.lines ++ l :: r = c.lines ++ m :: s) : b = c ∧ l :: r = m :: s := by
  have hr := startsOutside_closing hl r
  have hs := startsOutside_closing hm s
  match b, c with
  | .last body, .last body' =>
    obtain ⟨hbody, hrest⟩ := Block.eq_of_append body body' hr hs h
    exact ⟨congrArg Branches.last hbody, hrest⟩
  | .last body, .more body' separator kind separates others =>
    rw [Branches.lines, Branches.lines, List.append_assoc] at h
    obtain ⟨-, hrest⟩ := Block.eq_of_append body body' hr (startsOutside_separator separates _) h
    rw [(List.cons.inj hrest).1, separates] at hl
    cases hl
  | .more body separator kind separates others, .last body' =>
    rw [Branches.lines, Branches.lines, List.append_assoc] at h
    obtain ⟨-, hrest⟩ := Block.eq_of_append body body' (startsOutside_separator separates _) hs h
    rw [← (List.cons.inj hrest).1, separates] at hm
    cases hm
  | .more body separator kind separates others, .more body' separator' kind' separates' others' =>
    rw [Branches.lines, Branches.lines, List.append_assoc, List.append_assoc] at h
    obtain ⟨rfl, hrest⟩ := Block.eq_of_append body body' (startsOutside_separator separates _)
      (startsOutside_separator separates' _) h
    obtain ⟨rfl, htail⟩ := List.cons.inj hrest
    obtain rfl : kind = kind' := Role.separator.inj (separates.symm.trans separates')
    obtain ⟨rfl, hclose⟩ := Branches.eq_of_append others others' hl hm htail
    exact ⟨rfl, hclose⟩

end

/-- Lines belong to one tree at most. -/
theorem Block.eq_of_lines_eq {b c : Block} (h : b.lines = c.lines) : b = c :=
  (Block.eq_of_append b c (r := []) (s := []) trivial trivial (by rw [h])).1

/-! ## Building trees from the front -/

def Block.append : Block → Block → Block
  | .empty, c => c
  | .line l plain rest, c => .line l plain (rest.append c)
  | .conditional opening opens branches closing closes rest, c =>
    .conditional opening opens branches closing closes (rest.append c)

@[simp] theorem Block.lines_append (b c : Block) : (b.append c).lines = b.lines ++ c.lines := by
  match b with
  | .empty => rfl
  | .line l plain rest => rw [Block.append, Block.lines, Block.lines, rest.lines_append c, List.cons_append]
  | .conditional opening opens branches closing closes rest =>
    rw [Block.append, Block.lines, Block.lines, rest.lines_append c, List.cons_append, List.append_assoc,
      List.cons_append]

def Branches.append : Branches → Block → Branches
  | .last body, c => .last (body.append c)
  | .more body separator kind separates others, c => .more body separator kind separates (others.append c)

@[simp] theorem Branches.lines_append (b : Branches) (c : Block) : (b.append c).lines = b.lines ++ c.lines := by
  match b with
  | .last body => exact body.lines_append c
  | .more body separator kind separates others =>
    rw [Branches.append, Branches.lines, Branches.lines, others.lines_append c, List.append_assoc, List.cons_append]

@[simp] theorem Branches.separators_append (b : Branches) (c : Block) : (b.append c).separators = b.separators := by
  match b with
  | .last _ => rfl
  | .more _ _ kind _ others => exact congrArg (kind :: ·) (others.separators_append c)

def Branches.separate (l : Text) (k : Separator) (h : Role.ofLine l = .separator k) : Branches → Branches
  | .last body => .more body l k h (.last .empty)
  | .more body separator kind separates others => .more body separator kind separates (others.separate l k h)

@[simp] theorem Branches.lines_separate {l : Text} {k : Separator} (h : Role.ofLine l = .separator k) (b : Branches) :
    (b.separate l k h).lines = b.lines ++ [l] := by
  match b with
  | .last body => rfl
  | .more body separator kind separates others =>
    rw [Branches.separate, Branches.lines, Branches.lines, others.lines_separate h, List.append_assoc,
      List.cons_append]

@[simp] theorem Branches.separators_separate {l : Text} {k : Separator} (h : Role.ofLine l = .separator k)
    (b : Branches) : (b.separate l k h).separators = b.separators ++ [k] := by
  match b with
  | .last _ => rfl
  | .more _ _ kind _ others => exact congrArg (kind :: ·) (others.separators_separate h)

end ShaderVariant.Nesting
