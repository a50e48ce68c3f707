import ShaderVariant.Json.Value

/-!
# JSON: records

* `Json.RecordField` : a known field of a record type;
* `Json.readRecord` : an object with known fields in any order, or an array with their values in order;
* `Json.readDocument` : a value with nothing behind it;
* `Json.writeObject`, `Json.writeBool` : an object, one member a line, and a truth value.
-/

namespace ShaderVariant.Json

/-- A known field of a record type: its name, and a reader that gives the change to the record. -/
structure RecordField (ρ : Type) where
  name : String
  read : ReaderOf (ρ → ρ)
  shortens : Shortens read

def RecordField.of {α ρ : Type} (name : String) (read : ReaderOf α) (shortens : Shortens read) (set : α → ρ → ρ) :
    RecordField ρ :=
  ⟨name, read.map set, shortens.map set⟩

variable {ρ : Type}

/-! ## Arrays -/

def readArrayEnd (r : ρ) : ReaderOf ρ := fun t =>
  match skipSpace t with
  | ']' :: t => .ok (r, t)
  | [] => .error .endOfText
  | _ => .error .badSyntax

theorem shortens_readArrayEnd (r : ρ) : Shortens (readArrayEnd r) := by
  intro t a rest h
  simp only [readArrayEnd] at h
  split at h
  · rename_i hs
    cases h
    exact length_lt_of_skipSpace hs
  · cases h
  · cases h

/-- Where the next element of an array starts, or nothing at its end. -/
def elementStart? (first : Bool) (t : Text) : Except Fault (Option Text) :=
  match skipSpace t with
  | [] => .error .endOfText
  | ']' :: _ => .ok none
  | c :: t =>
    if first then .ok (some (c :: t))
    else if c = ',' then
      match skipSpace t with
      | [] => .error .endOfText
      | ']' :: _ => .error .badSyntax
      | t => .ok (some t)
    else .error .badSyntax

theorem length_elementStart_le {first : Bool} {t start : Text} (h : elementStart? first t = .ok (some start)) :
    start.length ≤ t.length := by
  have hle := length_skipSpace_le t
  unfold elementStart? at h
  split at h
  · cases h
  · cases h
  · rename_i c t' _ hs
    rw [hs] at hle
    split at h
    · cases h
      exact hle
    · split at h
      · have hle' := length_skipSpace_le t'
        split at h
        · cases h
        · cases h
        · cases h
          simp only [List.length_cons] at hle
          omega
      · cases h

/-- Reads the values of fields from an array, in order. Fields behind the last value keep theirs. -/
def readElements (first : Bool) (r : ρ) : List (RecordField ρ) → ReaderOf ρ
  | [], t => readArrayEnd r t
  | f :: fs, t =>
    match elementStart? first t with
    | .error e => .error e
    | .ok none => readArrayEnd r t
    | .ok (some t) =>
      match f.read t with
      | .error e => .error e
      | .ok (change, t) => readElements false (change r) fs t

theorem shortens_readElements (first : Bool) (r : ρ) (fs : List (RecordField ρ)) :
    Shortens (readElements first r fs) := by
  induction fs generalizing first r with
  | nil => exact shortens_readArrayEnd r
  | cons f fs ih =>
    intro t a rest h
    simp only [readElements] at h
    split at h
    · cases h
    · exact shortens_readArrayEnd r _ _ _ h
    · rename_i hs
      split at h
      · cases h
      · rename_i hr
        have := length_elementStart_le hs
        have := f.shortens _ _ _ hr
        have := ih _ _ _ _ _ h
        omega

/-! ## Objects -/

/-- Whether a key follows in an object, whose first member is or is not yet read: the text behind its quote, or behind
the object. -/
def keyStart (first : Bool) : ReaderOf Bool := fun t =>
  match skipSpace t with
  | [] => .error .endOfText
  | '\x7d' :: t => .ok (false, t)
  | c :: t =>
    if first then if c = '"' then .ok (true, t) else .error .badSyntax
    else if c = ',' then
      match skipSpace t with
      | [] => .error .endOfText
      | '"' :: t => .ok (true, t)
      | _ => .error .badSyntax
    else .error .badSyntax

theorem shortens_keyStart (first : Bool) : Shortens (keyStart first) := by
  intro t b rest h
  simp only [keyStart] at h
  split at h
  · cases h
  · rename_i hs
    cases h
    exact length_lt_of_skipSpace hs
  · rename_i hs
    have hlt := length_lt_of_skipSpace hs
    split at h
    · split at h
      · cases h
        exact hlt
      · cases h
    · split at h
      · split at h
        · cases h
        · rename_i hs'
          cases h
          exact Nat.lt_trans (length_lt_of_skipSpace hs') hlt
        · cases h
      · cases h

/-- Reads the value behind a key. A known field may come once only; an unknown one is skipped. -/
def readMember (fields : List (RecordField ρ)) (seen : List String) (key : String) : ReaderOf (ρ → ρ) := fun t =>
  match fields.find? (·.name == key) with
  | some f =>
    if key ∈ seen then .error .wrongData
    else match skipColon t with
      | .error e => .error e
      | .ok t => f.read t
  | none =>
    match skipColon t with
    | .error e => .error e
    | .ok t =>
      match skipValue t with
      | .error e => .error e
      | .ok t => .ok (id, t)

theorem shortens_readMember (fields : List (RecordField ρ)) (seen : List String) (key : String) :
    Shortens (readMember fields seen key) := by
  intro t a rest h
  simp only [readMember] at h
  split at h
  · rename_i f _
    split at h
    · cases h
    · split at h
      · cases h
      · rename_i hc
        exact Nat.lt_trans (f.shortens _ _ _ h) (length_skipColon_lt hc)
  · split at h
    · cases h
    · rename_i hc
      split at h
      · cases h
      · rename_i hv
        cases h
        exact Nat.lt_of_le_of_lt (length_skipPieces_le hv) (length_skipColon_lt hc)

/-- Reads the next member of an object: its key and the change it makes, or nothing at the end. -/
def readNextMember (fields : List (RecordField ρ)) (seen : List String) : ReaderOf (Option (String × (ρ → ρ))) :=
  fun t =>
    match keyStart seen.isEmpty t with
    | .error e => .error e
    | .ok (false, t) => .ok (none, t)
    | .ok (true, t) =>
      match readString t with
      | .error e => .error e
      | .ok (key, t) =>
        match readMember fields seen (String.ofList key) t with
        | .error e => .error e
        | .ok (change, t) => .ok (some (String.ofList key, change), t)

theorem shortens_readNextMember (fields : List (RecordField ρ)) (seen : List String) :
    Shortens (readNextMember fields seen) := by
  intro t a rest h
  simp only [readNextMember] at h
  split at h
  · cases h
  · rename_i hs
    cases h
    exact shortens_keyStart _ _ _ _ hs
  · rename_i hs
    split at h
    · cases h
    · rename_i hk
      split at h
      · cases h
      · rename_i hm
        cases h
        exact Nat.lt_trans (shortens_readMember _ _ _ _ _ _ hm)
          (Nat.lt_trans (shortens_readString _ _ _ hk) (shortens_keyStart _ _ _ _ hs))

/-- Reads the members of an object. `seen` are the keys so far. -/
def readMembers (fields : List (RecordField ρ)) (seen : List String) (r : ρ) (t : Text) : Except Fault (ρ × Text) :=
  match _h : readNextMember fields seen t with
  | .error e => .error e
  | .ok (none, rest) => .ok (r, rest)
  | .ok (some (key, change), rest) => readMembers fields (key :: seen) (change r) rest
termination_by t.length
decreasing_by exact shortens_readNextMember _ _ _ _ _ _h

theorem shortens_readMembers (fields : List (RecordField ρ)) (seen : List String) (r : ρ) :
    Shortens (readMembers fields seen r) := by
  intro t a rest h
  fun_induction readMembers fields seen r t with
  | case1 => cases h
  | case2 seen r t rest' hx =>
    cases h
    exact shortens_readNextMember _ _ _ _ _ hx
  | case3 seen r t key change rest' hx ih =>
    exact Nat.lt_trans (ih h) (shortens_readNextMember _ _ _ _ _ hx)

/-! ## Records and documents -/

/-- Reads a record from an object or an array. Fields that are not written keep their values in `r`. -/
def readRecord (fields : List (RecordField ρ)) (r : ρ) : ReaderOf ρ := fun t =>
  match skipSpace t with
  | '[' :: t => readElements true r fields t
  | '\x7b' :: t => readMembers fields [] r t
  | t => .error (wrongType t)

theorem shortens_readRecord (fields : List (RecordField ρ)) (r : ρ) : Shortens (readRecord fields r) := by
  intro t a rest h
  simp only [readRecord] at h
  split at h
  · rename_i hs
    exact Nat.lt_trans (shortens_readElements _ _ _ _ _ _ h) (length_lt_of_skipSpace hs)
  · rename_i hs
    exact Nat.lt_trans (shortens_readMembers _ _ _ _ _ _ h) (length_lt_of_skipSpace hs)
  · cases h

/-- Reads a value with nothing behind it. -/
def readDocument {α : Type} (read : ReaderOf α) (t : Text) : Except Fault α :=
  match read t with
  | .error e => .error e
  | .ok (a, t) => if (skipSpace t).isEmpty then .ok a else .error .badSyntax

/-! ## Writing -/

/-- The members of an object, one a line, `depth` levels deep. -/
def writeMembers (depth : Nat) : List (String × Text) → Text
  | [] => []
  | [(key, value)] => List.replicate (2 * depth) ' ' ++ quote key.toList ++ [':', ' '] ++ value ++ ['\n']
  | (key, value) :: more =>
    List.replicate (2 * depth) ' ' ++ quote key.toList ++ [':', ' '] ++ value ++ [',', '\n'] ++ writeMembers depth more

def writeObject (depth : Nat) (members : List (String × Text)) : Text :=
  ['\x7b', '\n'] ++ writeMembers depth members ++ List.replicate (2 * (depth - 1)) ' ' ++ ['\x7d']

def writeBool (b : Bool) : Text := if b then "true".toList else "false".toList

end ShaderVariant.Json
