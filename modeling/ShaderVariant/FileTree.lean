import ShaderVariant.Loader

/-!
# File trees

Files below a directory, and reading them by path. A path is walked segment by segment: `.` and an empty segment stay
in a directory, `..` leaves it, and nothing can be walked through a file.

* `Path.fileName?`, `Path.sourceRoot`, `Path.join` : paths as text;
* `FileTree.read` : the bytes at a path, or why there are none;
* `FileTree.loader` : the sources below a directory that the files of the tree can mention.
-/

namespace ShaderVariant

/-! ## Paths -/

namespace Path

/-- The segments between slashes, empty ones among them. -/
def segments (p : Text) : List Text := p.splitWhere (· == '/')

/-- Whether a segment stays where it is. -/
def stays (s : Text) : Bool := s.isEmpty || s == ['.']

def isAbsolute (p : Text) : Bool := p.head? == some '/'

/-- The last segment that is walked, if it is a name. -/
def fileName? (p : Text) : Option Text :=
  match (segments p).reverse.dropWhile stays with
  | [] => none
  | s :: _ => if s == ['.', '.'] then none else some s

def ofSegments (ss : List Text) : Text := (ss.intersperse ['/']).flatten

/-- The path without segments that stay, at its ends. -/
def trimmed (p : Text) : Text := ofSegments (((segments p).dropWhile stays).reverse.dropWhile stays).reverse

/-- The path before the last segment that is walked. -/
def parent (p : Text) : Text :=
  ofSegments ((((segments p).reverse.dropWhile stays).drop 1).dropWhile stays).reverse

/-- The directory that the sources of a shader path are below: the one that a file is in, or the path itself. -/
def sourceRoot (p : Text) (isFile : Bool) : Text := if isFile then parent p else p

/-- A path below a directory; an absolute one stands for itself. -/
def join (dir p : Text) : Text :=
  if isAbsolute p || dir.isEmpty then p
  else if dir.getLast? == some '/' then dir ++ p
  else dir ++ '/' :: p

end Path

/-! ## Trees -/

/-- Files by the names on the way to them. -/
structure FileTree where
  files : List (List Text × Bytes)

/-- Where a walk has led: to a directory of the tree, to a file, or above the tree. -/
inductive Place where
  | directory (names : List Text)
  | file (bytes : Bytes)
  | above
  deriving DecidableEq, Repr

namespace FileTree

/-- The longest name of a file, in bytes. -/
def maxName : Nat := 255

def maxPath : Nat := 4095

def ofFiles (files : List (String × Bytes)) : FileTree :=
  ⟨files.map fun f => ((Path.segments f.1.toList).filter (!Path.stays ·), f.2)⟩

/-- Whether names lead to a directory that files are in. -/
def hasDirectory (t : FileTree) (names : List Text) : Bool :=
  t.files.any fun f => names.isPrefixOf f.1 && names.length < f.1.length

def place? (t : FileTree) (names : List Text) : Option Place :=
  match t.files.find? (·.1 == names) with
  | some f => some (.file f.2)
  | none => if t.hasDirectory names then some (.directory names) else none

def step (t : FileTree) (here : Place) (s : Text) : Except IoError Place :=
  match here with
  | .file _ => .error .notDirectory
  | .above => if Path.stays s || s == ['.', '.'] then .ok .above
    else if maxName < s.byteLength then .error .nameTooLong else .error .notFound
  | .directory names =>
    if Path.stays s then .ok here
    else if s == ['.', '.'] then .ok (if names.isEmpty then .above else .directory names.dropLast)
    else if maxName < s.byteLength then .error .nameTooLong
    else
      match t.place? (names ++ [s]) with
      | none => .error .notFound
      | some p => .ok p

def walk (t : FileTree) (here : Place) : List Text → Except IoError Place
  | [] => .ok here
  | s :: ss =>
    match t.step here s with
    | .error e => .error e
    | .ok here => t.walk here ss

/-- Where a path leads. Nothing outside the tree is known. -/
def locate (t : FileTree) (p : Text) : Except IoError Place :=
  if p.contains '\x00' then .error .zeroInName
  else if maxPath < p.byteLength then .error .nameTooLong
  else if Path.isAbsolute p then t.walk .above (Path.segments p)
  else t.walk (.directory []) (Path.segments p)

def read (t : FileTree) (p : Text) : Except IoError Bytes :=
  match t.locate p with
  | .error e => .error e
  | .ok (.file bytes) => .ok bytes
  | .ok _ => .error .isDirectory

def isFile (t : FileTree) (p : Text) : Bool :=
  match t.read p with
  | .error _ => false
  | .ok _ => true

def sourceRoot (t : FileTree) (p : Text) : Text := Path.sourceRoot p (t.isFile p)

def readBelow (t : FileTree) (root : Text) (name : String) : Except IoError Bytes :=
  t.read (Path.join root name.toList)

/-- A loader of sources below a directory: those with some names, and all that files of the tree include. -/
def loader (t : FileTree) (root : Text) (names : List String) : Loader :=
  .ofReadings ((names ++ t.files.flatMap fun f => includedNames f.2).eraseDups.map fun name =>
    (name, t.readBelow root name))

end FileTree

end ShaderVariant
