import ShaderVariant.Library.Inclusion

/-!
# Fragments of a library

* `Library.addFragment`, `Library.loadFragment` : a fragment from a text or through the loader;
* `Library.updateFragment`, `Library.reloadFragment` : new content; the answer is the number of shaders invalidated;
* `Library.removeFragment` : removal of a fragment that nothing includes.

An operation that fails leaves the fragments as they were.
-/

namespace ShaderVariant.Library

def fragment? (l : Library) (k : FragmentKey) : Option Fragment := l.fragments.get? k

/-- Gives a fragment new content, and invalidates the shaders that include it. -/
def replaceFragment (l : Library) (k : FragmentKey) (f : Fragment) : Except ShaderError Nat × Library :=
  match l.fragments.replaceContent k f with
  | .error e => (.error e, l)
  | .ok fragments =>
    match ({ l with fragments } : Library).fragmentChanged k with
    | (count, l) => (.ok count, l)

def updateFragment (l : Library) (k : FragmentKey) (t : Text) : Except ShaderError Nat × Library :=
  match l.fragment? k with
  | none => (.error (.danglingFragment k), l)
  | some old =>
    match l.buildFragment old.name t with
    | (.error e, l) => (.error e, l)
    | (.ok f, l) => l.replaceFragment k f

/-- Adds a fragment. A fragment that has the name is updated. -/
def addFragment (l : Library) (name : String) (t : Text) : Except ShaderError FragmentKey × Library :=
  match l.fragments.find? name with
  | some k =>
    match l.updateFragment k t with
    | (.error e, l) => (.error e, l)
    | (.ok _, l) => (.ok k, l)
  | none =>
    match l.buildFragment name t with
    | (.error e, l) => (.error e, l)
    | (.ok f, l) =>
      match l.fragments.insert f with
      | (k, fragments) => (.ok k, { l with fragments })

def loadNewFragment (l : Library) (name : String) : Except ShaderError FragmentKey × Library :=
  match l.loader.read name with
  | (.error e, loader) => (.error (.io name e), { l with loader })
  | (.ok bytes, loader) =>
    let l := { l with loader }
    match Inclusion.scan name bytes with
    | .error e => (.error e, l)
    | .ok scanned =>
      match (Inclusion.ofLibrary l).register name with
      | (k, s) =>
        match l.resolve name s scanned.includes with
        | (.error e, s) => (.error e, s.rollback l)
        | (.ok targets, s) =>
          match s.fill k (.ofScanned name scanned targets) with
          | .error e => (.error e, s.rollback l)
          | .ok s => (.ok k, s.commit l)

/-- The fragment with a name, read through the loader if it is not in the table. -/
def loadFragment (l : Library) (name : String) : Except ShaderError FragmentKey × Library :=
  match l.fragments.find? name with
  | some k => (.ok k, l)
  | none => l.loadNewFragment name

def reloadFragment (l : Library) (k : FragmentKey) : Except ShaderError Nat × Library :=
  match l.fragment? k with
  | none => (.error (.danglingFragment k), l)
  | some old =>
    match l.readSource old.name with
    | (.error e, l) => (.error e, l)
    | (.ok t, l) => l.updateFragment k t

/-- Whether a fragment or a section of a shader includes a fragment directly. -/
def isIncluded (l : Library) (k : FragmentKey) : Bool :=
  !(l.fragments.includersOf k).isEmpty || l.shaders.values.any (·.includesDirectly k)

/-- Removes a fragment that nothing includes. -/
def removeFragment (l : Library) (k : FragmentKey) : Except ShaderError Unit × Library :=
  match l.fragment? k with
  | none => (.error (.danglingFragment k), l)
  | some f =>
    if l.isIncluded k then (.error (.fragmentInUse f.name), l)
    else (.ok (), { l with fragments := (l.fragments.remove k).2 })

end ShaderVariant.Library
