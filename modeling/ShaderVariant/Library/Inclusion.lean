import ShaderVariant.Library.Basic

/-!
# Resolving includes

The includes of a source are resolved to keys of fragments; a name without a fragment is loaded, and what it includes
in turn.

* `Inclusion.resolve` : the keys of the includes of a source, in order;
* `Library.buildFragment`, `Library.buildShader` : the content of a fragment and of a shader with resolved includes.
  When that fails the fragments loaded on the way are removed again.

A fragment is registered before its own includes are resolved. So its name is never read again inside it, and every
level of loading leaves one source less to read: that bounds the depth (`Inclusion.unread`).
-/

namespace ShaderVariant

/-- The state of loading: the fragments, those added so far with the latest first, and the number of readings. -/
structure Inclusion where
  fragments : FragmentStore
  added : List FragmentKey
  reads : Nat

namespace Inclusion

def ofLibrary (l : Library) : Inclusion := ⟨l.fragments, [], l.loader.reads⟩

def noteRead (s : Inclusion) : Inclusion := { s with reads := s.reads + 1 }

def register (s : Inclusion) (name : String) : FragmentKey × Inclusion :=
  let (k, fragments) := s.fragments.insert (.blank name)
  (k, { s with fragments, added := k :: s.added })

def fill (s : Inclusion) (k : FragmentKey) (f : Fragment) : Except ShaderError Inclusion :=
  match s.fragments.replaceContent k f with
  | .error e => .error e
  | .ok fragments => .ok { s with fragments }

def scan (name : String) (bytes : Bytes) : Except ShaderError Scanned :=
  match decodeSource name bytes with
  | .error e => .error (.parse e)
  | .ok t =>
    match Scanned.ofText name t 1 with
    | .error e => .error (.parse e)
    | .ok scanned => .ok scanned

/-- A source includes no more than it has bytes. -/
theorem length_includes_of_scan {name : String} {bytes : Bytes} {scanned : Scanned} (h : scan name bytes = .ok scanned) :
    scanned.includes.length ≤ bytes.length := by
  unfold scan at h
  split at h
  · cases h
  · next t ht =>
    split at h
    · cases h
    · next r hr =>
      cases h
      exact Nat.le_trans (Scanned.length_includes_of_ofText hr) (length_of_decodeSource ht)

/-- What is left to read: one for every source, and one for each of its bytes. -/
def unread : Assoc String Bytes → Nat
  | [] => 0
  | (_, bytes) :: sources => bytes.length + 1 + unread sources

theorem unread_erase_le (sources : Assoc String Bytes) (name : String) : unread (sources.erase name) ≤ unread sources := by
  induction sources with
  | nil => exact Nat.le_refl _
  | cons s sources ih =>
    obtain ⟨key, bytes⟩ := s
    rw [Assoc.erase, unread]
    split
    · omega
    · rw [unread]
      omega

/-- Setting a source aside takes it and its bytes off. -/
theorem unread_erase_lt {sources : Assoc String Bytes} {name : String} {bytes : Bytes}
    (h : sources.get? name = some bytes) : unread (sources.erase name) + bytes.length < unread sources := by
  induction sources with
  | nil => cases h
  | cons s sources ih =>
    obtain ⟨key, bytes'⟩ := s
    rw [Assoc.erase, unread]
    rw [Assoc.get?] at h
    split at h
    · next hk =>
      cases h
      have := unread_erase_le sources name
      rw [if_pos hk]
      omega
    · next hk =>
      have := ih h
      rw [if_neg hk, unread]
      omega

/-- The keys of the includes of the source `owner`. `sources` are those that may still be read, and `fault` says why
another one cannot be; that is a fault of the include line. -/
def resolve (fault : String → IoError) (sources : Assoc String Bytes) (owner : String) (s : Inclusion) :
    List PendingInclude → Except ShaderError (List FragmentKey) × Inclusion
  | [] => (.ok [], s)
  | i :: more =>
    match s.fragments.find? i.name with
    | some k =>
      match resolve fault sources owner s more with
      | (.error e, s) => (.error e, s)
      | (.ok ks, s) => (.ok (k :: ks), s)
    | none =>
      match _h : sources.get? i.name with
      | none => (.error (.parse ⟨owner, i.line, .unresolvedInclude i.name (fault i.name)⟩), s)
      | some bytes =>
        match _hscan : scan i.name bytes with
        | .error e => (.error e, s.noteRead)
        | .ok scanned =>
          match s.noteRead.register i.name with
          | (k, s) =>
            match resolve fault (sources.erase i.name) i.name s scanned.includes with
            | (.error e, s) => (.error e, s)
            | (.ok targets, s) =>
              match s.fill k (.ofScanned i.name scanned targets) with
              | .error e => (.error e, s)
              | .ok s =>
                match resolve fault sources owner s more with
                | (.error e, s) => (.error e, s)
                | (.ok ks, s) => (.ok (k :: ks), s)
termination_by includes => unread sources + includes.length
decreasing_by
  · exact Nat.lt_succ_self _
  · have := unread_erase_lt _h
    have := length_includes_of_scan _hscan
    rw [List.length_cons]
    omega
  · exact Nat.lt_succ_self _

def removeAll (ks : List FragmentKey) (fragments : FragmentStore) : FragmentStore :=
  ks.foldl (fun fragments k => (fragments.remove k).2) fragments

/-- The library in which loading has succeeded. -/
def commit (s : Inclusion) (l : Library) : Library :=
  { l with fragments := s.fragments, loader := { l.loader with reads := s.reads } }

/-- The library in which loading has failed: what was added is removed, the latest first. -/
def rollback (s : Inclusion) (l : Library) : Library :=
  { l with fragments := removeAll s.added s.fragments, loader := { l.loader with reads := s.reads } }

end Inclusion

namespace Library

def resolve (l : Library) (owner : String) (s : Inclusion) (includes : List PendingInclude) :
    Except ShaderError (List FragmentKey) × Inclusion :=
  s.resolve l.loader.fault l.loader.sources owner includes

def buildFragment (l : Library) (name : String) (t : Text) : Except ShaderError Fragment × Library :=
  match Scanned.ofText name t 1 with
  | .error e => (.error (.parse e), l)
  | .ok scanned =>
    match l.resolve name (.ofLibrary l) scanned.includes with
    | (.error e, s) => (.error e, s.rollback l)
    | (.ok targets, s) => (.ok (.ofScanned name scanned targets), s.commit l)

def resolveSections (l : Library) (owner : String) (s : Inclusion) :
    List CodeSection → Except ShaderError (List Fragment) × Inclusion
  | [] => (.ok [], s)
  | c :: cs =>
    match l.resolve owner s c.source.includes with
    | (.error e, s) => (.error e, s)
    | (.ok targets, s) =>
      match resolveSections l owner s cs with
      | (.error e, s) => (.error e, s)
      | (.ok fs, s) => (.ok (.ofScanned c.name c.source targets :: fs), s)

/-- The declarations and the sections of a shader text. -/
def buildShader (l : Library) (name : String) (t : Text) :
    Except ShaderError (ShaderSource × List Fragment) × Library :=
  match ShaderSource.parse name t with
  | .error e => (.error (.parse e), l)
  | .ok source =>
    match l.resolveSections name (.ofLibrary l) source.sections with
    | (.error e, s) => (.error e, s.rollback l)
    | (.ok sections, s) => (.ok (source, sections), s.commit l)

def readSource (l : Library) (name : String) : Except ShaderError Text × Library :=
  match l.loader.read name with
  | (.error e, loader) => (.error (.io name e), { l with loader })
  | (.ok bytes, loader) =>
    match decodeSource name bytes with
    | .error e => (.error (.parse e), { l with loader })
    | .ok t => (.ok t, { l with loader })

end Library

end ShaderVariant
