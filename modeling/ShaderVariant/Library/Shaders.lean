import ShaderVariant.Library.Inclusion

/-!
# Shaders of a library

* `Library.loadShader`, `Library.loadShaderText` : a shader through the loader or from a text. A name that is loaded
  keeps its shader; a shader that cannot be loaded is registered with the reason;
* `Library.reloadShader`, `Library.reloadShaderText` : new content. All programs are released, and a shader that was
  ready is compiled again;
* `Library.removeShader` : releases the programs of a shader and forgets it;
* `Library.compileContexts`, `Library.compileAll`, `Library.getCombination`, `Library.program?`,
  `Library.assembleStageSources` : building, and looking up what was built.
-/

namespace ShaderVariant.Library

/-! ## Loading -/

def registerFailed (l : Library) (name : String) (e : ShaderError) : Library :=
  (l.registerShader (.failed name e.message)).2

/-- Gives the shader with a key the content of a text. The shader holds no programs. -/
def refill (l : Library) (k : ShaderKey) (s : Shader) (t : Text) : Except ShaderError ShaderKey × Library :=
  match l.buildShader s.name t with
  | (.error e, l) => (.error e, l.setShader k (s.markFailed e.message))
  | (.ok (source, sections), l) => (.ok k, l.setShader k (s.apply source sections))

/-- Loads a shader from a text under a name that is not registered. -/
def loadNewShader (l : Library) (name : String) (t : Text) : Except ShaderError ShaderKey × Library :=
  match l.buildShader name t with
  | (.error e, l) => (.error e, l.registerFailed name e)
  | (.ok (source, sections), l) =>
    match l.registerShader (.ofSource name source sections) with
    | (k, l) => (.ok k, l)

def registered? (l : Library) (name : String) : Option (ShaderKey × Shader) :=
  (l.findShader? name).bind fun k => (l.shader? k).map (k, ·)

/-- Loads a shader from a text. A shader that could not be loaded before takes the text. -/
def loadShaderText (l : Library) (name : String) (t : Text) : Except ShaderError ShaderKey × Library :=
  match l.registered? name with
  | none => l.loadNewShader name t
  | some (k, s) => if s.isLoaded then (.ok k, l) else l.refill k s t

/-- Loads a shader through the loader. A shader that could not be loaded before is read again. -/
def loadShader (l : Library) (name : String) : Except ShaderError ShaderKey × Library :=
  match l.registered? name with
  | none =>
    match l.readSource name with
    | (.error e, l) => (.error e, l.registerFailed name e)
    | (.ok t, l) => l.loadNewShader name t
  | some (k, s) =>
    if s.isLoaded then (.ok k, l)
    else
      match l.readSource name with
      | (.error e, l) => (.error e, l.setShader k (s.markFailed e.message))
      | (.ok t, l) => l.refill k s t

/-! ## Reloading and removing -/

variable {σ : Type} [ProgramCompiler σ]

def reloadShaderText (l : Library) (k : ShaderKey) (t : Text) (c : σ) : Except ShaderError BuildReport × Library × σ :=
  match l.shader? k with
  | none => (.error (noShader k), l, c)
  | some s =>
    match l.buildShader s.name t, s.release c with
    | (.error e, l), (s, c) => (.error e, l.setShader k (s.markFailed e.message), c)
    | (.ok (source, sections), l), (released, c) =>
      let fresh := released.apply source sections
      if s.ready then
        match fresh.compileContexts l.workspace c with
        | (report, fresh, c) => (.ok report, l.setShader k fresh, c)
      else (.ok .empty, l.setShader k fresh, c)

def reloadShader (l : Library) (k : ShaderKey) (c : σ) : Except ShaderError BuildReport × Library × σ :=
  match l.shader? k with
  | none => (.error (noShader k), l, c)
  | some s =>
    match l.readSource s.name with
    | (.error e, l) =>
      match s.release c with
      | (s, c) => (.error e, l.setShader k (s.markFailed e.message), c)
    | (.ok t, l) => l.reloadShaderText k t c

/-- Releases the programs of a shader and forgets it; whether there was one. -/
def removeShader (l : Library) (k : ShaderKey) (c : σ) : Bool × Library × σ :=
  match l.shader? k with
  | none => (false, l, c)
  | some s => (true, { l with shaders := l.shaders.remove k, names := l.names.erase s.name }, (s.release c).2)

/-! ## Requests -/

def encodeFlags (l : Library) (k : ShaderKey) (names : List String) : Except ShaderError Mask :=
  match l.shader? k with
  | none => .error (noShader k)
  | some s => .ok (s.encode names)

def preLoadMask (l : Library) (k : ShaderKey) (m : Mask) : Except ShaderError Unit × Library :=
  match l.shader? k with
  | none => (.error (noShader k), l)
  | some s => (.ok (), l.setShader k (s.preLoadMask m))

/-! ## Building -/

def compileContexts (l : Library) (k : ShaderKey) (c : σ) : Except ShaderError BuildReport × Library × σ :=
  match l.shader? k with
  | none => (.error (noShader k), l, c)
  | some s =>
    match s.compileContexts l.workspace c with
    | (report, s, c) => (.ok report, l.setShader k s, c)

def compileEach (l : Library) : List ShaderKey → σ → BuildReport × Library × σ
  | [], c => (.empty, l, c)
  | k :: ks, c =>
    match l.shader? k with
    | none => l.compileEach ks c
    | some s =>
      if s.isLoaded then
        match s.compileContexts l.workspace c with
        | (report, s, c) =>
          match (l.setShader k s).compileEach ks c with
          | (rest, l, c) => (report ++ rest, l, c)
      else l.compileEach ks c

def compileAll (l : Library) (c : σ) : BuildReport × Library × σ := l.compileEach l.shaders.keys c

def getCombination (l : Library) (k : ShaderKey) (context : String) (m : Mask) (c : σ) :
    Except ShaderError Combination × Library × σ :=
  match l.shader? k with
  | none => (.error (noShader k), l, c)
  | some s =>
    match s.getCombination l.workspace context m c with
    | (r, s, c) => (r, l.setShader k s, c)

/-- The program that a combination still has after it could not be built. -/
def retainedProgram (l : Library) (k : ShaderKey) (context : String) (m : Mask) : Option Program × Library :=
  match l.shader? k with
  | none => (none, l)
  | some s =>
    match s.findContext? context with
    | none => (none, l)
    | some i =>
      match s.combinationKey l.workspace i m with
      | (key, s) => ((s.contexts[i]?.bind (·.combination? key)).bind Combination.program, l.setShader k s)

/-- The program to draw with. After a failed build it is the one of the build before. -/
def program? (l : Library) (k : ShaderKey) (context : String) (m : Mask) (c : σ) : Option Program × Library × σ :=
  match l.getCombination k context m c with
  | (.ok b, l, c) => (b.program, l, c)
  | (.error _, l, c) =>
    match l.retainedProgram k context m with
    | (p, l) => (p, l, c)

def assembleStageSources (l : Library) (k : ShaderKey) (context : String) (m : Mask) :
    Except ShaderError (List StageSource) × Library :=
  match l.shader? k with
  | none => (.error (noShader k), l)
  | some s =>
    match s.findContext? context with
    | none => (.error (s.noContext context), l)
    | some i =>
      match s.assembleStageSources l.workspace i m with
      | (r, s) => (r, l.setShader k s)

end ShaderVariant.Library
