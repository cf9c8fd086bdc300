import FontScaffold.Fault
import FontScaffold.Path

set_option autoImplicit false

namespace FontScaffold

/-- The names that lead to an entry from the root down, as bytes. -/
abbrev Location := List Bytes

inductive Entry where
  | directory
  | file (bytes : Bytes) (mode : Nat)
  deriving Repr, DecidableEq

/-- The entries below the root, the latest first. -/
structure Tree where
  entries : List (Location × Entry)
  deriving Repr, DecidableEq

namespace Tree

def entry? (tree : Tree) (location : Location) : Option Entry :=
  if location = [] then some .directory else tree.entries.lookup location

def isDirectory (tree : Tree) (location : Location) : Bool :=
  tree.entry? location == some .directory

def erase (tree : Tree) (location : Location) : Tree where
  entries := tree.entries.filter fun entry => entry.1 != location

def put (tree : Tree) (location : Location) (entry : Entry) : Tree where
  entries := (location, entry) :: (tree.erase location).entries

/-- Writes into a file that is there; one that is gone stays gone. -/
def write (tree : Tree) (location : Location) (bytes : Bytes) : Tree :=
  match tree.entry? location with
  | some (.file _ mode) => tree.put location (.file bytes mode)
  | _ => tree

def setMode (tree : Tree) (location : Location) (mode : Nat) : Tree :=
  match tree.entry? location with
  | some (.file bytes _) => tree.put location (.file bytes mode)
  | _ => tree

def nameLimit : Nat := 255

def pathLimit : Nat := 4095

/-- The bytes of a name in a path that was checked. -/
def entryName (name : Text) : Bytes :=
  match Utf8.encodeName name with
  | .ok bytes => bytes
  | .error _ => []

/-- The components of a path, dots and double dots among them. -/
def components (path : Text) : List Text :=
  (path.splitOn (.char '/')).filter (· ≠ [])

/-- Refuses what no operation takes as a path. -/
def check (path : Text) : Except Denial Unit :=
  match Utf8.encodeName path with
  | .error fault => .error (.misuse (.unencodable fault))
  | .ok bytes =>
      if path.elem (.char '\x00') then .error (.misuse .nulInPath)
      else if path = [] then .error (.os .missing)
      else if pathLimit < bytes.length then .error (.os .nameTooLong)
      else .ok ()

/-- One component further; the last component needs no more than to be there. -/
def enter (tree : Tree) (location : Location) (component : Text) : Except Denial Location :=
  if !tree.isDirectory location then .error (.os .notDirectory)
  else if component = Path.here then .ok location
  else if component = Path.up then .ok location.dropLast
  else if nameLimit < (entryName component).length then .error (.os .nameTooLong)
  else if (tree.entry? (location ++ [entryName component])).isNone then .error (.os .missing)
  else .ok (location ++ [entryName component])

/-- Where a path starts: at the root or in the working directory. -/
def origin (cwd path : Text) : Location :=
  if Path.isAbsolute path then [] else (Path.steps cwd).map entryName

/-- The location that a path names. A slash at the end asks for a directory. -/
def locate (tree : Tree) (cwd path : Text) : Except Denial Location := do
  check path
  let location ← (components path).foldlM tree.enter (origin cwd path)
  if path.getLast? = some (.char '/') ∧ !tree.isDirectory location then throw (.os .notDirectory)
  return location

/-- Whether a path leads to something; a path that cannot be looked up does not. -/
def pathExists (tree : Tree) (cwd path : Text) : Bool :=
  (tree.locate cwd path).isOk

def pathIsDirectory (tree : Tree) (cwd path : Text) : Bool :=
  match tree.locate cwd path with
  | .ok location => tree.isDirectory location
  | .error _ => false

def read (tree : Tree) (cwd path : Text) : Except Denial Bytes := do
  match tree.entry? (← tree.locate cwd path) with
  | some (.file bytes _) => return bytes
  | some .directory => throw (.os .isDirectory)
  | none => throw (.os .missing)

/-- The directory in which a path names its last component, and that component, if there is one. -/
def locateParent (tree : Tree) (cwd path : Text) : Except Denial (Location × Option Text) := do
  check path
  let names := components path
  let parent ← names.dropLast.foldlM tree.enter (origin cwd path)
  if !tree.isDirectory parent then throw (.os .notDirectory)
  return (parent, names.getLast?)

/-- The last component, if it names an entry and does not merely point to a directory. -/
def properName (name : Option Text) : Option Text :=
  name.filter fun name => name ≠ Path.here ∧ name ≠ Path.up

def temporaryName (base : Text) (n : Nat) : Text :=
  let digits := Text.ofNat n
  .char '.' :: base ++ .char '.' :: List.replicate (8 - digits.length) (.char '0') ++ digits ++
    ".tmp".text

def temporaryAttempts : Nat := 10000

/-- Puts an empty file, which only its owner may use, beside the file that a path names. -/
def createTemporary (tree : Tree) (cwd path : Text) : Except Denial (Location × Tree) := do
  let directory := Path.directory (Path.absolute cwd path)
  let nameOf := temporaryName (Path.fileName path)
  let sample := Path.join directory (nameOf 0)
  let (parent, _) ← tree.locateParent cwd sample
  if nameLimit < (entryName (nameOf 0)).length then throw (.os .nameTooLong)
  let isFree := fun n => (tree.entry? (parent ++ [entryName (nameOf n)])).isNone
  match (List.range temporaryAttempts).find? isFree with
  | none => throw (.os .noFreeName)
  | some n =>
      let location := parent ++ [entryName (nameOf n)]
      return (location, tree.put location (.file [] 0o600))

/-- Moves the file at `source` to where a path points, in place of a file that is there. -/
def rename (tree : Tree) (cwd : Text) (source : Location) (path : Text) : Except Denial Tree := do
  let (parent, last) ← tree.locateParent cwd path
  match properName last with
  | none => throw (.os .busy)
  | some name =>
      let target := parent ++ [entryName name]
      match tree.entry? source with
      | none => throw (.os .missing)
      | some moved =>
          if nameLimit < (entryName name).length then throw (.os .nameTooLong)
          if path.getLast? = some (.char '/') then throw (.os .notDirectory)
          if tree.isDirectory target then throw (.os .isDirectory)
          return (tree.erase source).put target moved

/-- Gives the file at `target` the mode of what a path names. -/
def copyMode (tree : Tree) (cwd path : Text) (target : Location) : Except Denial Tree := do
  let location ← tree.locate cwd path
  if (tree.entry? target).isNone then throw (.os .missing)
  match tree.entry? location with
  | some (.file _ mode) => return tree.setMode target mode
  | _ => return tree

/-- Puts a temporary file in the place of what a path names, with the mode of what was there. -/
def commit (tree : Tree) (cwd : Text) (temporary : Location) (path : Text) :
    Except Denial Tree := do
  let ready ← if tree.pathExists cwd path then tree.copyMode cwd path temporary else .ok tree
  ready.rename cwd temporary path

/-- Writes a text into a temporary file and puts that in the place of what a path names. A text with
a lone surrogate cannot be written. -/
def install (tree : Tree) (cwd : Text) (temporary : Location) (path text : Text) :
    Except Denial Tree :=
  match Utf8.encode text with
  | .error fault => .error (.misuse (.unencodable fault))
  | .ok bytes => (tree.write temporary bytes).commit cwd temporary path

/-- Replaces or creates the file that a path names. Whatever goes wrong, the temporary file goes
away. -/
def replaceFile (tree : Tree) (cwd path text : Text) : Tree × Option Denial :=
  match tree.createTemporary cwd path with
  | .error denial => (tree, some denial)
  | .ok (temporary, opened) =>
      match opened.install cwd temporary path text with
      | .error denial => (opened.erase temporary, some denial)
      | .ok replaced => (replaced, none)

def makeDirectory (tree : Tree) (cwd path : Text) : Except Denial Tree := do
  let (parent, last) ← tree.locateParent cwd path
  match properName last with
  | none => throw (.os .present)
  | some name =>
      if nameLimit < (entryName name).length then throw (.os .nameTooLong)
      if (tree.entry? (parent ++ [entryName name])).isSome then throw (.os .present)
      return tree.put (parent ++ [entryName name]) .directory

/-- A directory to make; one that only repeats the directory above it is left out. -/
structure Level where
  path : Text
  wanted : Bool

/-- What to make for a path, innermost first: the path, and each directory above it up to the first
that is there. -/
def levels (tree : Tree) (cwd path : Text) : List Level :=
  let trimmed := if Path.fileName path = [] then Path.directory path else path
  let above := Path.directory trimmed
  if lacking : above ≠ [] ∧ Path.fileName trimmed ≠ [] ∧ !tree.pathExists cwd above then
    have : above.length < path.length := by
      have shorter := Path.length_directory_lt lacking.2.1
      have short : trimmed.length ≤ path.length := by
        simp only [trimmed]
        split
        · exact Path.length_directory_le path
        · exact Nat.le_refl _
      exact Nat.lt_of_lt_of_le shorter short
    ⟨path, Path.fileName trimmed ≠ Path.here⟩ :: levels tree cwd above
  else [⟨path, true⟩]
termination_by path.length

/-- Makes the levels from the outermost in. A directory that is there already is fine; below the
innermost level, so is anything else that is there. What was made before a refusal stays. -/
def makeLevels (cwd : Text) : List Level → Tree → Tree × Option Denial
  | [], tree => (tree, none)
  | level :: above, tree =>
      let before := makeLevels cwd above tree
      let refused := before.2.filter fun denial =>
        match denial with
        | .os error => error.number ≠ OsError.present.number
        | .misuse _ => true
      match refused with
      | some denial => (before.1, some denial)
      | none =>
          if !level.wanted then (before.1, none)
          else
            match before.1.makeDirectory cwd level.path with
            | .ok made => (made, none)
            | .error (.misuse misuse) => (before.1, some (.misuse misuse))
            | .error denial =>
                if before.1.pathIsDirectory cwd level.path then (before.1, none)
                else (before.1, some denial)

def makeDirectories (tree : Tree) (cwd path : Text) : Tree × Option Denial :=
  makeLevels cwd (tree.levels cwd path) tree

end Tree

end FontScaffold
