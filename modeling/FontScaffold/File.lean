import FontScaffold.Workspace

set_option autoImplicit false

namespace FontScaffold.File

def read (settings : Settings) (path operation : Text) : Edit Text := do
  let workspace ← get
  match workspace.tree.read settings.workingDirectory path with
  | .error denial => throw (denial.toFault path operation)
  | .ok bytes =>
      match Utf8.decode bytes with
      | .error fault => throw (.access path operation (some (.undecodable fault)))
      | .ok text => return text

/-- Replaces or creates a file; on a fault the tree is as it was. -/
def write (settings : Settings) (path text operation : Text) : Edit Unit := do
  let workspace ← get
  let (tree, refused) :=
    workspace.tree.replaceFile settings.workingDirectory path text
  Edit.setTree tree
  match refused with
  | some denial => throw (denial.toFault path operation)
  | none =>
      Edit.debug ("[FileIO] Wrote ".text ++ Text.ofNat text.length ++ " chars to ".text ++ path)

/-- Merges `content` into a file; tells whether the file changed. -/
def mergeChunks (settings : Settings) (matcher : Matcher) (separator path content : Text) :
    Edit Bool := do
  let existing ← read settings path "read for reconciliation".text
  let outcome := merge matcher separator existing content
  Edit.tellReport outcome.report
  if outcome.changed then
    write settings path outcome.content "write reconciled content to".text
    Edit.info ("[ChunkReconciler] Updated ".text ++ path ++ ": ".text ++
      Text.ofNat outcome.replaced.length ++ " replaced, ".text ++
      Text.ofNat outcome.added.length ++ " appended".text)
    return true
  else
    Edit.debug ("[ChunkReconciler] ".text ++ path ++ " already up to date".text)
    return false

/-- Removes the chunks of a file that `probe` matches; tells whether the file changed. -/
def pruneChunks (settings : Settings) (matcher : Matcher) (separator path probe : Text) :
    Edit Bool := do
  let existing ← read settings path "read for chunk removal".text
  let outcome := prune matcher separator existing probe
  Edit.tellReport outcome.report
  if outcome.changed then
    write settings path outcome.content "write trimmed content to".text
    Edit.info ("[ChunkReconciler] Removed ".text ++ Text.ofNat outcome.removed.length ++
      " chunk(s) from ".text ++ path)
    return true
  else return false

end FontScaffold.File

namespace FontScaffold.Config

/-- The families in a value: none for what counts as false, else an array of strings. -/
def namesOf? (value : Option Json.Value) : Option (List Text) :=
  match value.filter Json.Value.holds with
  | none => some []
  | some (.array items) => items.mapM Json.Value.text?
  | some _ => none

/-- The config that a file's content stands for. A blank file is like an empty object. -/
def ofContent (path content : Text) : Except Fault Config :=
  let parsed := if Text.isVisible content then Json.parse content else .ok (.object [])
  match parsed with
  | .error (.malformed failure) => .error (.config path (.malformed failure content))
  | .error (.excess excess) => .error (.excess excess)
  | .ok (.object members) =>
      match namesOf? (Json.Value.member? "fonts".text members) with
      | none => .error (.config path .fontsNotNames)
      | some fonts =>
          .ok {
            path, fonts
            isSetUp :=
              ((Json.Value.member? "reachedSuccess".text members).map Json.Value.holds).getD false }
  | .ok _ => .error (.config path .notAnObject)

def load (settings : Settings) (path : Text) : Edit Config := do
  let path := if path = [] then settings.configFile else path
  let workspace ← get
  if workspace.tree.pathExists settings.workingDirectory path then
    let content ← File.read settings path "read config".text
    match ofContent path content with
    | .error fault => throw fault
    | .ok config => return config
  else
    Edit.debug ("No config at ".text ++ path ++ ", starting fresh".text)
    return { path }

def save (settings : Settings) (config : Config) : Edit Unit :=
  File.write settings config.path config.render "write config".text

def saveCurrent (settings : Settings) : Edit Unit := do
  save settings (← get).config

end FontScaffold.Config

namespace FontScaffold

/-- What is known of a line when it is judged: the lines before it, oldest first, as many as are
kept, its number from one, and itself. -/
structure Sighting where
  previous : List Text
  number : Nat
  line : Text
  deriving Repr, DecidableEq

namespace Sighting

def importWord : Text :=
  "import".text

/-- A blank line, not the first, right after a line with an import. -/
def endsImports (sighting : Sighting) : Bool :=
  1 < sighting.number && !Text.isVisible sighting.line &&
    match sighting.previous.getLast? with
    | some line => Text.occursIn importWord line
    | none => false

end Sighting

def window (size : Nat) (lines : List Text) : List Text :=
  lines.drop (lines.length - size)

/-- Judges one line after another. It may remember what it likes, look at the tree, change it, and
fail. -/
structure LinePredicate where
  Memory : Type
  start : Memory
  judge : Sighting → EStateM Cause (Memory × Tree) Bool

/-- A predicate that only looks at the line. -/
def LinePredicate.ofBool (holds : Sighting → Bool) : LinePredicate where
  Memory := Unit
  start := ()
  judge := fun sighting => pure (holds sighting)

namespace Insertion

def pieceSize : Nat := 8192

def pieces (bytes : Bytes) : List Bytes :=
  let count := (bytes.length + pieceSize - 1) / pieceSize
  (List.range count).map fun index => (bytes.drop (index * pieceSize)).take pieceSize

/-- The lines of a file as they come in while its pieces are read, and the fault that ends them. The
bytes of a character and the text of a line that break off are carried over to the next piece; a
piece with a fault gives no line, and the offset of the fault counts from the first byte carried
over. -/
def readLines (carried : Bytes) (begun : Text) : List Bytes → List Text × Option Utf8.Fault
  | [] =>
      match Utf8.decode carried with
      | .error fault => ([], some fault)
      | .ok text => (Text.lines (begun ++ text), none)
  | piece :: rest =>
      match Utf8.decodePart (carried ++ piece) with
      | .error fault => ([], some fault)
      | .ok (text, carried) =>
          let (ended, begun) := Text.endedLines (begun ++ text)
          let (later, fault) := readLines carried begun rest
          (ended ++ later, fault)

def incoming (bytes : Bytes) : List Text × Option Utf8.Fault :=
  readLines [] [] (pieces bytes)

/-- A pass over the lines: the sightings judged, the text copied, whether the block went in, and the
tree afterwards. -/
structure Pass where
  asked : List Sighting
  copy : Text
  inserted : Except Cause Bool
  tree : Tree

/-- Judges lines until one is accepted; `previous` holds at most `size` of them, and `seen` what the
predicate remembers and the tree. -/
def pass (accepts : LinePredicate) (block : Text) (size : Nat) :
    List Text → Nat → List Text → accepts.Memory × Tree → Pass
  | _, _, [], seen => ⟨[], [], .ok false, seen.2⟩
  | previous, number, line :: rest, seen =>
      let sighting : Sighting := ⟨previous, number, line⟩
      match accepts.judge sighting seen with
      | .error cause left => ⟨[sighting], [], .error cause, left.2⟩
      | .ok true left =>
          match Utf8.encode block with
          | .error fault => ⟨[sighting], [], .error (.misuse (.unencodable fault)), left.2⟩
          | .ok _ => ⟨[sighting], block ++ line ++ rest.flatten, .ok true, left.2⟩
      | .ok false left =>
          let later :=
            pass accepts block size (window size (previous ++ [line])) (number + 1) rest left
          { later with asked := sighting :: later.asked, copy := line ++ later.copy }

/-- The first window size that does not fit into 64 bits with a sign. -/
def windowLimit : Int := 0x8000000000000000

/-- What is wrong with the size of a window, if anything. -/
def windowMisuse? (size : Int) : Option Misuse :=
  if size < -windowLimit ∨ windowLimit ≤ size then some .windowTooLarge
  else if size < 0 then some .negativeWindow
  else none

/-- What an insertion gives: the sightings judged, and whether the block went in. -/
structure Outcome where
  asked : List Sighting
  result : Except Fault Bool

/-- The fault of a pass that failed: a misuse is passed on as it is. -/
def passFault (path : Text) : Cause → Fault
  | .misuse misuse => .misuse misuse
  | cause => .access path "stream lines of".text (some cause)

/-- Inserts `block` before the first accepted line of a file. -/
def run (cwd path block : Text) (accepts : LinePredicate) (windowSize : Int) (tree : Tree) :
    Outcome × Tree :=
  match tree.read cwd path with
  | .error denial => (⟨[], .error (denial.toFault path "open for insertion".text)⟩, tree)
  | .ok bytes =>
      match tree.createTemporary cwd path with
      | .error denial =>
          (⟨[], .error (denial.toFault path "create a temp file for".text)⟩, tree)
      | .ok (temporary, opened) =>
          match windowMisuse? windowSize with
          | some misuse => (⟨[], .error (.misuse misuse)⟩, opened.erase temporary)
          | none =>
            let source := incoming bytes
            let done := pass accepts block windowSize.toNat [] 1 source.1 (accepts.start, opened)
            let discarded := done.tree.erase temporary
            match done.inserted, source.2 with
            | .error cause, _ => (⟨done.asked, .error (passFault path cause)⟩, discarded)
            | .ok _, some fault =>
                (⟨done.asked, .error (passFault path (.undecodable fault))⟩, discarded)
            | .ok false, none => (⟨done.asked, .ok false⟩, discarded)
            | .ok true, none =>
                match done.tree.install cwd temporary path done.copy with
                | .error denial =>
                    (⟨done.asked, .error (denial.toFault path "replace".text)⟩, discarded)
                | .ok replaced => (⟨done.asked, .ok true⟩, replaced)

end Insertion

namespace File

def insertBlock (settings : Settings) (path block : Text) (accepts : LinePredicate)
    (windowSize : Int) : Edit Bool := do
  let workspace ← get
  let (outcome, tree) :=
    Insertion.run settings.workingDirectory path block accepts windowSize workspace.tree
  Edit.setTree tree
  match outcome.result with
  | .ok inserted => return inserted
  | .error fault => throw fault

/-- Inserts `block` after the first group of imports; never at the end of a file. -/
def insertBelowImports (settings : Settings) (path block : Text) : Edit Bool := do
  let inserted ←
    insertBlock settings path block (LinePredicate.ofBool Sighting.endsImports) 1
  if inserted then
    Edit.info ("[AnchorInsert] Inserted ".text ++ Text.ofNat (max (block.count (.char '\n')) 1) ++
      " line(s) into ".text ++ path)
  else
    Edit.warn ("[AnchorInsert] No insertion point in ".text ++ path ++
      ": expected a blank line directly after a line containing ".text ++
      Text.quoted Sighting.importWord ++ ". Add the block manually.".text)
  return inserted

end File

end FontScaffold
