import FontScaffold.Chunk

set_option autoImplicit false

namespace FontScaffold

inductive Level where
  | debug
  | info
  | warning
  deriving Repr, DecidableEq

structure LogEntry where
  level : Level
  message : Text
  deriving Repr, DecidableEq

abbrev Log := List LogEntry

/-- What was told, and the overflow that ended it, if one did. -/
structure Report where
  log : Log
  overflow : Option Overflow
  deriving Repr, DecidableEq

namespace Report

/-- One entry for each item, up to the first whose score cannot be shown. -/
def ofScores {α : Type} (score : α → Score) (entry : α → Text → LogEntry) : List α → Report
  | [] => ⟨[], none⟩
  | item :: rest =>
      match (score item).display with
      | .error overflow => ⟨[], some overflow⟩
      | .ok shown =>
          let later := ofScores score entry rest
          { later with log := entry item shown :: later.log }

/-- The report with more entries, unless it has ended. -/
def followedBy (report : Report) (log : Log) : Report :=
  match report.overflow with
  | some _ => report
  | none => { report with log := report.log ++ log }

end Report

/-- A chunk of the new text with its position there. -/
structure NewChunk where
  text : Text
  index : Nat
  deriving Repr, DecidableEq

/-- An old chunk that gave way to a new one. -/
structure Replacement where
  old : Nat
  new : Nat
  score : Rat
  deriving DecidableEq

/-- The outcome of a merge: the final chunks, what replaced what, the positions of the new
chunks that were added, and of those that were dropped beside the new chunk each repeats. -/
structure Merge where
  existing : Text
  chunks : List Text
  replaced : List Replacement
  added : List Nat
  dropped : List (Nat × Nat)

namespace Merge

/-- Each old chunk in turn takes the first free new chunk that matches it. The first part gives the
choice of every old chunk, the second what stays free. -/
def pair (matcher : Matcher) (separator : Text) :
    List Text → List NewChunk → List (Option NewChunk) × List NewChunk
  | [], free => ([], free)
  | old :: rest, free =>
      let fits := fun new : NewChunk => matcher.accepts separator new.text old
      let later := pair matcher separator rest (free.eraseP fits)
      (free.find? fits :: later.1, later.2)

def update (olds : List Text) (choices : List (Option NewChunk)) : List Text :=
  List.zipWith (fun old choice => (choice.map NewChunk.text).getD old) olds choices

def replacements (matcher : Matcher) (separator : Text) (olds : List Text)
    (choices : List (Option NewChunk)) : List Replacement :=
  (List.zip olds choices).zipIdx.filterMap fun slot =>
    slot.1.2.map fun new =>
      ⟨slot.2, new.index, (matcher.score separator new.text slot.1.1).value⟩

/-- The texts that count as present in the updated sequence: each chunk completed, the last one also
as it stands. -/
def present (separator : Text) (updated : List Text) : List Text :=
  Chunk.completeInner separator updated ++
    match updated.getLast? with
    | none => []
    | some last => if last = [] then [] else [Chunk.complete separator last]

/-- What becomes of the new chunks that replaced nothing. -/
structure Leftover where
  added : List NewChunk
  dropped : List (Nat × Nat)

/-- A free chunk is added unless it is empty, present already, or matches a new chunk in `used`;
each added chunk is present for the following ones. -/
def settle (matcher : Matcher) (separator : Text) (used : List NewChunk) :
    List Text → List NewChunk → Leftover
  | _, [] => ⟨[], []⟩
  | known, new :: rest =>
      let key := Chunk.complete separator new.text
      if new.text = [] ∨ key ∈ known then settle matcher separator used known rest
      else
        match used.find? fun other => matcher.accepts separator new.text other.text with
        | some twin =>
            let later := settle matcher separator used known rest
            { later with dropped := (new.index, twin.index) :: later.dropped }
        | none =>
            let later := settle matcher separator used (key :: known) rest
            { later with added := new :: later.added }

/-- The updated sequence with the added chunks as one block. -/
def place (added : List NewChunk) (updated : List Text) : List Text :=
  if added.isEmpty then updated
  else Chunk.insertBeforeLast (added.flatMap NewChunk.text) updated

end Merge

open Merge in
/-- Merges `new` into `existing`. -/
def merge (matcher : Matcher) (separator existing new : Text) : Merge :=
  let olds := Chunk.split separator existing
  let news := (Chunk.split separator new).mapIdx fun index text => ⟨text, index⟩
  let paired := pair matcher separator olds news
  let updated := update olds paired.1
  let used := news.filter fun other => !paired.2.contains other
  let leftover := settle matcher separator used (present separator updated) paired.2
  { existing
    chunks := Chunk.close separator (place leftover.added updated)
    replaced := replacements matcher separator olds paired.1
    added := leftover.added.map NewChunk.index
    dropped := leftover.dropped }

namespace Merge

def content (outcome : Merge) : Text :=
  outcome.chunks.flatten

def changed (outcome : Merge) : Bool :=
  outcome.content != outcome.existing

def report (outcome : Merge) : Report :=
  let replaced := Report.ofScores (fun pair => .fraction pair.score)
    (fun pair shown =>
      ⟨.debug, "[ChunkReconciler] old #".text ++ Text.ofNat pair.old ++
        " superseded by new #".text ++ Text.ofNat pair.new ++
        " (score ".text ++ shown ++ [.char ')']⟩)
    outcome.replaced
  let dropped := outcome.dropped.map fun pair =>
    ⟨.debug, "[ChunkReconciler] new #".text ++ Text.ofNat pair.1 ++
      " dropped as a duplicate of new #".text ++ Text.ofNat pair.2⟩
  let added :=
    if outcome.added.isEmpty then []
    else
      [⟨.debug, "[ChunkReconciler] Inserting ".text ++ Text.ofNat outcome.added.length ++
        " unmatched chunk(s) before the last chunk".text⟩]
  replaced.followedBy (dropped ++ added)

end Merge

/-- The outcome of a pruning: the final chunks, and the position and score of each chunk taken
out. -/
structure Pruning where
  existing : Text
  chunks : List Text
  removed : List (Nat × Score)

/-- Takes out every chunk of `existing` that `probe` matches; where none does, the text keeps even
its repeated chunks. -/
def prune (matcher : Matcher) (separator existing probe : Text) : Pruning :=
  let olds := Chunk.split separator existing
  let removed := olds.zipIdx.filterMap fun old =>
    if matcher.accepts separator probe old.1 then
      some (old.2, matcher.score separator probe old.1)
    else none
  let kept := olds.filter fun old => !matcher.accepts separator probe old
  { existing, removed
    chunks := if removed.isEmpty then kept else Chunk.close separator kept }

namespace Pruning

def content (outcome : Pruning) : Text :=
  outcome.chunks.flatten

def changed (outcome : Pruning) : Bool :=
  outcome.content != outcome.existing

def report (outcome : Pruning) : Report :=
  Report.ofScores Prod.snd
    (fun old shown =>
      ⟨.debug, "[ChunkReconciler] Removing old #".text ++ Text.ofNat old.1 ++
        " (score ".text ++ shown ++ [.char ')']⟩)
    outcome.removed

end Pruning

end FontScaffold
