import FontScaffold.Proofs.Tree.Lookup

set_option autoImplicit false

namespace FontScaffold.Tree

variable {tree opened ready replaced : Tree} {cwd path : Text} {temporary : Location}
  {bytes : Bytes} {mode : Nat}

/-- The mode that a file keeps when it is replaced; a new file is for its owner alone. -/
def modeAt (tree : Tree) (location : Location) : Nat :=
  match tree.entry? location with
  | some (.file _ mode) => mode
  | _ => 0o600

/-- The path leads to the new bytes under the old mode, and nothing else has changed. -/
structure Replaced (tree replaced : Tree) (cwd path : Text) (bytes : Bytes) : Prop where
  noDirectory : tree.isDirectory (target cwd path) = false
  others : ∀ place, place ≠ target cwd path → replaced.entry? place = tree.entry? place
  entry : replaced.entry? (target cwd path) = some (.file bytes (tree.modeAt (target cwd path)))
  reads : replaced.read cwd path = .ok bytes

theorem Replaced.directories (done : Replaced tree replaced cwd path bytes) (place : Location)
    (isDirectory : tree.isDirectory place) : replaced.isDirectory place := by
  have other : place ≠ target cwd path := by
    intro same
    subst same
    rw [done.noDirectory] at isDirectory
    cases isDirectory
  unfold Tree.isDirectory
  rw [done.others place other]
  exact isDirectory

theorem Replaced.read_other {otherPath : Text} {content : Bytes}
    (done : Replaced tree replaced cwd path bytes) (before : tree.read cwd otherPath = .ok content)
    (other : target cwd otherPath ≠ target cwd path) :
    replaced.read cwd otherPath = .ok content :=
  read_mono done.directories before (done.others _ other)

theorem Replaced.trans {last : Tree} {newer : Bytes}
    (first : Replaced tree replaced cwd path bytes)
    (second : Replaced replaced last cwd path newer) : Replaced tree last cwd path newer := by
  have kept : replaced.modeAt (target cwd path) = tree.modeAt (target cwd path) := by
    rw [modeAt, first.entry]
  refine ⟨first.noDirectory, fun place other => ?_, ?_, second.reads⟩
  · rw [second.others place other, first.others place other]
  · rw [second.entry, kept]

theorem erase_put_of_fresh {location : Location} (entry : Entry)
    (proper : location ≠ []) (fresh : tree.entry? location = none) :
    (tree.put location entry).erase location = tree := by
  have absent : tree.entries.lookup location = none := by
    rwa [ entry?, if_neg proper] at fresh
  have same : (tree.entries.filter fun entry => entry.1 != location) = tree.entries := by
    rw [List.filter_eq_self]
    intro head member
    have other := List.lookup_eq_none_iff.mp absent head member
    rw [bne_iff_ne] at other ⊢
    exact other.symm
  show Tree.mk (((location, entry) :: tree.entries.filter fun entry => entry.1 != location).filter
    fun entry => entry.1 != location) = tree
  rw [same, List.filter_cons_of_neg (by simp), same]

theorem createTemporary_eq_ok (done : tree.createTemporary cwd path = .ok (temporary, opened)) :
    temporary ≠ [] ∧ tree.entry? temporary = none ∧
      opened = tree.put temporary (.file [] 0o600) := by
  simp only [createTemporary] at done
  rw [bind_eq_ok] at done
  obtain ⟨⟨parent, last⟩, _, done⟩ := done
  simp only at done
  split at done
  · cases done
  · split at done
    · cases done
    · next n found =>
        cases done
        have isFree := List.find?_some found
        exact ⟨by simp, Option.isNone_iff_eq_none.mp isFree, rfl⟩

theorem erase_opened (done : tree.createTemporary cwd path = .ok (temporary, opened)) :
    opened.erase temporary = tree := by
  obtain ⟨proper, fresh, rfl⟩ := createTemporary_eq_ok done
  exact erase_put_of_fresh _ proper fresh

theorem write_opened (done : tree.createTemporary cwd path = .ok (temporary, opened))
    (bytes : Bytes) : opened.write temporary bytes = opened.put temporary (.file bytes 0o600) := by
  obtain ⟨proper, fresh, rfl⟩ := createTemporary_eq_ok done
  rw [Tree.write, entry_put_self proper]

/-- The new file stands ready beside the one it will replace. -/
structure Ready (tree ready : Tree) (temporary : Location) (bytes : Bytes) (mode : Nat) :
    Prop where
  proper : temporary ≠ []
  fresh : tree.entry? temporary = none
  others : ∀ place, place ≠ temporary → ready.entry? place = tree.entry? place
  written : ready.entry? temporary = some (.file bytes mode)

theorem ready_write (done : tree.createTemporary cwd path = .ok (temporary, opened))
    (bytes : Bytes) : Ready tree (opened.write temporary bytes) temporary bytes 0o600 := by
  rw [write_opened done]
  obtain ⟨proper, fresh, rfl⟩ := createTemporary_eq_ok done
  refine ⟨proper, fresh, ?_, entry_put_self proper⟩
  intro place other
  rw [entry_put_of_ne other, entry_put_of_ne other]

theorem Ready.setMode (done : Ready tree ready temporary bytes mode) (given : Nat) :
    Ready tree (ready.setMode temporary given) temporary bytes given := by
  have there := done.written
  refine ⟨done.proper, done.fresh, ?_, ?_⟩
  · intro place other
    simp only [Tree.setMode, there]
    rw [entry_put_of_ne other, done.others place other]
  · simp only [Tree.setMode, there]
    exact entry_put_self done.proper

/-- The mode comes from the file that the path leads to, if it leads to one. -/
theorem Ready.copyMode {copied : Tree} (done : Ready tree ready temporary bytes 0o600)
    (success : ready.copyMode cwd path temporary = .ok copied) :
    Ready tree copied temporary bytes (ready.modeAt (target cwd path)) := by
  rw [Tree.copyMode, bind_eq_ok] at success
  obtain ⟨location, found, success⟩ := success
  rw [target_of_locate found] at success
  simp only [done.written, Option.isNone_some, Bool.false_eq_true, ↓reduceIte] at success
  split at success
  · next old given there =>
    cases success
    have kept : ready.modeAt (target cwd path) = given := by rw [modeAt, there]
    rw [kept]
    exact done.setMode given
  · next other =>
    cases success
    have kept : ready.modeAt (target cwd path) = 0o600 := by
      rw [modeAt]
      split
      · next old given there => exact (other old given there).elim
      · rfl
    rw [kept]
    exact done

theorem Ready.isDirectory_iff (done : Ready tree ready temporary bytes mode) (place : Location) :
    ready.isDirectory place = tree.isDirectory place := by
  by_cases same : place = temporary
  · subst same
    rw [Tree.isDirectory, Tree.isDirectory, done.written, done.fresh]
    rfl
  · rw [Tree.isDirectory, Tree.isDirectory, done.others place same]

theorem Ready.modeAt (done : Ready tree ready temporary bytes 0o600) (place : Location) :
    ready.modeAt place = tree.modeAt place := by
  unfold Tree.modeAt
  by_cases same : place = temporary
  · rw [same, done.written, done.fresh]
  · rw [done.others place same]

theorem eq_append_of_properName {names : List Text} {name : Text}
    (proper : properName names.getLast? = some name) :
    names = names.dropLast ++ [name] ∧ name ≠ Path.here ∧ name ≠ Path.up := by
  unfold properName at proper
  rw [Option.filter_eq_some_iff, decide_eq_true_eq] at proper
  obtain ⟨last, notHere, notUp⟩ := proper
  exact ⟨(List.dropLast_append_getLast? name last).symm, notHere, notUp⟩

/-- The directory that a path leads to is there, and takes a file under the path's last name. -/
structure Goal (tree : Tree) (cwd path : Text) (parent : Location) (name : Text) : Prop where
  checked : check path = .ok ()
  names : components path = (components path).dropLast ++ [name]
  walked : (components path).dropLast.foldlM tree.enter (origin cwd path) = .ok parent
  isDirectory : tree.isDirectory parent
  step : follow parent name = parent ++ [entryName name]
  short : (entryName name).length ≤ nameLimit
  noSlash : path.getLast? ≠ some (.char '/')
  free : tree.isDirectory (parent ++ [entryName name]) = false

theorem Goal.target_eq {parent : Location} {name : Text} (goal : Goal tree cwd path parent name) :
    target cwd path = parent ++ [entryName name] := by
  rw [target, goal.names, List.foldl_append, ← foldlM_enter_eq_follow goal.walked, ← goal.step]
  rfl

theorem Goal.locate {parent : Location} {name : Text} {later : Tree}
    (goal : Goal tree cwd path parent name)
    (directories : ∀ place, tree.isDirectory place → later.isDirectory place)
    (there : (later.entry? (target cwd path)).isSome) :
    later.locate cwd path = .ok (target cwd path) := by
  have parentThere := directories parent goal.isDirectory
  have walked := foldlM_enter_mono directories goal.walked (isSome_of_isDirectory parentThere)
  rw [goal.target_eq] at there ⊢
  refine locate_eq_ok.mpr ⟨goal.checked, ?_, fun ends => (goal.noSlash ends).elim⟩
  rw [goal.names, List.foldlM_append, bind_eq_ok]
  refine ⟨parent, walked, ?_⟩
  rw [List.foldlM_cons, bind_eq_ok]
  exact ⟨parent ++ [entryName name], enter_eq_ok.mpr ⟨parentThere, goal.step.symm,
    Or.inr (Or.inr ⟨goal.short, there⟩)⟩, rfl⟩

/-- What is moved is there, the goal is open, and the move does no more than it says. -/
theorem rename_eq_ok (success : ready.rename cwd temporary path = .ok replaced) :
    ∃ parent name moved, Goal ready cwd path parent name ∧
      ready.entry? temporary = some moved ∧
      replaced = (ready.erase temporary).put (target cwd path) moved := by
  rw [Tree.rename, bind_eq_ok] at success
  obtain ⟨⟨parent, last⟩, found, success⟩ := success
  obtain ⟨checked, walked, isDirectory, rfl⟩ := locateParent_eq_ok.mp found
  simp only at success
  split at success
  · cases success
  next name isName =>
  split at success
  · cases success
  next moved there =>
  split at success
  · cases success
  next short =>
  split at success
  · cases success
  next noSlash =>
  split at success
  · cases success
  next free =>
  cases success
  obtain ⟨names, notHere, notUp⟩ := eq_append_of_properName isName
  have step : follow parent name = parent ++ [entryName name] := by
    rw [follow, if_neg notHere, if_neg notUp]
  have goal : Goal ready cwd path parent name :=
    ⟨checked, names, walked, isDirectory, step, Nat.not_lt.mp short, noSlash,
      Bool.eq_false_iff.mpr free⟩
  exact ⟨parent, name, moved, goal, there, by rw [goal.target_eq]⟩

theorem Ready.entry_moved {goal : Location} (done : Ready tree ready temporary bytes mode)
    {entry : Entry} {place : Location} (other : place ≠ goal) :
    Tree.entry? ((ready.erase temporary).put goal entry) place = tree.entry? place := by
  rw [entry_put_of_ne other]
  by_cases same : place = temporary
  · rw [same, entry_erase_self done.proper, done.fresh]
  · rw [entry_erase_of_ne same, done.others place same]

theorem Ready.rename (done : Ready tree ready temporary bytes mode)
    (kept : mode = tree.modeAt (target cwd path))
    (success : ready.rename cwd temporary path = .ok replaced) :
    Replaced tree replaced cwd path bytes := by
  obtain ⟨parent, name, moved, goal, there, rfl⟩ := rename_eq_ok success
  rw [done.written] at there
  cases there
  have proper : target cwd path ≠ [] := by simp [goal.target_eq]
  have noDirectory : tree.isDirectory (target cwd path) = false := by
    rw [← done.isDirectory_iff, goal.target_eq]
    exact goal.free
  have others : ∀ place, place ≠ target cwd path →
      Tree.entry? ((ready.erase temporary).put (target cwd path) (.file bytes mode)) place =
        tree.entry? place := fun place other => done.entry_moved other
  have directories : ∀ place, ready.isDirectory place →
      ((ready.erase temporary).put (target cwd path) (.file bytes mode)).isDirectory place := by
    intro place isDirectory
    rw [done.isDirectory_iff] at isDirectory
    have other : place ≠ target cwd path := by
      intro same
      subst same
      rw [noDirectory] at isDirectory
      cases isDirectory
    unfold Tree.isDirectory
    rw [others place other]
    exact isDirectory
  have entry := @entry_put_self (ready.erase temporary) (target cwd path) (.file bytes mode) proper
  have located := goal.locate directories (by rw [entry]; rfl)
  exact ⟨noDirectory, others, by rw [entry, kept], read_eq_ok.mpr ⟨located, mode, entry⟩⟩

theorem Ready.commit (done : Ready tree ready temporary bytes 0o600)
    (success : ready.commit cwd temporary path = .ok replaced) :
    Replaced tree replaced cwd path bytes := by
  rw [Tree.commit] at success
  split at success
  · rw [bind_eq_ok] at success
    obtain ⟨moded, copied, success⟩ := success
    exact (done.copyMode copied).rename (done.modeAt _) success
  · next absent =>
    -- Where the path leads nowhere, no file of an own mode is at its goal.
    refine done.rename ?_ success
    obtain ⟨_, _, _, goal, _, _⟩ := rename_eq_ok success
    have none : ready.entry? (target cwd path) = none := by
      rw [← Option.not_isSome_iff_eq_none]
      intro there
      exact absent (pathExists_of_locate (goal.locate (fun _ isDirectory => isDirectory) there))
    rw [← done.modeAt, Tree.modeAt, none]

/-- The file that a path names has given way to one with this text. -/
def Installed (tree replaced : Tree) (cwd path text : Text) : Prop :=
  ∃ bytes, Utf8.encode text = .ok bytes ∧ Replaced tree replaced cwd path bytes

theorem install_eq_ok {text : Text}
    (success : opened.install cwd temporary path text = .ok replaced) :
    ∃ bytes, Utf8.encode text = .ok bytes ∧
      (opened.write temporary bytes).commit cwd temporary path = .ok replaced := by
  unfold install at success
  split at success
  · cases success
  · next bytes encoded => exact ⟨bytes, encoded, success⟩

theorem installed_of_install {text : Text}
    (created : tree.createTemporary cwd path = .ok (temporary, opened))
    (success : opened.install cwd temporary path text = .ok replaced) :
    Installed tree replaced cwd path text := by
  obtain ⟨bytes, encoded, committed⟩ := install_eq_ok success
  exact ⟨bytes, encoded, (ready_write created bytes).commit committed⟩

theorem installed_of_replaceFile {text : Text}
    (success : tree.replaceFile cwd path text = (replaced, none)) :
    Installed tree replaced cwd path text := by
  unfold replaceFile at success
  split at success
  · cases success
  next temporary opened created =>
  split at success
  · cases success
  next installed =>
  cases success
  exact installed_of_install created installed

theorem eq_of_replaceFile {text : Text} {denial : Denial}
    (refused : tree.replaceFile cwd path text = (replaced, some denial)) : replaced = tree := by
  unfold replaceFile at refused
  split at refused
  · cases refused
    rfl
  next temporary opened created =>
  split at refused
  · cases refused
    exact erase_opened created
  · cases refused

end FontScaffold.Tree
