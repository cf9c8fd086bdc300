import FontScaffold.Proofs.Tree.Replace

set_option autoImplicit false

namespace FontScaffold.Tree

/-- Every entry lies in a directory. -/
def Grounded (tree : Tree) : Prop :=
  ∀ location, (tree.entry? location).isSome → tree.isDirectory location.dropLast

variable {tree ready replaced : Tree} {cwd path : Text} {temporary : Location}
  {bytes content : Bytes}
  {mode : Nat}

theorem grounded_of_entries (each : ∀ entry ∈ tree.entries, tree.isDirectory entry.1.dropLast) :
    tree.Grounded := by
  intro location there
  by_cases root : location = []
  · subst root
    rfl
  · rw [ entry?, if_neg root] at there
    obtain ⟨entry, lookup⟩ := Option.isSome_iff_exists.mp there
    obtain ⟨earlier, later, entries, _⟩ := List.lookup_eq_some_iff.mp lookup
    exact each (location, entry) (entries ▸ List.mem_append_cons_self)

theorem isAbsolute_of_components (checked : check path = .ok ()) (none : components path = []) :
    Path.isAbsolute path := by
  cases path with
  | nil => cases checked
  | cons c path =>
      obtain ⟨first, others, cut⟩ := List.exists_cons_of_ne_nil
        (List.splitOn_ne_nil (.char '/') path)
      by_cases slash : c = .char '/'
      · subst slash
        rfl
      · rw [components, List.splitOn_cons_eq_if_modifyHead, if_neg (by simpa using slash),
          cut] at none
        simp at none

/-- The way to a file ends with its name in a directory. -/
theorem goal_of_read (grounded : tree.Grounded) (found : tree.read cwd path = .ok content) :
    ∃ parent name, Goal tree cwd path parent name := by
  obtain ⟨located, mode, entry⟩ := read_eq_ok.mp found
  obtain ⟨checked, walked, slash⟩ := locate_eq_ok.mp located
  have noDirectory : tree.isDirectory (target cwd path) = false := by
    rw [Tree.isDirectory, entry]
    rfl
  rcases List.eq_nil_or_concat' (components path) with none | ⟨names, name, cut⟩
  · -- Without components the path leads to the root.
    have atRoot : target cwd path = [] := by
      rw [target, none, origin, if_pos (isAbsolute_of_components checked none)]
      rfl
    rw [atRoot] at noDirectory
    cases noDirectory
  rw [cut, List.foldlM_append, bind_eq_ok] at walked
  obtain ⟨parent, above, entered⟩ := walked
  rw [List.foldlM_cons, bind_eq_ok] at entered
  obtain ⟨location, entered, ended⟩ := entered
  cases ended
  obtain ⟨isDirectory, reached, proper⟩ := enter_eq_ok.mp entered
  by_cases isHere : name = Path.here
  · -- A dot leads to the directory that it stands in.
    rw [reached, follow, if_pos isHere, isDirectory] at noDirectory
    cases noDirectory
  by_cases isUp : name = Path.up
  · -- Two dots lead to the directory above.
    rw [reached, follow, if_neg isHere, if_pos isUp,
      grounded parent (isSome_of_isDirectory isDirectory)] at noDirectory
    cases noDirectory
  have step : follow parent name = parent ++ [entryName name] := by
    rw [follow, if_neg isHere, if_neg isUp]
  have short : (entryName name).length ≤ nameLimit := by
    rcases proper with here | up | ⟨short, _⟩
    · exact (isHere here).elim
    · exact (isUp up).elim
    · exact short
  have noSlash : path.getLast? ≠ some (.char '/') := by
    intro ends
    rw [slash ends] at noDirectory
    cases noDirectory
  rw [reached, step] at noDirectory
  refine ⟨parent, name, checked, ?_, ?_, isDirectory, step, short, noSlash, noDirectory⟩
  · rw [cut, List.dropLast_concat]
  · rw [cut, List.dropLast_concat]
    exact above

theorem Goal.mono {parent : Location} {name : Text} (goal : Goal tree cwd path parent name)
    (same : ∀ place, ready.isDirectory place = tree.isDirectory place) :
    Goal ready cwd path parent name where
  checked := goal.checked
  names := goal.names
  walked := foldlM_enter_mono (fun place isDirectory => (same place).trans isDirectory) goal.walked
    (isSome_of_isDirectory ((same parent).trans goal.isDirectory))
  isDirectory := (same parent).trans goal.isDirectory
  step := goal.step
  short := goal.short
  noSlash := goal.noSlash
  free := (same _).trans goal.free

theorem properName_of_goal {parent : Location} {name : Text}
    (goal : Goal tree cwd path parent name) :
    properName (components path).getLast? = some name := by
  have last : (components path).getLast? = some name := by rw [goal.names, List.getLast?_concat]
  have notHere : name ≠ Path.here := by
    rintro rfl
    have stays : parent = parent ++ [entryName Path.here] := goal.step
    exact List.cons_ne_nil _ _ (List.self_eq_append_right.mp stays)
  have notUp : name ≠ Path.up := by
    rintro rfl
    have shorter : parent.dropLast = parent ++ [entryName Path.up] := goal.step
    have lengths := congrArg List.length shorter
    rw [List.length_dropLast, List.length_append, List.length_singleton] at lengths
    omega
  rw [last, properName, Option.filter_some_pos (by simp [notHere, notUp])]

theorem rename_of_goal {parent : Location} {name : Text} {moved : Entry}
    (goal : Goal ready cwd path parent name) (there : ready.entry? temporary = some moved) :
    ready.rename cwd temporary path =
      .ok ((ready.erase temporary).put (parent ++ [entryName name]) moved) := by
  rw [Tree.rename, bind_eq_ok]
  refine ⟨_, locateParent_eq_ok.mpr ⟨goal.checked, goal.walked, goal.isDirectory, rfl⟩, ?_⟩
  simp only [properName_of_goal goal, there, if_neg (Nat.not_lt.mpr goal.short),
    if_neg goal.noSlash, goal.free]
  rfl

/-- A new file beside a file takes its place. -/
theorem Ready.exists_commit (done : Ready tree ready temporary bytes 0o600)
    (grounded : tree.Grounded) (found : tree.read cwd path = .ok content) :
    ∃ replaced, ready.commit cwd temporary path = .ok replaced := by
  obtain ⟨parent, name, goal⟩ := goal_of_read grounded found
  obtain ⟨_, mode, entry⟩ := read_eq_ok.mp found
  have other : target cwd path ≠ temporary := by
    intro same
    rw [same, done.fresh] at entry
    cases entry
  have there : ready.entry? (target cwd path) = some (.file content mode) :=
    (done.others _ other).trans entry
  have located : ready.locate cwd path = .ok (target cwd path) :=
    (goal.mono done.isDirectory_iff).locate (fun _ isDirectory => isDirectory) (by rw [there]; rfl)
  have copied : ready.copyMode cwd path temporary = .ok (ready.setMode temporary mode) := by
    rw [Tree.copyMode, bind_eq_ok]
    refine ⟨_, located, ?_⟩
    simp only [done.written, there]
    rfl
  have moded := done.setMode mode
  have moved := rename_of_goal (goal.mono moded.isDirectory_iff) moded.written
  have committed : ready.commit cwd temporary path =
      (ready.setMode temporary mode).rename cwd temporary path := by
    rw [Tree.commit, if_pos (pathExists_of_locate located), copied]
    rfl
  exact ⟨_, committed.trans moved⟩

/-- A new empty file is there. Without it the tree is in order, and the path leads to the bytes. -/
structure Undisturbed (tree : Tree) (cwd path : Text) (bytes : Bytes) (temporary : Location) :
    Prop where
  empty : tree.entry? temporary = some (.file [] 0o600)
  grounded : (tree.erase temporary).Grounded
  reads : (tree.erase temporary).read cwd path = .ok bytes

theorem undisturbed_opened {opened : Tree} (grounded : tree.Grounded)
    (found : tree.read cwd path = .ok bytes)
    (created : tree.createTemporary cwd path = .ok (temporary, opened)) :
    Undisturbed opened cwd path bytes temporary := by
  have erased := erase_opened created
  obtain ⟨proper, _, rfl⟩ := createTemporary_eq_ok created
  exact ⟨entry_put_self proper, erased.symm ▸ grounded, erased.symm ▸ found⟩

theorem Undisturbed.ready_write (undisturbed : Undisturbed tree cwd path bytes temporary)
    (proper : temporary ≠ []) (content : Bytes) :
    Ready (tree.erase temporary) (tree.write temporary content) temporary content 0o600 := by
  have written : tree.write temporary content = tree.put temporary (.file content 0o600) := by
    rw [Tree.write, undisturbed.empty]
  rw [written]
  refine ⟨proper, entry_erase_self proper, ?_, entry_put_self proper⟩
  intro place other
  rw [entry_put_of_ne other, entry_erase_of_ne other]

end FontScaffold.Tree
