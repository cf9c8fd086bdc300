import FontScaffold.Proofs.Index.Update

set_option autoImplicit false

namespace FontScaffold.Tree

/-- Whatever was there is still there. -/
def Grown (tree later : Tree) : Prop :=
  ∀ place entry, tree.entry? place = some entry → later.entry? place = some entry

section Growth

variable {tree later last : Tree} {cwd path : Text}

theorem Grown.refl (tree : Tree) : Grown tree tree :=
  fun _ _ found => found

theorem Grown.trans (first : Grown tree later) (second : Grown later last) : Grown tree last :=
  fun place entry found => second place entry (first place entry found)

theorem Grown.read {bytes : Bytes} (grown : Grown tree later)
    (done : tree.read cwd path = .ok bytes) :
    later.read cwd path = .ok bytes := by
  have directories : ∀ place, tree.isDirectory place → later.isDirectory place := by
    intro place isDirectory
    rw [Tree.isDirectory, beq_iff_eq] at isDirectory ⊢
    exact grown place .directory isDirectory
  obtain ⟨_, mode, here⟩ := read_eq_ok.mp done
  refine read_mono directories done ?_
  rw [here]
  exact grown _ _ here

theorem grown_put {location : Location} (entry : Entry) (fresh : tree.entry? location = none) :
    Grown tree (tree.put location entry) := by
  intro place other found
  have different : place ≠ location := by
    intro same
    rw [same, fresh] at found
    cases found
  rwa [entry_put_of_ne different]

theorem grown_makeDirectory (done : tree.makeDirectory cwd path = .ok later) :
    Grown tree later := by
  unfold makeDirectory at done
  rw [bind_eq_ok] at done
  obtain ⟨⟨parent, last⟩, _, done⟩ := done
  simp only at done
  split at done
  · cases done
  next name _ =>
  split at done
  · cases done
  split at done
  · cases done
  next absent =>
  cases done
  exact grown_put .directory (Option.not_isSome_iff_eq_none.mp absent)

theorem grown_makeLevels (cwd : Text) (levels : List Level) (tree : Tree) :
    Grown tree (makeLevels cwd levels tree).1 := by
  induction levels with
  | nil => exact Grown.refl tree
  | cons level above ih =>
      unfold makeLevels
      simp only
      split
      · exact ih
      split
      · exact ih
      split
      · next made done => exact ih.trans (grown_makeDirectory done)
      · exact ih
      · split <;> exact ih

theorem grown_makeDirectories (tree : Tree) (cwd path : Text) :
    Grown tree (tree.makeDirectories cwd path).1 :=
  grown_makeLevels cwd (tree.levels cwd path) tree

end Growth

end FontScaffold.Tree

namespace FontScaffold.Index

open Edit File

variable {settings : Settings} {path directory : Text} {families : List Family}
  {before after : Workspace}

theorem sparing_write_info (content operation message : Text) (before : Workspace) :
    Sparing settings path before (leaves (do
      File.write settings path content operation
      info message
      return true : Edit Bool) before) := by
  have written : Sparing settings path before
      (leaves (File.write settings path content operation) before) :=
    ((allOrNothing_write content operation).confined before).sparing
  refine leaves_bind written fun _ middle done => ?_
  rw [leaves_of_ok done] at written
  exact written.trans (.of_quiet ⟨rfl, rfl⟩)

theorem sparing_ensure (content : Option Text) (before : Workspace) :
    Sparing settings path before (leaves (ensure settings path content) before) := by
  unfold ensure
  refine leaves_bind (.of_quiet ⟨rfl, rfl⟩) fun workspace middle got => ?_
  obtain ⟨rfl, rfl⟩ := get_eq_ok.mp got
  split
  · exact .of_quiet ⟨rfl, rfl⟩
  simp only
  split
  · -- Directories that were made stay even if a later one is refused.
    have grown := before.tree.grown_makeDirectories settings.workingDirectory (Path.directory path)
    cases made : before.tree.makeDirectories settings.workingDirectory (Path.directory path) with
    | mk tree refused =>
        rw [made] at grown
        have deeper : Sparing settings path before { before with tree } :=
          ⟨fun _ _ _ ⟨bytes, found, decoded⟩ => ⟨bytes, grown.read found, decoded⟩, rfl⟩
        refine leaves_bind deeper fun _ middle set => ?_
        cases set
        cases refused with
        | some denial => exact deeper
        | none => exact deeper.trans (sparing_write_info _ _ _ _)
  · exact sparing_write_info _ _ _ before

theorem sparing_merge (part : Text) (before : Workspace) :
    Sparing settings path before (leaves (Index.merge settings path part) before) :=
  ((allOrNothing_mergeChunks Matcher.standard).confined before).sparing

theorem sparing_update (before : Workspace) :
    Sparing settings path before (leaves (update settings path families directory) before) := by
  unfold update
  refine leaves_bind (.of_quiet ⟨rfl, rfl⟩) fun workspace middle got => ?_
  obtain ⟨rfl, rfl⟩ := get_eq_ok.mp got
  refine leaves_bind ?_ fun parts middle given => ?_
  · cases render settings directory before.config families with
    | ok parts => exact .of_quiet ⟨rfl, rfl⟩
    | error misuse => exact .of_quiet ⟨rfl, rfl⟩
  obtain ⟨_, rfl⟩ := ofExcept_eq_ok.mp given
  have ensured := @sparing_ensure settings path none before
  refine leaves_bind ensured fun created middle ensuredEq => ?_
  rw [leaves_of_ok ensuredEq] at ensured
  rw [ite_bind]
  have named : Sparing settings path before (leaves
      (if parts.namedExports = [] then pure false else merge settings path parts.namedExports)
      middle) := by
    split
    · exact ensured
    · exact ensured.trans (sparing_merge _ middle)
  refine leaves_bind named fun changed later namedEq => ?_
  rw [leaves_of_ok namedEq] at named
  have listed := named.trans (sparing_merge parts.defaultExport later)
  refine leaves_bind listed fun changedAgain last listedEq => ?_
  rw [leaves_of_ok listedEq] at listed
  exact listed

end FontScaffold.Index
