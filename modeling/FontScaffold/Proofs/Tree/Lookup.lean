import FontScaffold.Proofs.Outcome

set_option autoImplicit false

namespace FontScaffold.Tree

section Entries

variable {tree : Tree} {location other : Location} {entry : Entry}

theorem entry_erase_of_ne (different : other ≠ location) :
    Tree.entry? (tree.erase location) other = tree.entry? other := by
  have kept : (tree.entries.filter fun entry => entry.1 != location).lookup other =
      tree.entries.lookup other := by
    induction tree.entries with
    | nil => rfl
    | cons head rest ih =>
        by_cases here : head.1 = location
        · have notHere : (other == head.1) = false := by
            rw [beq_eq_false_iff_ne, here]
            exact different
          rw [List.filter_cons_of_neg (by simpa using here), ih, List.lookup_cons, notHere]
        · rw [List.filter_cons_of_pos (by simpa using here), List.lookup_cons, List.lookup_cons, ih]
  simp only [ entry?, erase, kept]

theorem entry_erase_self (proper : location ≠ []) :
    Tree.entry? (tree.erase location) location = none := by
  have gone : (tree.entries.filter fun entry => entry.1 != location).lookup location = none := by
    rw [List.lookup_eq_none_iff]
    intro head member
    have kept := List.of_mem_filter member
    exact bne_iff_ne.mpr fun same => bne_iff_ne.mp kept same.symm
  simp only [ entry?, erase, gone, if_neg proper]

theorem entry_put_self (proper : location ≠ []) :
    Tree.entry? (tree.put location entry) location = some entry := by
  simp [ entry?, put, proper]

theorem entry_put_of_ne (different : other ≠ location) :
    Tree.entry? (tree.put location entry) other = tree.entry? other := by
  have notHere : (other == location) = false := beq_eq_false_iff_ne.mpr different
  rw [← @entry_erase_of_ne tree location other different]
  simp only [ entry?, put, List.lookup_cons, notHere]

theorem isSome_of_isDirectory (isDirectory : tree.isDirectory location) :
    (tree.entry? location).isSome := by
  unfold Tree.isDirectory at isDirectory
  rw [beq_iff_eq] at isDirectory
  rw [isDirectory]
  rfl

end Entries

def follow (location : Location) (component : Text) : Location :=
  if component = Path.here then location
  else if component = Path.up then location.dropLast
  else location ++ [entryName component]

/-- The location that a path names, whatever is there. -/
def target (cwd path : Text) : Location :=
  (components path).foldl follow (origin cwd path)

section Lookup

variable {tree later : Tree} {cwd path component : Text} {location next : Location}

/-- A component is entered from a directory, and leads to something that is there. -/
theorem enter_eq_ok : tree.enter location component = .ok next ↔
    tree.isDirectory location ∧ next = follow location component ∧
      (component = Path.here ∨ component = Path.up ∨
        (entryName component).length ≤ nameLimit ∧
          (tree.entry? (location ++ [entryName component])).isSome) := by
  rw [enter, follow]
  by_cases isDirectory : tree.isDirectory location = true
  · rw [if_neg (by simp [isDirectory])]
    by_cases isHere : component = Path.here
    · rw [if_pos isHere, if_pos isHere, Except.ok.injEq]
      exact ⟨fun same => ⟨isDirectory, same.symm, Or.inl isHere⟩, fun all => all.2.1.symm⟩
    rw [if_neg isHere, if_neg isHere]
    by_cases isUp : component = Path.up
    · rw [if_pos isUp, if_pos isUp, Except.ok.injEq]
      exact ⟨fun same => ⟨isDirectory, same.symm, Or.inr (Or.inl isUp)⟩, fun all => all.2.1.symm⟩
    rw [if_neg isUp, if_neg isUp]
    by_cases long : nameLimit < (entryName component).length
    · rw [if_pos long]
      constructor
      · intro done
        cases done
      · rintro ⟨_, _, isHere' | isUp' | ⟨short, _⟩⟩
        · exact (isHere isHere').elim
        · exact (isUp isUp').elim
        · omega
    rw [if_neg long]
    cases there : tree.entry? (location ++ [entryName component]) with
    | none =>
        rw [Option.isNone_none, if_pos rfl]
        constructor
        · intro done
          cases done
        · rintro ⟨_, _, isHere' | isUp' | ⟨_, found⟩⟩
          · exact (isHere isHere').elim
          · exact (isUp isUp').elim
          · cases found
    | some entry =>
        rw [Option.isNone_some, if_neg Bool.false_ne_true, Except.ok.injEq]
        exact ⟨fun same => ⟨isDirectory, same.symm, Or.inr (Or.inr ⟨Nat.not_lt.mp long, rfl⟩)⟩,
          fun all => all.2.1.symm⟩
  · rw [if_pos (by simp [isDirectory])]
    constructor
    · intro done
      cases done
    · exact fun all => (isDirectory all.1).elim

theorem foldlM_enter_eq_follow {names : List Text}
    (done : names.foldlM tree.enter location = .ok next) : next = names.foldl follow location := by
  induction names generalizing location with
  | nil =>
      cases done
      rfl
  | cons name names ih =>
      rw [List.foldlM_cons, bind_eq_ok] at done
      obtain ⟨middle, entered, done⟩ := done
      rw [List.foldl_cons, ← (enter_eq_ok.mp entered).2.1]
      exact ih done

/-- A way stays open while directories stay directories and something is at its end. -/
theorem foldlM_enter_mono {names : List Text}
    (directories : ∀ place, tree.isDirectory place → later.isDirectory place)
    (done : names.foldlM tree.enter location = .ok next)
    (there : (later.entry? next).isSome) :
    names.foldlM later.enter location = .ok next := by
  induction names generalizing location with
  | nil =>
      cases done
      rfl
  | cons name names ih =>
      rw [List.foldlM_cons, bind_eq_ok] at done
      obtain ⟨middle, entered, done⟩ := done
      rw [List.foldlM_cons, bind_eq_ok]
      refine ⟨middle, ?_, ih done⟩
      -- What is entered is the end of the way or, since the way goes on, a directory.
      have passed : (later.entry? middle).isSome := by
        cases names with
        | nil =>
            cases done
            exact there
        | cons second names =>
            rw [List.foldlM_cons, bind_eq_ok] at done
            obtain ⟨_, more, _⟩ := done
            exact isSome_of_isDirectory (directories middle (enter_eq_ok.mp more).1)
      obtain ⟨isDirectory, same, proper⟩ := enter_eq_ok.mp entered
      refine enter_eq_ok.mpr ⟨directories location isDirectory, same, ?_⟩
      rcases proper with isHere | isUp | ⟨short, _⟩
      · exact Or.inl isHere
      · exact Or.inr (Or.inl isUp)
      · by_cases isHere : name = Path.here
        · exact Or.inl isHere
        · by_cases isUp : name = Path.up
          · exact Or.inr (Or.inl isUp)
          · refine Or.inr (Or.inr ⟨short, ?_⟩)
            rw [same, follow, if_neg isHere, if_neg isUp] at passed
            exact passed

theorem locate_eq_ok : tree.locate cwd path = .ok location ↔
    check path = .ok () ∧ (components path).foldlM tree.enter (origin cwd path) = .ok location ∧
      (path.getLast? = some (.char '/') → tree.isDirectory location) := by
  unfold locate
  rw [bind_eq_ok]
  constructor
  · rintro ⟨_, checked, done⟩
    rw [bind_eq_ok] at done
    obtain ⟨found, walked, done⟩ := done
    by_cases refused : path.getLast? = some (.char '/') ∧ !tree.isDirectory found
    · rw [if_pos refused] at done
      cases done
    · rw [if_neg refused] at done
      cases done
      refine ⟨checked, walked, fun slash => ?_⟩
      simpa [slash] using refused
  · rintro ⟨checked, walked, slash⟩
    refine ⟨(), checked, ?_⟩
    rw [bind_eq_ok]
    refine ⟨location, walked, ?_⟩
    rw [if_neg]
    · rfl
    · rintro ⟨ends, other⟩
      rw [slash ends] at other
      cases other

theorem target_of_locate (done : tree.locate cwd path = .ok location) :
    location = target cwd path :=
  foldlM_enter_eq_follow (locate_eq_ok.mp done).2.1

theorem locate_mono (directories : ∀ place, tree.isDirectory place → later.isDirectory place)
    (done : tree.locate cwd path = .ok location) (there : (later.entry? location).isSome) :
    later.locate cwd path = .ok location := by
  obtain ⟨checked, walked, slash⟩ := locate_eq_ok.mp done
  exact locate_eq_ok.mpr ⟨checked, foldlM_enter_mono directories walked there,
    fun ends => directories location (slash ends)⟩

theorem pathExists_of_locate (done : tree.locate cwd path = .ok location) :
    tree.pathExists cwd path := by
  rw [pathExists, done]
  rfl

/-- A file is read at the location that its path names. -/
theorem read_eq_ok {bytes : Bytes} : tree.read cwd path = .ok bytes ↔
    tree.locate cwd path = .ok (target cwd path) ∧
      ∃ mode, tree.entry? (target cwd path) = some (.file bytes mode) := by
  unfold Tree.read
  rw [bind_eq_ok]
  constructor
  · rintro ⟨location, found, done⟩
    have same := target_of_locate found
    subst same
    refine ⟨found, ?_⟩
    cases here : tree.entry? (target cwd path) with
    | none =>
        rw [here] at done
        cases done
    | some entry =>
        rw [here] at done
        cases entry with
        | directory => cases done
        | file content mode =>
            cases done
            exact ⟨mode, rfl⟩
  · rintro ⟨found, mode, here⟩
    refine ⟨_, found, ?_⟩
    rw [here]
    rfl

theorem read_mono {bytes : Bytes}
    (directories : ∀ place, tree.isDirectory place → later.isDirectory place)
    (done : tree.read cwd path = .ok bytes)
    (same : later.entry? (target cwd path) = tree.entry? (target cwd path)) :
    later.read cwd path = .ok bytes := by
  obtain ⟨found, mode, here⟩ := read_eq_ok.mp done
  rw [here] at same
  exact read_eq_ok.mpr ⟨locate_mono directories found (by rw [same]; rfl), mode, same⟩

/-- The directory of a path's last component is there. -/
theorem locateParent_eq_ok {last : Option Text} :
    tree.locateParent cwd path = .ok (location, last) ↔
      check path = .ok () ∧
        (components path).dropLast.foldlM tree.enter (origin cwd path) = .ok location ∧
        tree.isDirectory location ∧ last = (components path).getLast? := by
  unfold locateParent
  rw [bind_eq_ok]
  constructor
  · rintro ⟨_, checked, done⟩
    rw [bind_eq_ok] at done
    obtain ⟨found, walked, done⟩ := done
    by_cases isDirectory : tree.isDirectory found
    · simp only [isDirectory, Bool.not_true, Bool.false_eq_true, ↓reduceIte] at done
      cases done
      exact ⟨checked, walked, isDirectory, rfl⟩
    · simp only [isDirectory, Bool.not_false, ↓reduceIte] at done
      cases done
  · rintro ⟨checked, walked, isDirectory, rfl⟩
    refine ⟨(), checked, ?_⟩
    rw [bind_eq_ok]
    refine ⟨location, walked, ?_⟩
    simp only [isDirectory, Bool.not_true, Bool.false_eq_true, ↓reduceIte]
    rfl

end Lookup

end FontScaffold.Tree
