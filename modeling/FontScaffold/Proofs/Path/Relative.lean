import FontScaffold.Proofs.Path.Normal

set_option autoImplicit false

namespace FontScaffold.Path

/-- The specifier of a way from `start` to `goal` begins with a dot. Followed from `start` it leads
to `goal` exactly if the way has no backslash. -/
structure Specifies (way start goal specifier : Text) : Prop where
  dotted : specifier.head? = some (.char '.')
  leads_iff : normalize (join start specifier) = goal ↔ .char '\\' ∉ way

/-- What two sequences have lost is the same beginning. -/
theorem exists_shared (first second : List Text) :
    ∃ shared, first = shared ++ (dropShared first second).1 ∧
      second = shared ++ (dropShared first second).2 := by
  induction first generalizing second with
  | nil => exact ⟨[], rfl, by cases second <;> rfl⟩
  | cons a first ih =>
      cases second with
      | nil => exact ⟨[], rfl, rfl⟩
      | cons b second =>
          by_cases same : a = b
          · subst same
            obtain ⟨shared, left, right⟩ := ih second
            rw [dropShared, if_pos rfl]
            exact ⟨a :: shared, congrArg (a :: ·) left, congrArg (a :: ·) right⟩
          · rw [dropShared, if_neg same]
            exact ⟨[], rfl, rfl⟩

section Specifier

variable {path : Text}

theorem head_specifier (path : Text) : (specifier path).head? = some (.char '.') := by
  unfold specifier
  dsimp only
  split
  · assumption
  · rfl

theorem mem_of_mem_specifier {c : CodePoint} (noSlash : c ≠ .char '/') (noDot : c ≠ .char '.')
    (member : c ∈ specifier path) : c ∈ path := by
  have slashed : c ∈ Text.replaceChar (.char '\\') [.char '/'] path := by
    simp only [specifier] at member
    split at member
    · exact member
    · simpa [noSlash, noDot] using member
  rw [Text.replaceChar_eq_map, List.mem_map] at slashed
  obtain ⟨old, inside, same⟩ := slashed
  split at same
  · exact (noSlash same.symm).elim
  · exact same ▸ inside

theorem isAbsolute_specifier (path : Text) : isAbsolute (specifier path) = false := by
  rw [isAbsolute, head_specifier]
  rfl

theorem steps_specifier (path : Text) :
    steps (specifier path) = steps (Text.replaceChar (.char '\\') [.char '/'] path) := by
  simp only [specifier]
  split
  · rfl
  · exact steps_append here _

theorem backslash_not_mem_replaceChar (text : Text) :
    .char '\\' ∉ Text.replaceChar (.char '\\') [.char '/'] text := by
  rw [Text.replaceChar_eq_map, List.mem_map]
  rintro ⟨c, _, same⟩
  split at same
  · cases same
  · contradiction

end Specifier

section Way

variable {cwd path start : Text} {names goal components : List Text}

theorem mem_joinAll_iff {c : CodePoint} (other : c ≠ .char '/') :
    c ∈ joinAll components ↔ ∃ component ∈ components, c ∈ component := by
  induction components with
  | nil => simp [joinAll]
  | cons first components ih =>
      cases components with
      | nil =>
          rw [joinAll, List.intercalate_singleton]
          simp
      | cons second components =>
          rw [joinAll, List.intercalate_cons_cons, List.mem_append, List.mem_append,
            List.mem_singleton, or_iff_left other, ← joinAll, ih]
          simp only [List.mem_cons, exists_eq_or_imp]

theorem steps_replaceChar_joinAll (components : List Text) :
    steps (Text.replaceChar (.char '\\') [.char '/'] (joinAll components)) =
      components.flatMap fun component =>
      steps (Text.replaceChar (.char '\\') [.char '/'] component) := by
  induction components with
  | nil => rfl
  | cons first components ih =>
      cases components with
      | nil => rw [joinAll, List.intercalate_singleton, List.flatMap_singleton]
      | cons second components =>
          rw [joinAll, List.intercalate_cons_cons, ← joinAll, List.append_assoc,
            Text.replaceChar_append, Text.replaceChar_append, List.flatMap_cons, ← ih]
          exact steps_append _ _

/-- The components of a way, joined, or the directory itself if there are none. -/
def way (components : List Text) : Text :=
  match components with
  | [] => here
  | route => joinAll route

theorem steps_replaceChar_way (components : List Text) :
    steps (Text.replaceChar (.char '\\') [.char '/'] (way components)) =
      components.flatMap fun component =>
      steps (Text.replaceChar (.char '\\') [.char '/'] component) := by
  cases components with
  | nil => rfl
  | cons first components => exact steps_replaceChar_joinAll _

theorem mem_way_iff {c : CodePoint} (noSlash : c ≠ .char '/') (noDot : c ≠ .char '.') :
    c ∈ way components ↔ ∃ component ∈ components, c ∈ component := by
  cases components with
  | nil => simp [way, here, noDot]
  | cons first components => exact mem_joinAll_iff noSlash

theorem relative_eq (some : path ≠ []) (origin : absolute cwd start = rooted names)
    (target : absolute cwd path = rooted goal) (fromNames : ∀ name ∈ names, IsName name)
    (toNames : ∀ name ∈ goal, IsName name) :
    relative? cwd path start = Option.some (way
      ((dropShared names goal).1.map (fun _ => up) ++ (dropShared names goal).2)) := by
  rw [relative?, if_neg (by rwa [List.isEmpty_iff]), origin, target, steps_rooted fromNames,
    steps_rooted toNames]
  dsimp only
  cases (dropShared names goal).1.map (fun _ => up) ++ (dropShared names goal).2 <;> rfl

theorem steps_replaceChar_of_isStep {component : Text} (isStep : IsStep component)
    (plain : .char '\\' ∉ component) :
    steps (Text.replaceChar (.char '\\') [.char '/'] component) = [component] := by
  have single : steps (joinAll [component]) = [component] :=
    steps_joinAll (by simpa using isStep)
  rw [joinAll, List.intercalate_singleton] at single
  rwa [Text.replaceChar_of_not_mem plain]

/-- The steps down a way as its specifier has them. -/
def stepsDown (below : List Text) : List Text :=
  below.flatMap fun component => steps (Text.replaceChar (.char '\\') [.char '/'] component)

theorem backslash_not_mem_stepsDown {name : Text} {below : List Text}
    (member : name ∈ stepsDown below) : .char '\\' ∉ name := by
  obtain ⟨component, _, inside⟩ := List.mem_flatMap.mp member
  exact fun backslash => backslash_not_mem_replaceChar component (mem_of_mem_steps inside backslash)

theorem isStep_of_mem_stepsDown {name : Text} {below : List Text}
    (member : name ∈ stepsDown below) : IsStep name := by
  obtain ⟨component, _, inside⟩ := List.mem_flatMap.mp member
  exact isStep_of_mem_steps inside

theorem stepsDown_of_plain {below : List Text} (each : ∀ name ∈ below, IsName name)
    (plain : ∀ name ∈ below, .char '\\' ∉ name) : stepsDown below = below := by
  induction below with
  | nil => rfl
  | cons name below ih =>
      rw [stepsDown, List.flatMap_cons,
        steps_replaceChar_of_isStep (each name List.mem_cons_self).toIsStep
          (plain name List.mem_cons_self)]
      exact congrArg (name :: ·) (ih (fun other member => each other (.tail _ member))
        fun other member => plain other (.tail _ member))

theorem normalize_join_specifier_way {shared above below : List Text}
    (fromNames : ∀ name ∈ shared ++ above, IsName name) :
    normalize (join (rooted (shared ++ above))
        (specifier (way (above.map (fun _ => up) ++ below)))) =
      rooted ((stepsDown below).foldl (step true) shared.reverse).reverse := by
  have aboveDown : ∀ name ∈ above.reverse, name ≠ up := fun name member =>
    (fromNames name (List.mem_append_right _ (List.mem_reverse.mp member))).notUp
  have ascent : (above.map fun _ => up).flatMap (fun component =>
      steps (Text.replaceChar (.char '\\') [.char '/'] component)) =
        List.replicate above.reverse.length up := by
    rw [List.flatMap_map, List.length_reverse, ← List.map_const', List.map_eq_flatMap]
    rfl
  rw [normalize_join_rooted fromNames (isAbsolute_specifier _), steps_specifier,
    steps_replaceChar_way, List.flatMap_append, ascent, List.foldl_append, List.reverse_append,
    foldl_step_up true aboveDown, stepsDown]

/-- A way goes up, and then down. Its specifier leads to the goal exactly if the way has no
backslash: no name on the way down that has one is made up for by the steps that it falls into. -/
theorem specifies_way {shared above below : List Text}
    (fromNames : ∀ name ∈ shared ++ above, IsName name)
    (toNames : ∀ name ∈ shared ++ below, IsName name) :
    Specifies (way (above.map (fun _ => up) ++ below)) (rooted (shared ++ above))
      (rooted (shared ++ below)) (specifier (way (above.map (fun _ => up) ++ below))) := by
  have belowNames : ∀ name ∈ below, IsName name :=
    fun name member => toNames name (List.mem_append_right _ member)
  refine ⟨head_specifier _, ?_⟩
  rw [normalize_join_specifier_way fromNames, mem_way_iff (by decide) (by decide)]
  constructor
  · rintro same ⟨name, member, backslash⟩
    have resolvedNames : ∀ other ∈ ((stepsDown below).foldl (step true) shared.reverse).reverse,
        IsName other := by
      intro other member
      rcases of_mem_foldl_step (List.mem_reverse.mp member) with old | ⟨down, notUp⟩
      · exact toNames other (List.mem_append_left _ (List.mem_reverse.mp old))
      · exact { isStep_of_mem_stepsDown down with notUp }
    have inBelow : name ∈ below := by
      rcases List.mem_append.mp member with ascent | descent
      · obtain ⟨_, _, rfl⟩ := List.mem_map.mp ascent
        exact absurd backslash (by decide)
      · exact descent
    have absent : (stepsDown below).reverse.count name = 0 := by
      rw [List.count_eq_zero, List.mem_reverse]
      exact fun there => backslash_not_mem_stepsDown there backslash
    have few := (foldl_step_sublist shared.reverse (stepsDown below)).count_le name
    have counted := congrArg (List.count name) (rooted_injective resolvedNames toNames same)
    have some := List.count_pos_iff.mpr inBelow
    rw [List.count_append, absent, List.count_reverse] at few
    rw [List.count_reverse, List.count_append] at counted
    omega
  · intro plain
    have down := stepsDown_of_plain belowNames fun name member backslash =>
      plain ⟨name, List.mem_append_right _ member, backslash⟩
    rw [down, foldl_step_names true fun name member => (belowNames name member).notUp,
      List.reverse_append, List.reverse_reverse, List.reverse_reverse]

theorem exists_specifies (some : path ≠ []) (origin : absolute cwd start = rooted names)
    (target : absolute cwd path = rooted goal) (fromNames : ∀ name ∈ names, IsName name)
    (toNames : ∀ name ∈ goal, IsName name) :
    ∃ found, relative? cwd path start = Option.some found ∧
      Specifies found (rooted names) (rooted goal) (specifier found) := by
  refine ⟨_, relative_eq some origin target fromNames toNames, ?_⟩
  obtain ⟨shared, left, right⟩ := exists_shared names goal
  generalize (dropShared names goal).1 = above at left ⊢
  generalize (dropShared names goal).2 = below at right ⊢
  subst left right
  exact specifies_way fromNames toNames

/-- All that a way has besides slashes and dots comes from its goal. -/
theorem not_mem_relative {c : CodePoint} (noSlash : c ≠ .char '/') (noDot : c ≠ .char '.')
    (origin : absolute cwd start = rooted names) (target : absolute cwd path = rooted goal)
    (fromNames : ∀ name ∈ names, IsName name) (toNames : ∀ name ∈ goal, IsName name)
    (absent : ∀ name ∈ goal, c ∉ name) {found : Text}
    (leads : relative? cwd path start = some found) : c ∉ found := by
  by_cases none : path = []
  · subst none
    cases leads
  rw [relative_eq none origin target fromNames toNames] at leads
  cases leads
  obtain ⟨shared, _, right⟩ := exists_shared names goal
  rw [mem_way_iff noSlash noDot]
  rintro ⟨component, member, inside⟩
  rcases List.mem_append.mp member with ascent | descent
  · obtain ⟨_, _, rfl⟩ := List.mem_map.mp ascent
    simp [up, noDot] at inside
  · exact absent component (right ▸ List.mem_append_right shared descent) inside

end Way

end FontScaffold.Path
