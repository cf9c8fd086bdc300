import FontScaffold.Path
import FontScaffold.Proofs.Text.Basic
import Mathlib.Data.List.Basic

set_option autoImplicit false

namespace FontScaffold.Path

/-- A component that leads somewhere, if only up. -/
structure IsStep (component : Text) : Prop where
  nonempty : component ≠ []
  notHere : component ≠ here
  noSlash : .char '/' ∉ component

/-- A component that leads one directory down. -/
structure IsName (component : Text) : Prop extends IsStep component where
  notUp : component ≠ up

/-- The absolute path through the given names. -/
def rooted (names : List Text) : Text :=
  .char '/' :: joinAll names

theorem rooted_ne_nil (names : List Text) : rooted names ≠ [] :=
  List.cons_ne_nil _ _

section Steps

variable {path component : Text} {components : List Text}

theorem steps_append (before after : Text) :
    steps (before ++ .char '/' :: after) = steps before ++ steps after := by
  rw [steps, List.splitOn_append_cons_self, List.filter_append, steps, steps]

theorem of_mem_splitOn (member : component ∈ path.splitOn (.char '/')) :
    ∀ c ∈ component, c ∈ path ∧ c ≠ .char '/' := by
  induction path generalizing component with
  | nil =>
      rw [List.splitOn_nil, List.mem_singleton] at member
      rw [member]
      exact nofun
  | cons d path ih =>
      obtain ⟨first, others, cut⟩ := List.exists_cons_of_ne_nil
        (List.splitOn_ne_nil (.char '/') path)
      rw [List.splitOn_cons_eq_if_modifyHead, cut] at member
      rw [cut] at ih
      have later : ∀ part ∈ first :: others, ∀ c ∈ part, c ∈ d :: path ∧ c ≠ .char '/' :=
        fun part inside c member => ⟨.tail d (ih inside c member).1, (ih inside c member).2⟩
      split at member
      · rcases List.mem_cons.mp member with rfl | inside
        · exact nofun
        · exact later component inside
      · next other =>
          rw [beq_iff_eq] at other
          rcases List.mem_cons.mp member with rfl | inside
          · intro c inside
            rcases List.mem_cons.mp inside with rfl | inside
            · exact ⟨List.mem_cons_self, other⟩
            · exact later first List.mem_cons_self c inside
          · exact later component (.tail _ inside)

theorem isStep_of_mem_steps (member : component ∈ steps path) : IsStep component := by
  obtain ⟨part, proper⟩ := List.mem_filter.mp member
  rw [Bool.and_eq_true, bne_iff_ne, bne_iff_ne] at proper
  exact ⟨proper.1, proper.2, fun slash => (of_mem_splitOn part _ slash).2 rfl⟩

theorem mem_of_mem_steps (member : component ∈ steps path) {c : CodePoint}
    (inside : c ∈ component) :
    c ∈ path :=
  (of_mem_splitOn (List.mem_filter.mp member).1 c inside).1

theorem steps_joinAll (each : ∀ component ∈ components, IsStep component) :
    steps (joinAll components) = components := by
  by_cases none : components = []
  · subst none
    rfl
  rw [steps, joinAll, List.splitOn_intercalate (.char '/')
    (fun part member => (each part member).noSlash)
    none, List.filter_eq_self]
  intro part member
  rw [Bool.and_eq_true, bne_iff_ne, bne_iff_ne]
  exact ⟨(each part member).nonempty, (each part member).notHere⟩

theorem steps_rooted (each : ∀ name ∈ components, IsName name) :
    steps (rooted components) = components :=
  (steps_append [] (joinAll components)).trans
    (steps_joinAll fun name member => (each name member).toIsStep)

theorem rooted_injective {names others : List Text} (each : ∀ name ∈ names, IsName name)
    (eachOther : ∀ name ∈ others, IsName name) (same : rooted names = rooted others) :
    names = others := by
  rw [← steps_rooted each, same, steps_rooted eachOther]

theorem steps_join (base : Text) (relative : isAbsolute path = false) :
    steps (join base path) = steps base ++ steps path := by
  rw [join, relative, if_neg Bool.false_ne_true]
  rcases List.eq_nil_or_concat' base with rfl | ⟨init, last, rfl⟩
  · rfl
  by_cases slash : last = .char '/'
  · subst slash
    rw [if_pos (by simp), List.append_assoc, List.singleton_append, steps_append, steps_append]
    exact congrArg (· ++ steps path) (List.append_nil _).symm
  · rw [if_neg (by simpa using slash), steps_append]

end Steps

section Stack

variable {stack names : List Text}

theorem step_of_ne (isRooted : Bool) {component : Text} (down : component ≠ up) :
    step isRooted stack component = component :: stack :=
  if_neg down

theorem step_up (isRooted : Bool) {top : Text} (down : top ≠ up) :
    step isRooted (top :: stack) up = stack :=
  if_neg down

/-- Above the root nothing is put on the stack but components that lead down. -/
theorem of_mem_step {name component : Text} (member : name ∈ step true stack component) :
    name ∈ stack ∨ name = component ∧ component ≠ up := by
  by_cases isUp : component = up
  · subst isUp
    left
    cases stack with
    | nil => cases member
    | cons top rest =>
        by_cases same : top = up
        · subst same
          rcases List.mem_cons.mp member with rfl | member
          · exact List.mem_cons_self
          · exact member
        · rw [step_up true same] at member
          exact .tail top member
  · rw [step_of_ne true isUp] at member
    rcases List.mem_cons.mp member with rfl | member
    · exact Or.inr ⟨rfl, isUp⟩
    · exact Or.inl member

theorem of_mem_foldl_step {name : Text} {components : List Text}
    (member : name ∈ components.foldl (step true) stack) :
    name ∈ stack ∨ name ∈ components ∧ name ≠ up := by
  induction components generalizing stack with
  | nil => exact Or.inl member
  | cons component components ih =>
      rcases ih member with here | ⟨later, down⟩
      · rcases of_mem_step here with old | ⟨rfl, down⟩
        · exact Or.inl old
        · exact Or.inr ⟨List.mem_cons_self, down⟩
      · exact Or.inr ⟨.tail component later, down⟩

theorem step_sublist (stack : List Text) (component : Text) :
    (step true stack component).Sublist (component :: stack) := by
  by_cases isUp : component = up
  · subst isUp
    cases stack with
    | nil => exact List.nil_sublist _
    | cons top rest =>
        by_cases same : top = up
        · subst same
          exact List.Sublist.refl _
        · rw [step_up true same]
          exact (List.sublist_cons_self top rest).trans (List.sublist_cons_self up _)
  · rw [step_of_ne true isUp]

theorem foldl_step_sublist (stack components : List Text) :
    (components.foldl (step true) stack).Sublist (components.reverse ++ stack) := by
  induction components generalizing stack with
  | nil => exact List.Sublist.refl _
  | cons component components ih =>
      rw [List.foldl_cons, List.reverse_cons, List.append_assoc]
      exact (ih _).trans ((List.Sublist.refl _).append (step_sublist stack component))

theorem foldl_step_names (isRooted : Bool) (each : ∀ name ∈ names, name ≠ up) :
    names.foldl (step isRooted) stack = names.reverse ++ stack := by
  induction names generalizing stack with
  | nil => rfl
  | cons name names ih =>
      rw [List.foldl_cons, step_of_ne isRooted (each name List.mem_cons_self),
        ih fun other member => each other (.tail _ member), List.reverse_cons, List.append_assoc]
      rfl

theorem foldl_step_up (isRooted : Bool) {above : List Text} (each : ∀ name ∈ above, name ≠ up) :
    (List.replicate above.length up).foldl (step isRooted) (above ++ stack) = stack := by
  induction above with
  | nil => rfl
  | cons top above ih =>
      rw [List.length_cons, List.replicate_succ, List.foldl_cons, List.cons_append,
        step_up isRooted (each top List.mem_cons_self)]
      exact ih fun name member => each name (.tail _ member)

end Stack

section Root

variable {cwd path : Text} {names : List Text}

theorem isAbsolute_of_root (single : root path = [.char '/']) : isAbsolute path := by
  cases path with
  | nil => cases single
  | cons c path =>
      by_cases slash : c = .char '/'
      · subst slash
        rfl
      · rw [root, List.takeWhile_cons_of_neg (by simpa using slash)] at single
        cases single

theorem root_of_isAbsolute (isAbsolute : isAbsolute path)
    (single : root path ≠ [.char '/', .char '/']) :
    root path = [.char '/'] := by
  cases path with
  | nil => cases isAbsolute
  | cons c path =>
      obtain rfl : c = .char '/' := by
        unfold Path.isAbsolute at isAbsolute
        simpa using isAbsolute
      unfold root at single ⊢
      rw [List.takeWhile_cons_of_pos rfl, List.length_cons] at single ⊢
      split at single <;> simp_all

/-- Where the base ends there is no slash that could lengthen those at its start. -/
theorem root_join (base : Text) (relative : isAbsolute path = false) :
    root (join base path) = root base := by
  have noSlash : path.takeWhile (· == .char '/') = [] := by
    cases path with
    | nil => rfl
    | cons c path =>
        refine List.takeWhile_cons_of_neg fun slash => ?_
        unfold isAbsolute at relative
        simp_all
  rw [join, relative, if_neg Bool.false_ne_true]
  split
  · have same : (base ++ path).takeWhile (· == .char '/') = base.takeWhile (· == .char '/') := by
      rw [List.takeWhile_append, noSlash, List.append_nil]
      split
      · next all => exact ((List.takeWhile_prefix _).eq_of_length all).symm
      · rfl
    rw [root, same, root]
  · next inside =>
      have notAll : (base.takeWhile (· == .char '/')).length ≠ base.length := by
        intro all
        have slashes := List.all_takeWhile (p := (· == .char '/')) (l := base)
        rw [(List.takeWhile_prefix _).eq_of_length all] at slashes
        rcases List.eq_nil_or_concat' base with rfl | ⟨init, last, rfl⟩
        · exact inside rfl
        · simp_all
      rw [root, List.takeWhile_append, if_neg notAll, root]

theorem root_rooted (each : ∀ name ∈ names, IsName name) : root (rooted names) = [.char '/'] := by
  have single : (joinAll names).takeWhile (· == .char '/') = [] := by
    rcases names with _ | ⟨name, names⟩
    · rfl
    obtain ⟨c, rest, rfl⟩ := List.exists_cons_of_ne_nil (each name List.mem_cons_self).nonempty
    have other : c ≠ .char '/' := by
      rintro rfl
      exact (each _ List.mem_cons_self).noSlash List.mem_cons_self
    have starts : ∃ more, joinAll ((c :: rest) :: names) = c :: more := by
      cases names with
      | nil => exact ⟨rest, List.intercalate_singleton⟩
      | cons second names => exact ⟨_, List.intercalate_cons_cons⟩
    obtain ⟨more, shape⟩ := starts
    rw [shape]
    exact List.takeWhile_cons_of_neg (by simpa using other)
  rw [root, rooted, List.takeWhile_cons_of_pos rfl, single]
  rfl

end Root

section Normal

variable {cwd path : Text} {names : List Text}

theorem normalize_of_root (single : root path = [.char '/']) :
    normalize path = rooted (normalSteps path) := by
  rw [normalize, single]
  rfl

theorem of_mem_normalSteps (isAbsolute : isAbsolute path) {name : Text}
    (member : name ∈ normalSteps path) : name ∈ steps path ∧ name ≠ up := by
  rw [normalSteps, isAbsolute, List.mem_reverse] at member
  rcases of_mem_foldl_step member with bottom | inside
  · cases bottom
  · exact inside

theorem isName_of_mem_normalSteps (isAbsolute : isAbsolute path) {name : Text}
    (member : name ∈ normalSteps path) : IsName name :=
  have inside := of_mem_normalSteps isAbsolute member
  { isStep_of_mem_steps inside.1 with notUp := inside.2 }

theorem normalize_join_rooted (each : ∀ name ∈ names, IsName name)
    (relative : isAbsolute path = false) :
    normalize (join (rooted names) path) =
      rooted ((steps path).foldl (step true) names.reverse).reverse := by
  have single : root (join (rooted names) path) = [.char '/'] :=
    (root_join _ relative).trans (root_rooted each)
  rw [normalize_of_root single, normalSteps, isAbsolute_of_root single, steps_join _ relative,
    List.foldl_append, steps_rooted each,
    foldl_step_names true fun name member => (each name member).notUp, List.append_nil]

theorem root_join_of_root (single : root cwd = [.char '/'])
    (proper : root path ≠ [.char '/', .char '/']) :
    root (join cwd path) = [.char '/'] := by
  by_cases isAbsolute : isAbsolute path
  · rw [join, if_pos isAbsolute]
    exact root_of_isAbsolute isAbsolute proper
  · rw [root_join cwd (Bool.eq_false_iff.mpr isAbsolute), single]

/-- From a working directory with one slash at its start every path leads to a rooted one, unless it
begins with exactly two slashes itself. -/
theorem absolute_eq_rooted (single : root cwd = [.char '/'])
    (proper : root path ≠ [.char '/', .char '/']) :
    absolute cwd path = rooted (normalSteps (join cwd path)) ∧
      ∀ name ∈ normalSteps (join cwd path), IsName name := by
  have joined := root_join_of_root single proper
  exact ⟨normalize_of_root joined,
    fun name => isName_of_mem_normalSteps (isAbsolute_of_root joined)⟩

theorem absolute_rooted (cwd : Text) (each : ∀ name ∈ names, IsName name) :
    absolute cwd (rooted names) = rooted names := by
  have isAbsolute : isAbsolute (rooted names) := rfl
  rw [absolute, join, if_pos isAbsolute, normalize_of_root (root_rooted each), normalSteps,
    isAbsolute, steps_rooted each, foldl_step_names true fun name member =>
      (each name member).notUp,
    List.append_nil, List.reverse_reverse]

/-- No character comes into the normal form that is neither in the path nor in the directory that it
is seen from. -/
theorem not_mem_normalSteps {c : CodePoint} (slash : c ≠ .char '/') (inPath : c ∉ path)
    (inCwd : c ∉ cwd ∨ isAbsolute path) (rooted : isAbsolute (join cwd path)) :
    ∀ name ∈ normalSteps (join cwd path), c ∉ name := by
  intro name member inside
  have there := mem_of_mem_steps (of_mem_normalSteps rooted member).1 inside
  unfold join at there
  split at there
  · exact inPath there
  · next relative =>
      have notInCwd := inCwd.resolve_right relative
      split at there <;> simp_all

end Normal

section Directory

variable {names : List Text}

theorem joinAll_concat (some : names ≠ []) (last : Text) :
    joinAll (names ++ [last]) = joinAll names ++ .char '/' :: last := by
  induction names with
  | nil => exact (some rfl).elim
  | cons name names ih =>
      cases names with
      | nil =>
          rw [joinAll, joinAll, List.singleton_append, List.intercalate_cons_cons,
            List.intercalate_singleton, List.intercalate_singleton, List.append_assoc]
          rfl
      | cons second names =>
          have later := ih (List.cons_ne_nil _ _)
          unfold joinAll at later ⊢
          rw [List.cons_append, List.cons_append, List.intercalate_cons_cons, ← List.cons_append,
            later, List.intercalate_cons_cons, ← List.append_assoc]

theorem directory_append (before : Text) {last : Text} (noSlash : .char '/' ∉ last) :
    directory (before ++ .char '/' :: last) =
      if (before ++ [CodePoint.char '/']).all (· == CodePoint.char '/') then
        before ++ [CodePoint.char '/']
      else Text.trimEnd (· == CodePoint.char '/') before := by
  have behind : (before ++ .char '/' :: last).reverse.dropWhile (· != .char '/') =
    .char '/' :: before.reverse :=
    Text.dropWhile_reverse_append_cons noSlash before
  rw [directory, behind, List.reverse_cons, List.reverse_reverse, Text.trimEnd_concat_self]

/-- No slash ends a rooted path but that of the root. -/
theorem exists_rooted_eq_concat (each : ∀ name ∈ names, IsName name) (some : names ≠ []) :
    ∃ front c, rooted names = front ++ [c] ∧ c ≠ .char '/' := by
  rcases List.eq_nil_or_concat' names with rfl | ⟨above, last, rfl⟩
  · exact (some rfl).elim
  have isName := each last (List.mem_append_right _ List.mem_cons_self)
  rcases List.eq_nil_or_concat' last with rfl | ⟨front, c, rfl⟩
  · exact (isName.nonempty rfl).elim
  have other : c ≠ .char '/' := by
    rintro rfl
    exact isName.noSlash (List.mem_append_right _ List.mem_cons_self)
  by_cases top : above = []
  · subst top
    refine ⟨.char '/' :: front, c, ?_, other⟩
    rw [rooted, joinAll, List.nil_append, List.intercalate_singleton]
    rfl
  · refine ⟨.char '/' :: (joinAll above ++ .char '/' :: front), c, ?_, other⟩
    rw [rooted, joinAll_concat top, List.cons_append, List.append_assoc]
    rfl

/-- The directory of a rooted path is the path without its last name. -/
theorem directory_rooted (each : ∀ name ∈ names, IsName name) :
    directory (rooted names) = rooted names.dropLast := by
  rcases List.eq_nil_or_concat' names with rfl | ⟨above, last, rfl⟩
  · rfl
  rw [List.dropLast_concat]
  have noSlash := (each last (List.mem_append_right _ List.mem_cons_self)).noSlash
  by_cases top : above = []
  · subst top
    have shape : rooted [last] = [] ++ .char '/' :: last :=
      congrArg (CodePoint.char '/' :: ·) List.intercalate_singleton
    rw [List.nil_append, shape, directory_append [] noSlash]
    rfl
  obtain ⟨front, c, ends, other⟩ :=
    exists_rooted_eq_concat (fun name member => each name (List.mem_append_left _ member)) top
  have shape : rooted (above ++ [last]) = rooted above ++ .char '/' :: last := by
    rw [rooted, joinAll_concat top, rooted, List.cons_append]
  rw [shape, directory_append _ noSlash, ends, Text.trimEnd_concat front (by simpa using other),
    if_neg (by simp [other])]

end Directory

end FontScaffold.Path
