import FontScaffold.Project
import FontScaffold.Proofs.Text.Basic
import Mathlib.Algebra.Group.Nat.Defs
import Mathlib.Data.List.Infix
import Mathlib.Logic.Function.Iterate

set_option autoImplicit false

namespace FontScaffold.Layout

section Slashes

/-- One slash for each run of slashes: of a run, the last one stays. -/
def collapse : Text → Text
  | [] => []
  | c :: rest =>
    if c = .char '/' ∧ rest.head? = some (.char '/') then collapse rest else c :: collapse rest

theorem collapse_cons_congr (c : CodePoint) {text other : Text} (head : text.head? = other.head?)
    (same : collapse text = collapse other) : collapse (c :: text) = collapse (c :: other) := by
  rw [collapse, collapse, head, same]

theorem head_halveSlashes (text : Text) : (halveSlashes text).head? = text.head? := by
  fun_cases halveSlashes text <;> rfl

theorem collapse_halveSlashes (text : Text) : collapse (halveSlashes text) = collapse text := by
  fun_induction halveSlashes text with
  | case1 => rfl
  | case2 rest ih =>
      have pair : collapse (.char '/' :: .char '/' :: rest) = collapse (.char '/' :: rest) :=
        if_pos ⟨rfl, rfl⟩
      rw [pair, collapse_cons_congr (.char '/') (head_halveSlashes rest) ih]
  | case3 c rest _ ih => exact collapse_cons_congr c (head_halveSlashes rest) ih

theorem collapse_of_single {text : Text} (single : ¬[.char '/', .char '/'] <:+: text) :
    collapse text = text := by
  induction text with
  | nil => rfl
  | cons c rest ih =>
      have apart : ¬(c = .char '/' ∧ rest.head? = some (.char '/')) := by
        rintro ⟨rfl, head⟩
        obtain ⟨tail, rfl⟩ : ∃ tail, rest = .char '/' :: tail := by
          cases rest with
          | nil => cases head
          | cons d tail => exact ⟨tail, congrArg (· :: tail) (Option.some.inj head)⟩
        exact single ⟨[], tail, rfl⟩
      rw [collapse, if_neg apart, ih fun later => single (List.infix_cons later)]

theorem singleSlashes_eq_collapse (text : Text) : singleSlashes text = collapse text := by
  fun_induction singleSlashes text with
  | case1 text double shorter ih => rw [ih, collapse_halveSlashes]
  | case2 text single =>
      exact (collapse_of_single fun double => single (Text.occursIn_iff.mpr double)).symm

end Slashes

section Tidy

/-- No stars, slashes for backslashes, and one slash for a run of them. -/
def tidy (text : Text) : Text :=
  collapse ((text.filter (· ≠ .char '*')).map fun c => if c = .char '\\' then .char '/' else c)

theorem cleanAlias_eq_tidy (text : Text) : cleanAlias text = tidy text := by
  rw [cleanAlias, singleSlashes_eq_collapse, Text.replaceChar_eq_map, tidy]

def letters (text : Text) : Text :=
  text.filter fun c => c ≠ .char '*' ∧ c ≠ .char '\\' ∧ c ≠ .char '/'

theorem letters_append (before after : Text) :
    letters (before ++ after) = letters before ++ letters after :=
  List.filter_append ..

theorem letters_collapse (text : Text) : letters (collapse text) = letters text := by
  induction text with
  | nil => rfl
  | cons c rest ih =>
      unfold letters at ih ⊢
      rw [collapse]
      split
      · next run => rw [ih, List.filter_cons_of_neg (by simp [run.1])]
      · rw [List.filter_cons, List.filter_cons, ih]

theorem letters_tidy (text : Text) : letters (tidy text) = letters text := by
  rw [tidy, letters_collapse]
  unfold letters
  induction text with
  | nil => rfl
  | cons c rest ih =>
      by_cases star : c = .char '*'
      · simp_all
      · by_cases back : c = .char '\\' <;> simp_all [List.filter_cons]

end Tidy

section Alias

variable {cwd name root path : Text}

theorem specifier_named (cwd path : Text) (root : Option Text) (named : name ≠ []) :
    specifier cwd path (some name) root =
      cleanAlias (Text.replaceFirst ((given root).getD cwd) name path) := by
  have given : given (some name) = some name := Option.filter_some_pos (by simpa using named)
  rw [specifier, given]

theorem specifier_alias (cwd path : Text) (named : name ≠ []) (rooted : root ≠ []) :
    specifier cwd path (some name) (some root) = tidy (Text.replaceFirst root name path) := by
  have given : given (some root) = some root := Option.filter_some_pos (by simpa using rooted)
  rw [specifier_named cwd path (some root) named, given]
  exact cleanAlias_eq_tidy _

/-- Under an alias a path that begins with the root, as every path below it does, keeps what follows
the root. Where the root's text occurs further right, on the way or at the start of a longer name,
it is replaced there. So unless the alias is the root but for stars and slashes, the path is only
tidied up exactly if the root's text occurs nowhere in it. -/
theorem specifier_alias_iff (cwd path : Text) (named : name ≠ []) (rooted : root ≠ []) :
    let result := specifier cwd path (some name) (some root)
    (∀ rest, path = root ++ rest → result = tidy (name ++ rest)) ∧
    (∀ before after, Text.breakOn root path = some (before, after) →
      result = tidy (before ++ name ++ after)) ∧
    (¬root <:+: path → result = tidy path) ∧
    (letters name ≠ letters root → (result = tidy path ↔ ¬root <:+: path)) := by
  rw [specifier_alias cwd path named rooted]
  intro result
  have swapped : ∀ before after, Text.breakOn root path = some (before, after) →
      result = tidy (before ++ name ++ after) := by
    intro before after found
    simp only [result, Text.replaceFirst, found]
  have outside : ¬root <:+: path → result = tidy path := by
    intro absent
    simp only [result, Text.replaceFirst, Text.breakOn_eq_none_iff.mpr absent]
  refine ⟨?_, swapped, outside, fun different => ⟨?_, outside⟩⟩
  · rintro rest rfl
    exact swapped [] rest (Text.breakOn_eq_some rfl fun _ _ _ => Nat.zero_le _)
  · intro same occurs
    obtain ⟨⟨before, after⟩, found⟩ := Option.isSome_iff_exists.mp (Text.occursIn_iff.mpr occurs)
    have alike := congrArg letters same
    rw [swapped before after found, letters_tidy, letters_tidy, Text.eq_append_of_breakOn found,
      letters_append, letters_append, letters_append, letters_append] at alike
    exact different (List.append_cancel_left (List.append_cancel_right alike))

theorem fonts_below_root_named :
    specifier "/home".text "/app/src/*/fonts".text (some "@/*".text) (some "/app".text) =
        "@/src/fonts".text ∧
      specifier "/home".text "/srv/fonts".text (some "@/*".text) (some "/app".text) =
        "/srv/fonts".text := by
  have some : "@/*".text ≠ [] := by decide
  have proper : "/app".text ≠ [] := by decide
  obtain ⟨below, _⟩ := specifier_alias_iff "/home".text "/app/src/*/fonts".text some proper
  obtain ⟨_, _, outside, _⟩ := specifier_alias_iff "/home".text "/srv/fonts".text some proper
  exact ⟨below "/src/*/fonts".text (by decide), outside (by decide)⟩

/-- A sibling whose name begins with that of the root is not below it, and is renamed. -/
theorem sibling_of_root_renamed :
    Path.normalize "/app2/fonts".text = "/app2/fonts".text ∧
      Path.normalize "/app".text = "/app".text ∧
      "/app2/fonts".text ≠ "/app".text ∧ ¬"/app/".text <+: "/app2/fonts".text ∧
      specifier "/home".text "/app2/fonts".text (some "@/*".text) (some "/app".text) =
        "@/2/fonts".text ∧
      tidy "/app2/fonts".text = "/app2/fonts".text := by
  rw [specifier_alias _ _ (by decide) (by decide)]
  decide +kernel

end Alias

section Halving

/-- So many slashes stand in a row somewhere in the text. -/
def HasRun (size : Nat) (text : Text) : Prop :=
  List.replicate size (.char '/') <:+: text

instance (size : Nat) (text : Text) : Decidable (HasRun size text) :=
  inferInstanceAs (Decidable (_ <:+: _))

theorem hasRun_two_iff {text : Text} : HasRun 2 text ↔ Text.occursIn [.char '/', .char '/'] text :=
  Text.occursIn_iff.symm

theorem replicate_prefix_succ (c : CodePoint) (size : Nat) :
    List.replicate size c <+: List.replicate (size + 1) c :=
  ⟨[c], (List.replicate_succ' ..).symm⟩

theorem HasRun.of_le {size longer : Nat} {text : Text} (le : size ≤ longer)
    (run : HasRun longer text) : HasRun size text := by
  induction longer, le using Nat.le_induction with
  | base => exact run
  | succ longer _ ih => exact ih ((replicate_prefix_succ (.char '/') longer).isInfix.trans run)

theorem replicate_prefix_cons_iff {c : CodePoint} {size : Nat} {rest : Text} :
    List.replicate (size + 1) (.char '/') <+: c :: rest ↔
    c = .char '/' ∧ List.replicate size (.char '/') <+: rest := by
  rw [List.replicate_succ, List.cons_prefix_cons, eq_comm]

theorem hasRun_cons_iff {c : CodePoint} {size : Nat} {rest : Text} :
    HasRun size (c :: rest) ↔ List.replicate size (.char '/') <+: c :: rest ∨ HasRun size rest :=
  List.infix_cons_iff

/-- A round leaves half of the slashes at the beginning, rounded up. -/
theorem replicate_prefix_halveSlashes_iff (size : Nat) (text : Text) :
    List.replicate (size + 1) (.char '/') <+: halveSlashes text ↔
      List.replicate (2 * size + 1) (.char '/') <+: text := by
  fun_induction halveSlashes text generalizing size with
  | case1 => simp
  | case2 rest ih =>
      cases size with
      | zero => simp
      | succ size =>
          rw [replicate_prefix_cons_iff, ih, Nat.mul_succ, replicate_prefix_cons_iff,
            replicate_prefix_cons_iff]
          simp
  | case3 c rest single ih =>
      cases size with
      | zero => simp
      | succ size =>
          rw [replicate_prefix_cons_iff, ih, Nat.mul_succ, replicate_prefix_cons_iff]
          refine and_congr_right fun slash => ?_
          -- No slash follows this one, so neither side has two.
          have alone : ∀ more, ¬List.replicate (more + 1) (.char '/') <+: rest := by
            rintro more ⟨tail, rfl⟩
            exact single (List.replicate more (.char '/') ++ tail) slash rfl
          exact iff_of_false (alone _) (alone _)

/-- A round halves every run, rounded up. -/
theorem hasRun_halveSlashes_iff (size : Nat) (text : Text) :
    HasRun (size + 1) (halveSlashes text) ↔ HasRun (2 * size + 1) text := by
  have start := replicate_prefix_halveSlashes_iff size text
  fun_induction halveSlashes text with
  | case1 => simp [HasRun]
  | case2 rest ih =>
      have later : HasRun (size + 1) (halveSlashes rest) ↔ HasRun (2 * size + 1) rest :=
        ih (replicate_prefix_halveSlashes_iff size rest)
      -- A run from the second slash of the pair on may as well begin at the first one.
      have earlier : List.replicate (2 * size + 1) (.char '/') <+: .char '/' :: rest →
          List.replicate (2 * size + 1) (.char '/') <+: .char '/' :: .char '/' :: rest := fun run =>
        replicate_prefix_cons_iff.mpr ⟨rfl, (replicate_prefix_succ (.char '/') _).trans run⟩
      rw [hasRun_cons_iff, start, later, hasRun_cons_iff, hasRun_cons_iff, ← or_assoc,
        or_iff_left_of_imp earlier]
  | case3 c rest _ ih =>
      have later : HasRun (size + 1) (halveSlashes rest) ↔ HasRun (2 * size + 1) rest :=
        ih (replicate_prefix_halveSlashes_iff size rest)
      rw [hasRun_cons_iff, start, later, hasRun_cons_iff]

/-- After some rounds two slashes still stand side by side exactly if a run was longer than that
power of two. -/
theorem hasRun_rounds_iff (rounds : Nat) (text : Text) :
    HasRun 2 (halveSlashes^[rounds] text) ↔ HasRun (2 ^ rounds + 1) text := by
  induction rounds generalizing text with
  | zero => rfl
  | succ rounds ih =>
      rw [Function.iterate_succ_apply, ih, hasRun_halveSlashes_iff, Nat.pow_succ']

end Halving

section Rounds

/-- Rounds are made as long as two slashes stand side by side. They end after `count` of them, with
`result`. -/
structure Rounds (text result : Text) (count : Nat) : Prop where
  goesOn : ∀ earlier < count, Text.occursIn [.char '/', .char '/'] (halveSlashes^[earlier] text)
  ends : ¬Text.occursIn [.char '/', .char '/'] result
  reached : halveSlashes^[count] text = result

theorem exists_rounds (text : Text) : ∃ count, Rounds text (singleSlashes text) count := by
  fun_induction singleSlashes text with
  | case1 text double _ ih =>
      obtain ⟨count, rounds⟩ := ih
      refine ⟨count + 1, ?_, rounds.ends, rounds.reached⟩
      rintro (_ | earlier) before
      · exact double
      · exact rounds.goesOn earlier (Nat.lt_of_succ_lt_succ before)
  | case2 text single => exact ⟨0, fun _ before => (Nat.not_lt_zero _ before).elim, single, rfl⟩

theorem Rounds.hasRun_iff {text result : Text} {count : Nat} (rounds : Rounds text result count)
    (size : Nat) : HasRun (2 ^ size + 1) text ↔ size < count := by
  constructor
  · intro run
    apply Nat.lt_of_not_le
    intro late
    have power : 2 ^ count ≤ 2 ^ size := Nat.pow_le_pow_right (by omega) late
    have left := (hasRun_rounds_iff count text).mpr (run.of_le (by omega))
    rw [rounds.reached] at left
    exact rounds.ends (hasRun_two_iff.mp left)
  · intro before
    exact (hasRun_rounds_iff size text).mp (hasRun_two_iff.mpr (rounds.goesOn size before))

end Rounds

section Merging

/-- The second text has one slash for each run of slashes in the first, and is the same elsewhere. A
run is taken whole: what follows it does not begin with a slash. -/
inductive RunsMerged : Text → Text → Prop where
  | nil : RunsMerged [] []
  | other {c : CodePoint} {rest merged : Text} (plain : c ≠ .char '/')
      (later : RunsMerged rest merged) :
      RunsMerged (c :: rest) (c :: merged)
  | run {rest merged : Text} (more : Nat) (whole : rest.head? ≠ some (.char '/'))
      (later : RunsMerged rest merged) :
      RunsMerged (List.replicate (more + 1) (.char '/') ++ rest) (.char '/' :: merged)

theorem collapse_run (more : Nat) {rest : Text} (whole : rest.head? ≠ some (.char '/')) :
    collapse (List.replicate (more + 1) (.char '/') ++ rest) = .char '/' :: collapse rest := by
  induction more with
  | zero => exact if_neg fun both => whole both.2
  | succ more ih => rw [← ih, List.replicate_succ, List.cons_append, collapse, if_pos ⟨rfl, rfl⟩]

theorem runsMerged_collapse (text : Text) : RunsMerged text (collapse text) := by
  fun_induction collapse text with
  | case1 => exact .nil
  | case2 c rest run ih =>
      obtain ⟨rfl, head⟩ := run
      -- The rest begins with a slash, so with a run, which this slash makes longer.
      generalize collapse rest = merged at ih ⊢
      cases ih with
      | nil => cases head
      | other plain _ => exact (plain (Option.some.inj head)).elim
      | run more whole later => exact .run (more + 1) whole later
  | case3 c rest apart ih =>
      by_cases slash : c = .char '/'
      · subst slash
        exact .run 0 (fun head => apart ⟨rfl, head⟩) ih
      · exact .other slash ih

theorem collapse_eq_iff {text merged : Text} : collapse text = merged ↔ RunsMerged text merged := by
  constructor
  · rintro rfl
    exact runsMerged_collapse text
  · intro runs
    induction runs with
    | nil => rfl
    | other plain _ ih => rw [collapse, if_neg fun both => plain both.1, ih]
    | run more whole _ ih => rw [collapse_run more whole, ih]

theorem collapse_subset (text : Text) : collapse text ⊆ text := by
  fun_induction collapse text with
  | case1 => exact List.Subset.refl _
  | case2 c rest _ ih => exact List.subset_cons_of_subset c ih
  | case3 c rest _ ih => exact List.cons_subset_cons c ih

end Merging

section Specifier

def slashed (text : Text) : Text :=
  (text.filter (· ≠ .char '*')).map fun c => if c = .char '\\' then .char '/' else c

theorem star_not_mem_slashed (text : Text) : .char '*' ∉ slashed text := by
  intro member
  obtain ⟨c, inside, same⟩ := List.mem_map.mp member
  have kept : c ≠ .char '*' := by simpa using List.of_mem_filter inside
  split at same
  · cases same
  · exact kept same

theorem backslash_not_mem_slashed (text : Text) : .char '\\' ∉ slashed text := by
  intro member
  obtain ⟨c, _, same⟩ := List.mem_map.mp member
  split at same
  · cases same
  · next other => exact other same

theorem cleanAlias_eq_singleSlashes (text : Text) :
    cleanAlias text = singleSlashes (slashed text) := by
  rw [cleanAlias, Text.replaceChar_eq_map, slashed]

variable {name : Text}

/-- Under an alias the rounds that tidy up a specifier come to an end, after as many as it takes to
halve the longest run down to one slash. What comes out is the path with the root replaced, without
stars, with slashes for backslashes, and then with one slash for each run. So it has no star, no
backslash and no two slashes in a row, whatever the path was. -/
theorem specifier_normalised (cwd path : Text) (root : Option Text) (named : name ≠ []) :
    let start := slashed (Text.replaceFirst ((given root).getD cwd) name path)
    let result := specifier cwd path (some name) root
    (∃ count, Rounds start result count ∧ ∀ size, HasRun (2 ^ size + 1) start ↔ size < count) ∧
      (∀ text, result = text ↔ RunsMerged start text) ∧
      .char '*' ∉ result ∧ .char '\\' ∉ result ∧ ¬[.char '/', .char '/'] <:+: result := by
  rw [specifier_named cwd path root named, cleanAlias_eq_singleSlashes]
  intro start result
  obtain ⟨count, rounds⟩ := exists_rounds start
  have merged : result = collapse start := singleSlashes_eq_collapse start
  have within : result ⊆ start := merged ▸ collapse_subset start
  refine ⟨⟨count, rounds, rounds.hasRun_iff⟩, fun text => ?_, fun member => ?_, fun member => ?_,
    fun double => rounds.ends (Text.occursIn_iff.mpr double)⟩
  · rw [merged]
    exact collapse_eq_iff
  · exact star_not_mem_slashed _ (within member)
  · exact backslash_not_mem_slashed _ (within member)

/-- Without a root the working directory is replaced. The four slashes in a row come together only
when the star among them is gone, and one of them was a backslash. They take two rounds. -/
theorem starred_path_normalised :
    "@/*".text ≠ [] ∧
      specifier "/app".text "/app/a//*\\/b".text (some "@/*".text) none = "@/a/b".text ∧
      Rounds "@//a////b".text "@/a/b".text 2 := by
  have named : "@/*".text ≠ [] := by decide
  have start : slashed (Text.replaceFirst "/app".text "@/*".text "/app/a//*\\/b".text) =
      "@//a////b".text := by decide
  obtain ⟨⟨count, rounds, longest⟩, merged, _⟩ :=
    specifier_normalised "/app".text "/app/a//*\\/b".text none named
  have atRoot : (given none).getD "/app".text = "/app".text := rfl
  rw [atRoot, start] at rounds longest merged
  have result := (merged "@/a/b".text).mpr (collapse_eq_iff.mp (by decide))
  have more : 1 < count := (longest 1).mp (by decide)
  have fewer : ¬2 < count := fun early => absurd ((longest 2).mpr early) (by decide)
  obtain rfl : count = 2 := by omega
  rw [result] at rounds
  exact ⟨named, result, rounds⟩

end Specifier

end FontScaffold.Layout
