import FontScaffold.Proofs.File.Access

set_option autoImplicit false

namespace FontScaffold.File

open Edit

/-- Of the tree only one file may have changed, and the config is the same. -/
structure Confined (settings : Settings) (path : Text) (before after : Workspace) : Prop where
  only : OnlyAt settings path before.tree after.tree
  config : after.config = before.config

/-- All other files hold what they held, and the config is the same. -/
structure Sparing (settings : Settings) (path : Text) (before after : Workspace) : Prop where
  files : ∀ other text, Tree.target settings.workingDirectory other ≠
    Tree.target settings.workingDirectory path →
    Holds settings before.tree other text → Holds settings after.tree other text
  config : after.config = before.config

/-- The edit replaces the file that `path` names, or leaves the tree as it is. Its result tells by
`writes` which of the two happened; the new text is one that `becomes` allows for the old tree. -/
structure AllOrNothing {α : Type} (settings : Settings) (path : Text) (writes : α → Bool)
    (becomes : Tree → Text → Prop) (edit : Edit α) : Prop where
  failed : ∀ before fault after, edit before = .error fault after → Quiet before after
  declined : ∀ before result after, edit before = .ok result after → writes result = false →
    Quiet before after
  wrote : ∀ before result after, edit before = .ok result after → writes result = true →
    after.config = before.config ∧ ∃ text, becomes before.tree text ∧
      Tree.Installed before.tree after.tree settings.workingDirectory path text

section Confinement

variable {settings : Settings} {before after : Workspace} {path : Text}

theorem Confined.of_quiet (silent : Quiet before after) : Confined settings path before after :=
  ⟨Or.inl silent.tree, silent.config⟩

theorem Confined.trans {middle : Workspace} (first : Confined settings path before middle)
    (second : Confined settings path middle after) : Confined settings path before after :=
  ⟨first.only.trans second.only, second.config.trans first.config⟩

theorem Confined.sparing (confined : Confined settings path before after) :
    Sparing settings path before after :=
  ⟨fun _ _ different holds => confined.only.holds_other holds different, confined.config⟩

theorem Sparing.of_quiet (silent : Quiet before after) : Sparing settings path before after :=
  (Confined.of_quiet silent).sparing

theorem Sparing.trans {middle : Workspace} (first : Sparing settings path before middle)
    (second : Sparing settings path middle after) : Sparing settings path before after :=
  ⟨fun other text different holds =>
    second.files other text different (first.files other text different holds),
    second.config.trans first.config⟩

theorem AllOrNothing.confined {α : Type} {writes : α → Bool} {becomes : Tree → Text → Prop}
    {edit : Edit α} (edits : AllOrNothing settings path writes becomes edit) (before : Workspace) :
    Confined settings path before (leaves edit before) := by
  cases done : edit before with
  | error fault after =>
      rw [leaves_of_error done]
      exact .of_quiet (edits.failed before fault after done)
  | ok result after =>
      rw [leaves_of_ok done]
      cases wrote : writes result with
      | false => exact .of_quiet (edits.declined before result after done wrote)
      | true =>
          obtain ⟨config, _, _, _, _, replaced⟩ := edits.wrote before result after done wrote
          exact ⟨Or.inr ⟨_, replaced⟩, config⟩

theorem AllOrNothing.confined_of_ok {α : Type} {writes : α → Bool} {becomes : Tree → Text → Prop}
    {edit : Edit α} (edits : AllOrNothing settings path writes becomes edit) {result : α}
    (done : edit before = .ok result after) : Confined settings path before after := by
  have confined := edits.confined before
  rwa [leaves_of_ok done] at confined

end Confinement

section Steps

variable {α β : Type} {settings : Settings} {path : Text} {writes : α → Bool}
  {becomes : Tree → Text → Prop}

/-- An edit that only tells something. -/
theorem AllOrNothing.of_quiet {edit : Edit α}
    (silent : ∀ before, ∃ result after,
      edit before = .ok result after ∧ writes result = false ∧ Quiet before after) :
    AllOrNothing settings path writes becomes edit := by
  constructor
  · intro before fault after failed
    obtain ⟨_, _, done, _⟩ := silent before
    rw [done] at failed
    cases failed
  · intro before result after done _
    obtain ⟨_, _, same, _, quiet⟩ := silent before
    rw [done] at same
    cases same
    exact quiet
  · intro before result after done wrote
    obtain ⟨_, _, same, declined, _⟩ := silent before
    rw [done] at same
    cases same
    rw [wrote] at declined
    cases declined

/-- An edit whose text is found in the tree first. -/
theorem AllOrNothing.after_quiet {first : Edit β} {next : β → Edit α}
    {found : Tree → β → Prop} {allows : β → Text → Prop}
    (failed : ∀ before fault after, first before = .error fault after → Quiet before after)
    (silent : ∀ before value after, first before = .ok value after →
      Quiet before after ∧ found before.tree value)
    (edits : ∀ value, AllOrNothing settings path writes (fun _ => allows value) (next value)) :
    AllOrNothing settings path writes (fun tree text => ∃ value, found tree value ∧
    allows value text)
      (first >>= next) := by
  constructor
  · intro before fault after done
    rcases bind_eq_error.mp done with here | ⟨value, middle, here, there⟩
    · exact failed before fault after here
    · exact (silent before value middle here).1.trans
        ((edits value).failed middle fault after there)
  · intro before result after done declined
    obtain ⟨value, middle, here, there⟩ := Edit.bind_eq_ok.mp done
    exact (silent before value middle here).1.trans
      ((edits value).declined middle result after there declined)
  · intro before result after done wrote
    obtain ⟨value, middle, here, there⟩ := Edit.bind_eq_ok.mp done
    obtain ⟨quiet, isFound⟩ := silent before value middle here
    obtain ⟨config, text, allowed, replaced⟩ :=
      (edits value).wrote middle result after there wrote
    rw [quiet.tree] at replaced
    exact ⟨config.trans quiet.config, text, ⟨value, isFound, allowed⟩, replaced⟩

/-- An edit that is told of afterwards. -/
theorem AllOrNothing.followed {first : Edit β} {next : β → Edit α} {wrote : β → Bool}
    (edits : AllOrNothing settings path wrote becomes first)
    (silent : ∀ value before, ∃ result after, next value before = .ok result after ∧
      writes result = wrote value ∧ Quiet before after) :
    AllOrNothing settings path writes becomes (first >>= next) := by
  constructor
  · intro before fault after done
    rcases bind_eq_error.mp done with here | ⟨value, middle, _, there⟩
    · exact edits.failed before fault after here
    · obtain ⟨_, _, same, _⟩ := silent value middle
      rw [there] at same
      cases same
  · intro before result after done declined
    obtain ⟨value, middle, here, there⟩ := Edit.bind_eq_ok.mp done
    obtain ⟨_, _, same, told, quiet⟩ := silent value middle
    rw [there] at same
    cases same
    rw [declined] at told
    exact (edits.declined before value middle here told.symm).trans quiet
  · intro before result after done isWritten
    obtain ⟨value, middle, here, there⟩ := Edit.bind_eq_ok.mp done
    obtain ⟨_, _, same, told, quiet⟩ := silent value middle
    rw [there] at same
    cases same
    rw [isWritten] at told
    obtain ⟨config, text, allowed, replaced⟩ := edits.wrote before value middle here told.symm
    rw [← quiet.tree] at replaced
    exact ⟨quiet.config.trans config, text, allowed, replaced⟩

theorem AllOrNothing.mono {allows : Tree → Text → Prop} {edit : Edit α}
    (edits : AllOrNothing settings path writes becomes edit)
    (more : ∀ tree text, becomes tree text → allows tree text) :
    AllOrNothing settings path writes allows edit := by
  refine ⟨edits.failed, edits.declined, ?_⟩
  intro before result after done wrote
  obtain ⟨config, text, allowed, replaced⟩ := edits.wrote before result after done wrote
  exact ⟨config, text, more before.tree text allowed, replaced⟩

end Steps

variable {settings : Settings} {path : Text}

theorem allOrNothing_write (text operation : Text) :
    AllOrNothing settings path (fun _ => true) (fun _ final => final = text)
      (File.write settings path text operation) := by
  constructor
  · intro before fault after failed
    exact (quiet_of_write_error failed).1
  · intro before result after done declined
    cases declined
  · intro before result after done _
    obtain ⟨installed, config⟩ := installed_of_write done
    exact ⟨config, text, rfl, installed⟩

theorem AllOrNothing.after_read {α : Type} {writes : α → Bool} {allows : Text → Text → Prop}
    {next : Text → Edit α} {operation : Text}
    (edits : ∀ text, AllOrNothing settings path writes (fun _ => allows text) (next text)) :
    AllOrNothing settings path writes
      (fun tree final => ∃ text, Holds settings tree path text ∧ allows text final)
      (File.read settings path operation >>= next) := by
  refine .after_quiet (fun _ _ _ => quiet_of_read_error) ?_ edits
  intro before text after done
  obtain ⟨holds, rfl⟩ := read_eq_ok.mp done
  exact ⟨Quiet.refl _, holds⟩

end FontScaffold.File
