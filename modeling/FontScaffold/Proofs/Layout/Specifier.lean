import FontScaffold.Proofs.File.Splice
import FontScaffold.Proofs.Path.Relative

set_option autoImplicit false

namespace FontScaffold.Layout

open Edit File

/-- The block imports all fonts from `specifier`, and may tell how to import `exportName` alone from
there. -/
def Imports (exportName specifier block : Text) : Prop :=
  ∃ hint, block = "import localfonts from \"".text ++ specifier ++ [.char '"'] ++
      .char '\n' :: hint ∧
    (hint = [] ∨ hint =
      "// OR IMPORT FONTS AS NAMED EXPORTS".text ++ "\n// import \x7b ".text ++ exportName ++
        " \x7d from \"".text ++ specifier ++ "\"\n".text)

/-- What adding the import of the fonts puts into a layout is a block that imports them from
`specifier`, unless the first line of that is there. It does put it there if there is a place for
it, a file can be made beside the layout, and the block can be written. -/
def Composes (settings : Settings) (layout directory : Text) (naming : Naming) (specifier : Text) :
    Prop :=
  ∀ before text exportName strict, Holds settings before.tree layout text →
    ∃ block, Imports exportName specifier block ∧
      (∀ after, addImport settings layout directory exportName naming strict before =
          .ok true after →
        Text.hasLine ((Text.visibleLines block).head?.getD []) text ∧ Quiet before after ∨
          ∃ final, InsertedBelowImports block text final ∧ Holds settings after.tree layout final) ∧
      (before.tree.Grounded →
        (∃ created, before.tree.createTemporary settings.workingDirectory layout = .ok created) →
        (∃ above line below, Text.lines text = above ++ line :: below ∧ IsBoundary above line) →
        Text.WellFormed block →
        ∃ after, addImport settings layout directory exportName naming strict before =
          .ok true after)

variable {settings : Settings} {layout directory : Text} {naming : Naming}

theorem imports_statement (exportName specifier : Text) (firstUse : Bool) :
    Imports exportName specifier (statement exportName specifier firstUse) := by
  cases firstUse with
  | false => exact ⟨[], rfl, Or.inl rfl⟩
  | true => exact ⟨_, rfl, Or.inr rfl⟩

theorem place_of_boundary {before : Workspace} {text block : Text} {created : Location × Tree}
    (holds : Holds settings before.tree layout text) (grounded : before.tree.Grounded)
    (opened : before.tree.createTemporary settings.workingDirectory layout = .ok created)
    {above below : List Text} {line : Text} (cut : Text.lines text = above ++ line :: below)
    (isBoundary : IsBoundary above line) (wellFormed : Text.WellFormed block) (strict : Bool) :
    ∃ after, place settings layout block strict before = .ok true after := by
  by_cases there : Text.hasLine ((Text.visibleLines block).head?.getD []) text
  · obtain ⟨after, done, _⟩ := place_of_hasLine holds there strict
    exact ⟨after, done⟩
  obtain ⟨bytes, found, decoded⟩ := holds
  obtain ⟨written, encoded⟩ := Utf8.exists_encode_iff.mpr wellFormed
  obtain ⟨after, _, done, _⟩ := (goesBelowImports grounded found decoded opened block).goesIn
    above line below cut isBoundary written encoded
  refine ⟨after, ?_⟩
  unfold place
  rw [bind_of_ok (read_eq_ok.mpr ⟨⟨bytes, found, decoded⟩, rfl⟩), if_neg there, bind_of_ok done]
  rfl

theorem composes_of_way {path : Text}
    (way : importPath settings.workingDirectory layout directory naming = .ok path) :
    Composes settings layout directory naming
      (Layout.specifier settings.workingDirectory path naming.aliasName naming.root) := by
  intro before text exportName strict holds
  refine ⟨_, imports_statement exportName _ (!before.config.isSetUp), ?_, ?_⟩
  · intro after done
    rw [addImport_of_way way] at done
    rcases place_eq_ok done holds with ⟨there, quiet⟩ | ⟨_, _, _, inserted⟩
    · exact Or.inl ⟨there.symm, quiet⟩
    · exact Or.inr inserted
  · rintro grounded ⟨created, opened⟩ ⟨above, line, below, cut, isBoundary⟩ wellFormed
    rw [addImport_of_way way]
    exact place_of_boundary holds grounded opened cut isBoundary wellFormed strict

/-- Without an alias the specifier in the layout begins with a dot. Joined to the directory of the
layout and brought into normal form, it is the directory of the fonts, unless there is a backslash
on the way; only the path of the fonts or the working directory can bring one in. -/
theorem specifier_leads_to_fonts (cwdRoot : Path.root settings.workingDirectory = [.char '/'])
    (noAlias : given naming.aliasName = none)
    (layoutRoot : Path.root layout ≠ [.char '/', .char '/'])
    (oneRoot : Path.root directory ≠ [.char '/', .char '/']) :
    let site := Path.directory (Path.absolute settings.workingDirectory layout)
    let goal := Path.absolute settings.workingDirectory directory
    ∃ way specifier, Path.relative? settings.workingDirectory goal site = some way ∧
      Composes settings layout directory naming specifier ∧
      Path.Specifies way site goal specifier ∧
      (.char '\\' ∉ directory →
        .char '\\' ∉ settings.workingDirectory ∨ Path.isAbsolute directory → .char '\\' ∉ way) := by
  intro site goal
  obtain ⟨file, fileNames⟩ := Path.absolute_eq_rooted cwdRoot layoutRoot
  obtain ⟨target, goalNames⟩ := Path.absolute_eq_rooted cwdRoot oneRoot
  have siteNames : ∀ name ∈ (Path.normalSteps
    (Path.join settings.workingDirectory layout)).dropLast,
      Path.IsName name :=
    fun name member => fileNames name (List.dropLast_subset _ member)
  have above : site = Path.rooted _ := (congrArg Path.directory file).trans
    (Path.directory_rooted fileNames)
  have origin := (congrArg (Path.absolute settings.workingDirectory) above).trans
    (Path.absolute_rooted settings.workingDirectory siteNames)
  have destination := (congrArg (Path.absolute settings.workingDirectory) target).trans
    (Path.absolute_rooted settings.workingDirectory goalNames)
  have proper : goal ≠ [] := fun none => Path.rooted_ne_nil _ (target.symm.trans none)
  obtain ⟨way, found, specifies⟩ :=
    Path.exists_specifies proper origin destination siteNames goalNames
  have importPathFound : importPath settings.workingDirectory layout directory naming =
    .ok way := by
    rw [importPath, noAlias]
    simp only [show Path.relative? settings.workingDirectory
      (Path.absolute settings.workingDirectory directory)
      (Path.directory (Path.absolute settings.workingDirectory layout)) = some way from found]
  refine ⟨way, Path.specifier way, found, ?_, ?_, ?_⟩
  · have composes := composes_of_way importPathFound
    rwa [Layout.specifier, noAlias] at composes
  · rw [above, show goal = Path.rooted _ from target]
    exact specifies
  · intro plain outside
    have joined := Path.isAbsolute_of_root (Path.root_join_of_root cwdRoot oneRoot)
    exact Path.not_mem_relative (by decide) (by decide) origin destination siteNames goalNames
      (Path.not_mem_normalSteps (by decide) plain outside joined) found

/-- An empty alias is none. The layout lies above the working directory, the fonts beside it. -/
theorem outer_layout_leads_to_fonts :
    ∃ way specifier, Path.relative? "/app/site".text "/app/shared/fonts".text
    [.char '/'] = some way ∧
      Composes (Settings.ofEnvironment "/app/site".text []) "../.././layout.tsx".text
        "../shared//fonts/".text ⟨some [], none⟩ specifier ∧
      Path.Specifies way [.char '/'] "/app/shared/fonts".text specifier ∧ .char '\\' ∉ way := by
  obtain ⟨way, specifier, found, composes, specifies, plain⟩ :=
    @specifier_leads_to_fonts (Settings.ofEnvironment "/app/site".text [])
      "../.././layout.tsx".text "../shared//fonts/".text ⟨some [], none⟩ (by decide) rfl
      (by decide) (by decide)
  exact ⟨way, specifier, found, composes, specifies, plain (by decide) (Or.inl (by decide))⟩

def outsideLayout : Workspace where
  tree := ⟨[
    (["project".utf8, "x".utf8, "layout.tsx".utf8],
      .file "import a\n\n".utf8 0o644),
    (["project".utf8, "x".utf8], .directory),
    (["project".utf8, "a\\b".utf8], .directory),
    (["project".utf8], .directory)]⟩
  config := { path := "c.json".text, isSetUp := true }
  log := []

/-- A working directory may have a backslash in its name. A layout elsewhere then imports the fonts
without it, from another place. -/
theorem backslash_misplaces :
    let settings := Settings.ofEnvironment "/project/a\\b".text []
    let layout := "/project/x/layout.tsx".text
    let directory := "fonts".text
    (∃ after, addImport settings layout directory "Inter".text ⟨none, none⟩ false outsideLayout =
        .ok true after ∧ after.tree.read settings.workingDirectory layout = .ok
          "import a\nimport localfonts from \"../a/b/fonts\"\n\n".utf8) ∧
      Path.normalize (Path.join (Path.directory (Path.absolute settings.workingDirectory layout))
          "../a/b/fonts".text) ≠
        Path.absolute settings.workingDirectory directory ∧
      .char '\\' ∉ layout ∧ .char '\\' ∉ directory := by
  intro settings layout directory
  refine ⟨?_, by decide +kernel, by decide, by decide⟩
  have way : importPath settings.workingDirectory layout directory ⟨none, none⟩ =
      .ok "../a\\b/fonts".text := by decide +kernel
  have block : statement "Inter".text
      (specifier settings.workingDirectory "../a\\b/fonts".text none none)
      (!outsideLayout.config.isSetUp) = "import localfonts from \"../a/b/fonts\"\n".text := by
    decide +kernel
  rw [addImport_of_way way, block]
  let edit := place settings layout "import localfonts from \"../a/b/fonts\"\n".text false
  have success : outcome edit outsideLayout = .ok true := by
    decide +kernel
  have holds : (leaves edit outsideLayout).tree.read settings.workingDirectory layout = .ok
      "import a\nimport localfonts from \"../a/b/fonts\"\n\n".utf8 := by
    decide +kernel
  obtain ⟨after, done⟩ := outcome_eq_ok.mp success
  rw [leaves_of_ok done] at holds
  exact ⟨after, done, holds⟩

end FontScaffold.Layout
