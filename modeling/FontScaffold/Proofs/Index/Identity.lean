import FontScaffold.Proofs.Index.Canonical

set_option autoImplicit false

namespace FontScaffold.Font

variable {cwd directory : Text} {font : Font} {fonts : List Font}

theorem exists_specifier (some : font.path ≠ []) :
    ∃ path, font.specifier cwd directory = .ok path := by
  obtain ⟨way, found⟩ : ∃ way, Path.relative? cwd font.path directory = Option.some way := by
    unfold Path.relative?
    rw [if_neg (mt List.isEmpty_iff.mp some)]
    dsimp only
    split <;> exact ⟨_, rfl⟩
  unfold specifier
  rw [found]
  exact ⟨_, rfl⟩

theorem exists_entry (some : font.path ≠ []) : ∃ value, entry cwd directory font = .ok value := by
  obtain ⟨path, found⟩ := @exists_specifier cwd directory font some
  unfold entry
  rw [found]
  exact ⟨_, rfl⟩

/-- Fonts with paths can be written. -/
theorem exists_sourceText (some : fonts ≠ []) (paths : ∀ font ∈ fonts, font.path ≠ []) :
    ∃ text, sourceText cwd directory fonts = .ok text := by
  obtain ⟨value, found⟩ : ∃ value, source cwd directory fonts = .ok value := by
    unfold source
    split
    · exact (some rfl).elim
    · next font =>
        obtain ⟨path, found⟩ := @exists_specifier cwd directory font (paths font List.mem_cons_self)
        rw [found]
        exact ⟨_, rfl⟩
    · obtain ⟨values, each⟩ := exists_mapM fun font member =>
        @exists_entry cwd directory font (paths font member)
      rw [each]
      exact ⟨_, rfl⟩
  unfold sourceText
  rw [found]
  exact ⟨_, rfl⟩

end FontScaffold.Font

namespace FontScaffold.Index

open Chunk

section Kinds

/-- What a chunk of an index declares: the loader, a family, or all families. -/
inductive Kind where
  | heading
  | named (name : Text)
  | listing
  deriving Repr, DecidableEq

/-- The words by which a declaration is known. -/
def Kind.words : Kind → List Text
  | .heading => headingWords
  | .named name => exportWords name
  | .listing => listWords

/-- A rendered chunk, completed or not: the import line, the export of a family with any fonts, or a
default export of any identifiers. -/
inductive OfKind : Kind → Text → Prop
  | heading {chunk : Text}
      (copy : complete blankLine chunk = complete blankLine (defaultImport ++ [.char '\n'])) :
      OfKind .heading chunk
  | named {cwd directory text chunk : Text} {family : Family} (isName : IsName family.name)
      (rendered : namedExport cwd directory family = .ok text)
      (copy : complete blankLine chunk = complete blankLine text) :
      OfKind (.named family.name) chunk
  | listing {names : List Text} {chunk : Text} (identifiers : ∀ name ∈ names, isIdentifier name)
      (copy : complete blankLine chunk = complete blankLine (defaultExport names)) :
      OfKind .listing chunk

variable {kind other : Kind} {name first second chunk : Text}

theorem exports_of_rendered {cwd directory text : Text} {family : Family}
    (isName : IsName family.name) (rendered : namedExport cwd directory family = .ok text)
    (copy : complete blankLine chunk = complete blankLine text) : Exports family.name chunk := by
  obtain ⟨body, block, led, rfl⟩ := exports_of_namedExport isName.identifier rendered
  exact ⟨body, block, led, copy.trans block.complete_line⟩

theorem OfKind.tokenSet_eq (ofKind : OfKind kind chunk) :
    tokenSet blankLine chunk = kind.words.toFinset := by
  cases ofKind with
  | heading copy => exact tokenSet_of_heading copy
  | named isName rendered copy =>
      exact tokenSet_of_exports isName (exports_of_rendered isName rendered copy)
  | listing identifiers copy =>
      exact tokenSet_of_lists ((lists_defaultExport identifiers).copy copy)

theorem OfKind.isName (ofKind : OfKind (.named name) chunk) : IsName name := by
  cases ofKind with
  | named isName _ _ => exact isName

theorem OfKind.card_eq (ofKind : OfKind kind chunk) : (tokenSet blankLine chunk).card = 4 := by
  rw [ofKind.tokenSet_eq]
  cases kind with
  | heading => exact card_headingWords
  | named name => exact card_exportWords ofKind.isName
  | listing => decide

theorem not_mem_exportWords (isName : IsName name) {word : Text}
    (other : word ∉ ["export".text, "const".text, "=".text])
    (improper : isIdentifier word = false) : word ∉ exportWords name := by
  intro member
  simp only [exportWords, List.mem_cons, List.not_mem_nil, or_false, not_or] at member other
  rcases member with same | same | rfl | same
  · exact other.1 same
  · exact other.2.1 same
  · rw [isName.identifier] at improper
    cases improper
  · exact other.2.2 same

/-- Kinds are told apart by one word: the loader's module, the brace, or the name. -/
theorem OfKind.eq_of_words (left : OfKind kind first) (right : OfKind other second)
    (same : kind.words.toFinset = other.words.toFinset) : kind = other := by
  have moved : ∀ word ∈ kind.words, word ∈ other.words := by
    intro word member
    rwa [← List.mem_toFinset, ← same, List.mem_toFinset]
  cases kind with
  | heading =>
      have loader := moved "\"next/font/local\"".text (by decide)
      cases other with
      | heading => rfl
      | named name =>
          exact absurd loader (not_mem_exportWords right.isName (by decide) (by decide))
      | listing => exact absurd loader (by decide)
  | named name =>
      have const := moved "const".text (by simp [Kind.words, exportWords])
      have own := moved name (by simp [Kind.words, exportWords])
      cases other with
      | heading => exact absurd const (by decide)
      | named font => rw [(mem_exportWords_iff left.isName).mp own]
      | listing => exact absurd const (by decide)
  | listing =>
      have brace := moved "\x7b".text (by decide)
      cases other with
      | heading => exact absurd brace (by decide)
      | named name =>
          exact absurd brace (not_mem_exportWords right.isName (by decide) (by decide))
      | listing => rfl

theorem OfKind.accepts_iff (left : OfKind kind first) (right : OfKind other second) :
    Matcher.standard.accepts blankLine first second ↔ kind = other := by
  rw [Matcher.accepts_iff_eq_of_four left.card_eq right.card_eq, left.tokenSet_eq,
    right.tokenSet_eq]
  constructor
  · exact left.eq_of_words right
  · rintro rfl
    rfl

end Kinds

section Content

variable {settings : Settings} {directory : Text} {config : Config} {families : List Family}

theorem intercalate_concat (separator : Text) (texts : List Text) (last : Text) :
    separator.intercalate (texts ++ [last]) = texts.flatMap (· ++ separator) ++ last := by
  induction texts with
  | nil => exact List.intercalate_singleton
  | cons text texts ih =>
      have some : texts ++ [last] ≠ [] :=
        List.append_ne_nil_of_right_ne_nil _ (List.cons_ne_nil _ _)
      rw [List.cons_append, List.intercalate_cons_of_ne_nil some, ih, List.flatMap_cons,
        List.append_assoc, List.append_assoc, List.append_assoc]

def importLines (settings : Settings) (config : Config) : List Text :=
  if config.isSetUp then [] else [settings.loaderImport ++ [.char '\n']]

theorem exists_render
    (fonts : ∀ family ∈ families, family.fonts ≠ [] ∧ ∀ font ∈ family.fonts, font.path ≠ []) :
    ∃ parts, render settings directory config families = .ok parts := by
  have each : ∀ family ∈ families,
      ∃ text, namedExport settings.workingDirectory directory family = .ok text := by
    intro family member
    obtain ⟨some, paths⟩ := fonts family member
    obtain ⟨source, found⟩ := @Font.exists_sourceText settings.workingDirectory directory
      _ some paths
    unfold namedExport
    rw [found]
    exact ⟨_, rfl⟩
  obtain ⟨named, all⟩ := exists_mapM each
  unfold render
  rw [all]
  exact ⟨_, rfl⟩

theorem filter_visible {text : Text} (visible : text ≠ []) : [text].filter (· ≠ []) = [text] := by
  simp [visible]

theorem flatMap_joined {texts : List Text} (visible : ∀ text ∈ texts, text ≠ []) :
    ([[.char '\n'].intercalate texts].filter (· ≠ [])).flatMap (· ++ [.char '\n']) =
      texts.flatMap (· ++ [.char '\n']) := by
  rcases List.eq_nil_or_concat' texts with rfl | ⟨front, last, rfl⟩
  · rfl
  · have some : front.flatMap (· ++ [.char '\n']) ++ last ≠ [] :=
      List.append_ne_nil_of_right_ne_nil _ (visible last (by simp))
    rw [intercalate_concat, filter_visible some, List.flatMap_singleton, List.flatMap_append,
      List.flatMap_singleton, List.append_assoc]

theorem namedExport_ne_nil {cwd text : Text} {family : Family}
    (done : namedExport cwd directory family = .ok text) : text ≠ [] := by
  obtain ⟨source, _, rfl⟩ := namedExport_eq done
  exact List.append_ne_nil_of_right_ne_nil _ (List.cons_ne_nil _ _)

/-- Between all declarations of a rendered index there is a line end more than their own. -/
theorem content_of_render {parts : Parts}
    (done : render settings directory config families = .ok parts) :
    ∃ named,
      List.Forall₂
        (fun family text => namedExport settings.workingDirectory directory family = .ok text)
        families named ∧
      parts.content = (importLines settings config ++ named).flatMap (· ++ [.char '\n']) ++
        defaultExport (config.fonts ++ families.map Family.name) := by
  unfold render at done
  rw [bind_eq_ok] at done
  obtain ⟨named, each, done⟩ := done
  cases done
  have shown := forall₂_of_mapM each
  refine ⟨named, shown, ?_⟩
  have visible : ∀ text ∈ named, text ≠ [] := by
    intro text member
    obtain ⟨family, _, rendered⟩ := exists_of_mem_forall₂ shown member
    exact namedExport_ne_nil rendered
  have imports : ([if config.isSetUp then [] else settings.loaderImport ++ [.char '\n']].filter
      (· ≠ [])).flatMap (· ++ [.char '\n']) =
        (importLines settings config).flatMap (· ++ [.char '\n']) := by
    unfold importLines
    cases config.isSetUp <;> simp
  rw [List.flatMap_append, ← imports, ← flatMap_joined visible, ← List.flatMap_append,
    ← intercalate_concat, Parts.content, Parts.toList]
  have last : defaultExport (config.fonts ++ families.map Family.name) ≠ [] := by
    rw [defaultExport_eq]
    exact List.append_ne_nil_of_right_ne_nil _ (List.cons_ne_nil _ _)
  have parted : ∀ first second third : Text, third ≠ [] →
      [first, second, third].filter (· ≠ []) =
        [first].filter (· ≠ []) ++ [second].filter (· ≠ []) ++ [third] := by
    intro first second third some
    rw [← filter_visible some, ← List.filter_append, ← List.filter_append, filter_visible some]
    rfl
  rw [parted _ _ _ last]

theorem completed_of_block {body text : Text} (block : Block body)
    (shape : text = body ++ [.char '\n']) :
    text ++ [.char '\n'] = complete blankLine text ∧
    Closed blankLine (complete blankLine text) := by
  subst shape
  rw [block.complete_line, List.append_assoc]
  exact ⟨rfl, block.closed⟩

theorem completed_of_rendered {named : List Text}
    (usual : config.isSetUp = false → settings.loaderImport = defaultImport)
    (names : ∀ family ∈ families, IsName family.name)
    (shown : List.Forall₂
      (fun family text => namedExport settings.workingDirectory directory family = .ok text)
      families named) :
    ∀ text ∈ importLines settings config ++ named,
      text ++ [.char '\n'] = complete blankLine text ∧
      Closed blankLine (complete blankLine text) := by
  intro text member
  rcases List.mem_append.mp member with heading | export_
  · unfold importLines at heading
    cases isSetUp : config.isSetUp with
    | true =>
        rw [isSetUp] at heading
        cases heading
    | false =>
        rw [isSetUp] at heading
        rw [List.mem_singleton.mp heading, usual isSetUp]
        exact completed_of_block block_defaultImport rfl
  · obtain ⟨family, inside, rendered⟩ := exists_of_mem_forall₂ shown export_
    obtain ⟨body, block, _, shape⟩ :=
      exports_of_namedExport (names family inside).identifier rendered
    exact completed_of_block block shape

def kinds (config : Config) (families : List Family) : List Kind :=
  (if config.isSetUp then [] else [.heading]) ++
    families.map (fun family => .named family.name) ++ [.listing]

theorem ofKind_of_rendered {named : List Text}
    (usual : config.isSetUp = false → settings.loaderImport = defaultImport)
    (names : ∀ family ∈ families, IsName family.name)
    (identifiers : ∀ name ∈ config.fonts ++ families.map Family.name, isIdentifier name)
    (shown : List.Forall₂
      (fun family text => namedExport settings.workingDirectory directory family = .ok text)
      families named) :
    List.Forall₂ OfKind (kinds config families)
      ((importLines settings config ++ named).map (complete blankLine) ++
        [defaultExport (config.fonts ++ families.map Family.name)]) := by
  have heading : List.Forall₂ OfKind (if config.isSetUp then [] else [.heading])
      ((importLines settings config).map (complete blankLine)) := by
    unfold importLines
    cases isSetUp : config.isSetUp with
    | true => exact .nil
    | false =>
        rw [usual isSetUp]
        exact .cons (.heading (complete_complete _ _)) .nil
  have exports : List.Forall₂ OfKind (families.map fun family => .named family.name)
      (named.map (complete blankLine)) := by
    rw [List.forall₂_map_left_iff, List.forall₂_map_right_iff]
    refine ((List.forall₂_and_left _ _).mpr ⟨names, shown⟩).imp ?_
    rintro family text ⟨isName, rendered⟩
    exact .named isName rendered (complete_complete _ _)
  rw [kinds, List.map_append]
  exact List.rel_append (List.rel_append heading exports) (.cons (.listing identifiers rfl) .nil)

/-- With fonts that have paths, the index is rendered, and cut into the import line, the export of
each family and the default export, all but the last completed. Rendered chunks, completed or not,
match exactly if they declare the same. -/
theorem rendered_chunks_keep_identity
    (usual : config.isSetUp = false → settings.loaderImport = defaultImport)
    (names : ∀ family ∈ families, IsName family.name)
    (fonts : ∀ family ∈ families, family.fonts ≠ [] ∧ ∀ font ∈ family.fonts, font.path ≠ [])
    (remembered : ∀ name ∈ config.fonts, isIdentifier name) :
    (∃ parts named,
      render settings directory config families = .ok parts ∧
      List.Forall₂
        (fun family text => namedExport settings.workingDirectory directory family = .ok text)
        families named ∧
      split blankLine parts.content =
        (importLines settings config ++ named).map (complete blankLine) ++
          [defaultExport (config.fonts ++ families.map Family.name)] ∧
      List.Forall₂ OfKind (kinds config families) (split blankLine parts.content)) ∧
    ∀ kind other first second, OfKind kind first → OfKind other second →
      (Matcher.standard.accepts blankLine first second ↔ kind = other) := by
  obtain ⟨parts, rendered⟩ := @exists_render settings directory config families fonts
  obtain ⟨named, shown, content⟩ := content_of_render rendered
  have identifiers : ∀ name ∈ config.fonts ++ families.map Family.name, isIdentifier name := by
    intro name member
    rcases List.mem_append.mp member with old | fresh
    · exact remembered name old
    · obtain ⟨family, inside, rfl⟩ := List.mem_map.mp fresh
      exact (names family inside).identifier
  have completed := completed_of_rendered usual names shown
  have cut : split blankLine parts.content =
      (importLines settings config ++ named).map (complete blankLine) ++
        [defaultExport (config.fonts ++ families.map Family.name)] := by
    have lines : (importLines settings config ++ named).flatMap (· ++ [.char '\n']) =
        ((importLines settings config ++ named).map (complete blankLine)).flatten := by
      rw [List.flatMap_def, List.map_congr_left fun text member => (completed text member).1]
    rw [content, lines, split_flatten_append blankLine_ne_nil, split_defaultExport identifiers]
    intro chunk member
    obtain ⟨text, inside, rfl⟩ := List.mem_map.mp member
    exact (completed text inside).2
  refine ⟨⟨parts, named, rendered, shown, cut, ?_⟩, fun _ _ _ _ left right =>
    left.accepts_iff right⟩
  rw [cut]
  exact ofKind_of_rendered usual names identifiers shown

def awkward : List Family :=
  [⟨"inter".text, [⟨"a\n\nexport const roboto = ".text, "\"400\n\n".text, "\r\n".text⟩]⟩,
    ⟨"roboto".text,
      [⟨"\"\n\n".text, "\n\nexport default \x7b".text, [.char ' ']⟩,
        ⟨"b.ttf".text, "700".text, "italic".text⟩]⟩]

theorem awkward_chunks_keep_identity :
    ∃ parts,
      render (Settings.ofEnvironment "/app".text []) "fonts".text
        ⟨"lofo-config.json".text, ["lato".text], false⟩ awkward = .ok parts ∧
      List.Forall₂ OfKind [.heading, .named "inter".text, .named "roboto".text, .listing]
        (split blankLine parts.content) := by
  have names : ∀ family ∈ awkward, IsName family.name := by
    intro family member
    rcases List.mem_pair.mp member with rfl | rfl
    · exact ⟨by decide, by decide, by decide⟩
    · exact ⟨by decide, by decide, by decide⟩
  obtain ⟨⟨parts, _, rendered, _, _, kinds⟩, _⟩ :=
    @rendered_chunks_keep_identity (Settings.ofEnvironment "/app".text []) "fonts".text
      ⟨"lofo-config.json".text, ["lato".text], false⟩ awkward (fun _ => rfl) names (by decide)
      (by decide)
  exact ⟨parts, rendered, kinds⟩

end Content

end FontScaffold.Index
