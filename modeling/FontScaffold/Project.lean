import FontScaffold.Index

set_option autoImplicit false

namespace FontScaffold.Layout

/-- One round of halving runs of slashes: each pair becomes one. -/
def halveSlashes : Text → Text
  | [] => []
  | '/' :: '/' :: rest => '/' :: halveSlashes rest
  | c :: rest => c :: halveSlashes rest

theorem length_halveSlashes_le (text : Text) : (halveSlashes text).length ≤ text.length := by
  fun_induction halveSlashes text with
  | case1 => simp
  | case2 rest ih => simp only [List.length_cons]; omega
  | case3 c rest _ ih => simp only [List.length_cons]; omega

theorem length_halveSlashes_lt {text : Text} (double : Text.occursIn ['/', '/'] text) :
    (halveSlashes text).length < text.length := by
  fun_induction halveSlashes text with
  | case1 => simp [Text.occursIn, Text.breakOn] at double
  | case2 rest _ =>
      have short := length_halveSlashes_le rest
      simp only [List.length_cons]
      omega
  | case3 c rest single ih =>
      have later : Text.occursIn ['/', '/'] rest := by
        simp only [Text.occursIn, Text.breakOn] at double
        split at double
        · next starts =>
            obtain ⟨tail, same⟩ := List.isPrefixOf_iff_prefix.mp starts
            simp only [List.cons_append, List.nil_append, List.cons.injEq] at same
            exact (single tail same.1.symm same.2.symm).elim
        · simpa [Text.occursIn] using double
      have short := ih later
      simp only [List.length_cons]
      omega

/-- Halves runs of slashes until none has more than one. -/
def singleSlashes (text : Text) : Text :=
  if double : Text.occursIn ['/', '/'] text then
    have : (halveSlashes text).length < text.length := length_halveSlashes_lt double
    singleSlashes (halveSlashes text)
  else text
termination_by text.length

/-- Drops the stars of an alias pattern and leaves single slashes only. -/
def cleanAlias (text : Text) : Text :=
  singleSlashes (Text.replaceChar '\\' ['/'] (text.filter (· ≠ '*')))

/-- An optional text, where an empty one counts as none. -/
def given (text : Option Text) : Option Text :=
  text.filter (· ≠ [])

/-- How a layout names the module at `path`: under an alias that stands for the project's root, or
else relative to its own directory. -/
def specifier (cwd path : Text) (aliasName root : Option Text) : Text :=
  match given aliasName with
  | some name => cleanAlias (Text.replaceFirst ((given root).getD cwd) name path)
  | none => Path.specifier path

def hintComment : Text :=
  "// OR IMPORT FONTS AS NAMED EXPORTS".text

def importLine (specifier : Text) : Text :=
  "import localfonts from \"".text ++ specifier ++ [.char '"']

/-- The block for the layout: the import, and at first use a hint with a named import. -/
def statement (exportName specifier : Text) (firstUse : Bool) : Text :=
  importLine specifier ++ .char '\n' ::
    if firstUse then
      hintComment ++ "\n// import \x7b ".text ++ exportName ++ " \x7d from \"".text ++ specifier ++
        "\"\n".text
    else []

/-- How the caller names modules: by an alias for the project's root, and where that root is. -/
structure Naming where
  aliasName : Option Text
  root : Option Text

/-- The path of the fonts directory as the import needs it: absolute under an alias, else relative
to the layout. -/
def importPath (cwd layout directory : Text) (naming : Naming) : Except Misuse Text :=
  match given naming.aliasName with
  | some _ => .ok (Path.absolute cwd (Path.join ((given naming.root).getD cwd) directory))
  | none =>
      match Path.relative? cwd (Path.absolute cwd directory)
          (Path.directory (Path.absolute cwd layout)) with
      | some way => .ok way
      | none => .error .noPath

/-- Puts a block into the layout unless its first line is there; tells whether it is there
afterwards. Where there is no place for it, a strict caller gets a fault. -/
def place (settings : Settings) (layout block : Text) (strict : Bool) : Edit Bool := do
  let wanted := (Text.visibleLines block).head?.getD []
  let text ← File.read settings layout "check for the fonts import in".text
  if Text.hasLine wanted text then
    Edit.info ("[FontWriter] ".text ++ layout ++ " already imports the fonts".text)
    return true
  else
    let inserted ← File.insertBelowImports settings layout block
    if !inserted && strict then throw (.noInsertionPoint layout Sighting.importWord)
    return inserted

/-- Puts the import of the fonts into the layout. -/
def addImport (settings : Settings) (layout directory exportName : Text) (naming : Naming)
    (strict : Bool) : Edit Bool := do
  let cwd := settings.workingDirectory
  let path ← Edit.ofExcept (importPath cwd layout directory naming)
  let firstUse := !(← get).config.isSetUp
  place settings layout
    (statement exportName (specifier cwd path naming.aliasName naming.root) firstUse) strict

end FontScaffold.Layout

namespace FontScaffold.Project

def tellAlias (naming : Layout.Naming) : Edit Unit :=
  match Layout.given naming.aliasName with
  | some name => Edit.info ("Found project import alias: ".text ++ name)
  | none => pure ()

/-- Writes the exports of `families`, imports them in the layout, and remembers them; tells whether
the import is in place. Only then does the project count as set up. -/
def addFamilies (settings : Settings) (directory : Text) (families : List Family)
    (layout indexFile : Text) (naming : Layout.Naming) (strict : Bool) : Edit Bool := do
  tellAlias naming
  Edit.info "Writing font exports...".text
  let _ ← Index.update settings (Path.join directory indexFile) families directory
  Edit.info "Finished writing font exports".text
  Edit.info "Importing fonts in layout file...".text
  let added := families.map Family.name
  let names := (← get).config.fonts ++ added
  let imported ← Layout.addImport settings layout directory (names.headD "fonts".text) naming
    strict
  if imported then Edit.info "Finished writing font imports".text
  let config := (← get).config.changeFonts (· ++ added)
  Edit.setConfig (if imported then config.markSetUp else config)
  Config.saveCurrent settings
  return imported

/-- Takes a family out of the index and the config; tells whether its export was there. -/
def removeFamily (settings : Settings) (index name : Text) : Edit Bool := do
  Edit.info ("Removing font family: ".text ++ name)
  let config := (← get).config
  if !config.fonts.contains name then
    Edit.warn ("[FontWriter] ".text ++ name ++ " is not a configured font family".text)
  let removed ← File.pruneChunks settings Matcher.standard settings.declarationSeparator index
    (Index.exportProbe name)
  let rest := config.fonts.filter (· ≠ name)
  let _ ← Index.merge settings index (Index.defaultExport rest)
  let config := config.changeFonts fun fonts => fonts.filter (· ≠ name)
  Edit.setConfig config
  if config.isSetUp then Config.saveCurrent settings
  return removed

end FontScaffold.Project
