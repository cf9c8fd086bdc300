import FontScaffold.File
import FontScaffold.Text.LowerCase

set_option autoImplicit false

namespace FontScaffold

structure Font where
  path : Text
  weight : Text
  style : Text
  deriving Repr, DecidableEq

structure Family where
  name : Text
  fonts : List Font
  deriving Repr, DecidableEq

namespace Font

/-- The keywords for weights in file names, in lower case and longest first, so that none is read
inside a longer one. -/
def weights : List (Text × Text) :=
  [("extralight".text, "200".text),
    ("extrabold".text, "800".text),
    ("semibold".text, "600".text),
    ("variable".text, "variable".text),
    ("regular".text, "400".text),
    ("medium".text, "500".text),
    ("light".text, "300".text),
    ("black".text, "900".text),
    ("thin".text, "100".text),
    ("bold".text, "700".text)]

def styles : List Text :=
  ["italic".text, "oblique".text]

def defaultWeight : Text := "400".text

def defaultStyle : Text := "normal".text

/-- What follows the first hyphen, or all if there is none. -/
def afterHyphen (name : Text) : Text :=
  match name.dropWhile (· != .char '-') with
  | [] => name
  | _ :: rest => rest

/-- The part of a file's name that describes the font: after the family, without the extension, in
lower case. -/
def descriptor (path : Text) : Text :=
  Text.lowerCase (afterHyphen (Path.stem (Path.fileName (Text.strip path))))

def weightOf (descriptor : Text) : Text :=
  match weights.find? fun weight => Text.occursIn weight.1 descriptor with
  | some weight => weight.2
  | none => defaultWeight

def styleOf (descriptor : Text) : Text :=
  (styles.find? fun style => Text.occursIn style descriptor).getD defaultStyle

def ofPath (path : Text) : Font where
  path := path
  weight := weightOf (descriptor path)
  style := styleOf (descriptor path)

/-- Where the file lies, seen from the fonts directory. -/
def specifier (cwd directory : Text) (font : Font) : Except Misuse Text :=
  match Path.relative? cwd font.path directory with
  | none => .error .noPath
  | some way => .ok (Path.specifier way)

def entry (cwd directory : Text) (font : Font) : Except Misuse Json.Value := do
  let path ← font.specifier cwd directory
  return .object
    [("path".text, .string path),
      ("weight".text, .string font.weight),
      ("style".text, .string font.style)]

/-- The source of a list of fonts, which must not be empty. -/
def source (cwd directory : Text) : List Font → Except Misuse Json.Value
  | [] => .error .noFonts
  | [font] => do return .string (← font.specifier cwd directory)
  | fonts => do return .array (← fonts.mapM (entry cwd directory))

def sourceText (cwd directory : Text) (fonts : List Font) : Except Misuse Text := do
  return Json.print .inline (← source cwd directory fonts)

end Font

namespace Index

def namedExport (cwd directory : Text) (family : Family) : Except Misuse Text := do
  let source ← Font.sourceText cwd directory family.fonts
  return "export const ".text ++ family.name ++ " = localfont(\x7b\n  src: ".text ++ source ++
    ",\n  display: \"swap\",\n\x7d)\n".text

/-- The object of all families; a repeated name counts once. -/
def defaultExport (names : List Text) : Text :=
  "export default \x7b\n".text ++
    names.eraseDups.flatMap (fun name => .char ' ' :: .char ' ' :: name ++
      [.char ',', .char '\n']) ++
    "\x7d\n".text

def skeleton (settings : Settings) : Text :=
  settings.loaderImport ++ .char '\n' :: .char '\n' :: defaultExport []

/-- The parts of a rendered index; one that is not wanted is empty. -/
structure Parts where
  importLine : Text
  namedExports : Text
  defaultExport : Text
  deriving Repr, DecidableEq

namespace Parts

def toList (parts : Parts) : List Text :=
  [parts.importLine, parts.namedExports, parts.defaultExport]

def content (parts : Parts) : Text :=
  [.char '\n'].intercalate (parts.toList.filter (· ≠ []))

end Parts

/-- The index for `families`. A project that is set up needs no import line; families remembered in
the config come before the new ones in the default export. -/
def render (settings : Settings) (directory : Text) (config : Config)
    (families : List Family) : Except Misuse Parts := do
  let named ← families.mapM (namedExport settings.workingDirectory directory)
  return {
    importLine := if config.isSetUp then [] else settings.loaderImport ++ [.char '\n']
    namedExports := [.char '\n'].intercalate named
    defaultExport := Index.defaultExport (config.fonts ++ families.map Family.name) }

/-- Makes the index and its directory if it is missing; tells whether it did. -/
def ensure (settings : Settings) (path : Text) (content : Option Text) : Edit Bool := do
  let workspace ← get
  if workspace.tree.pathExists settings.workingDirectory path then return false
  else
    let directory := Path.directory path
    if directory ≠ [] then
      let (tree, refused) := workspace.tree.makeDirectories settings.workingDirectory directory
      Edit.setTree tree
      match refused with
      | none => pure ()
      | some denial => throw (denial.toFault directory "create directory".text)
    File.write settings path (content.getD (skeleton settings)) "create".text
    Edit.info ("[FontWriter] Created ".text ++ path)
    return true

/-- Merges a part of the index into its file. -/
def merge (settings : Settings) (path part : Text) : Edit Bool :=
  File.mergeChunks settings Matcher.standard settings.declarationSeparator path part

def update (settings : Settings) (path : Text) (families : List Family)
    (directory : Text) : Edit Bool := do
  let workspace ← get
  let parts ← Edit.ofExcept (render settings directory workspace.config families)
  let created ← ensure settings path none
  let named ← if parts.namedExports = [] then pure false else merge settings path parts.namedExports
  let listed ← merge settings path parts.defaultExport
  return created || named || listed

/-- The first words of a family's named export, by which it is found. -/
def exportProbe (name : Text) : Text :=
  "export const ".text ++ name ++ " = localfont".text

end Index

end FontScaffold
