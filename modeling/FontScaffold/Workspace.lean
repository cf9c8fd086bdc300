import FontScaffold.Merge
import FontScaffold.Tree

set_option autoImplicit false

namespace FontScaffold

structure Settings where
  workingDirectory : Text
  configFile : Text
  fontsDirectory : Text
  loaderImport : Text
  declarationSeparator : Text
  deriving Repr, DecidableEq

/-- A variable's value counts even if it is empty. -/
def Settings.ofEnvironment (workingDirectory : Text) (environment : List (Text × Text)) :
    Settings where
  workingDirectory := workingDirectory
  configFile :=
    (environment.lookup "LOFO_CONFIG_FILE".text).getD "lofo-config.json".text
  fontsDirectory :=
    (environment.lookup "LOFO_FONTS_DIR_NAME".text).getD "fonts".text
  loaderImport :=
    (environment.lookup "LOFO_LOCALFONT_IMPORT".text).getD
      "import localfont from \"next/font/local\"".text
  declarationSeparator := "\n\n".text

structure Config where
  path : Text
  fonts : List Text := []
  isSetUp : Bool := false
  deriving Repr, DecidableEq

namespace Config

/-- Replaces the families; a repeated name counts once. -/
def changeFonts (change : List Text → List Text) (config : Config) : Config :=
  { config with fonts := (change config.fonts).eraseDups }

def markSetUp (config : Config) : Config :=
  { config with isSetUp := true }

def toJson (config : Config) : Json.Value :=
  .object
    [("fonts".text, .array (config.fonts.map .string)),
      ("reachedSuccess".text, .bool config.isSetUp)]

/-- The text of the config file. -/
def render (config : Config) : Text :=
  Json.print (.indented 0) config.toJson ++ [.char '\n']

end Config

structure Workspace where
  tree : Tree
  config : Config
  log : Log

abbrev Edit := EStateM Fault Workspace

namespace Edit

def tell (entries : Log) : Edit Unit :=
  modify fun workspace => { workspace with log := workspace.log ++ entries }

def debug (message : Text) : Edit Unit :=
  tell [⟨.debug, message⟩]

def info (message : Text) : Edit Unit :=
  tell [⟨.info, message⟩]

def warn (message : Text) : Edit Unit :=
  tell [⟨.warning, message⟩]

/-- Tells a report; an overflow that ended it is a fault. -/
def tellReport (report : Report) : Edit Unit := do
  tell report.log
  match report.overflow with
  | some overflow => throw (.overflow overflow)
  | none => pure ()

def setTree (tree : Tree) : Edit Unit :=
  modify fun workspace => { workspace with tree }

def setConfig (config : Config) : Edit Unit :=
  modify fun workspace => { workspace with config }

/-- Fails where a plain computation was given what it cannot work with. -/
def ofExcept {α : Type} (result : Except Misuse α) : Edit α :=
  match result with
  | .ok value => pure value
  | .error misuse => throw (.misuse misuse)

end Edit

end FontScaffold
