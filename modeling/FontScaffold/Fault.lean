import FontScaffold.Chunk
import FontScaffold.Json.Parser
import FontScaffold.Text.Quoted
import FontScaffold.Text.Utf8

set_option autoImplicit false

namespace FontScaffold

inductive Misuse where
  | nulInPath
  | unencodable (fault : Utf8.EncodeFault)
  | noFonts
  | noPath
  | negativeWindow
  | windowTooLarge
  | refused (reason : Text)
  deriving Repr, DecidableEq

def Misuse.message : Misuse → Text
  | .nulInPath => "embedded null byte".text
  | .unencodable fault => fault.message
  | .noFonts => "a font family needs at least one font file".text
  | .noPath => "no path specified".text
  | .negativeWindow => "maxlen must be non-negative".text
  | .windowTooLarge => "Python int too large to convert to C ssize_t".text
  | .refused reason => reason

/-- A refusal of the operating system: its number and its text. -/
structure OsError where
  number : Int
  text : Text
  deriving Repr, DecidableEq

namespace OsError

def missing : OsError := ⟨2, "No such file or directory".text⟩
def busy : OsError := ⟨16, "Device or resource busy".text⟩
def present : OsError := ⟨17, "File exists".text⟩
def noFreeName : OsError := ⟨17, "No usable temporary file name found".text⟩
def notDirectory : OsError := ⟨20, "Not a directory".text⟩
def isDirectory : OsError := ⟨21, "Is a directory".text⟩
def nameTooLong : OsError := ⟨36, "File name too long".text⟩

end OsError

/-- Why a file operation on a path was refused. -/
inductive Denial where
  | os (error : OsError)
  | misuse (misuse : Misuse)
  deriving Repr, DecidableEq

/-- Why a file could not be accessed. -/
inductive Cause where
  | os (error : OsError)
  | undecodable (fault : Utf8.Fault)
  | misuse (misuse : Misuse)
  deriving Repr, DecidableEq

/-- The reason in words; an error without a text of its own shows its number. -/
def Cause.reason : Cause → Text
  | .os error =>
      if error.text = [] then "[Errno ".text ++ Text.ofInt error.number ++ "] ".text
      else error.text
  | .undecodable fault => fault.message
  | .misuse reason => reason.message

/-- What is wrong with the content of a config file. -/
inductive ConfigProblem where
  | malformed (failure : Json.Failure) (content : Text)
  | notAnObject
  | fontsNotNames
  deriving Repr, DecidableEq

inductive Fault where
  | access (path operation : Text) (cause : Option Cause)
  | noInsertionPoint (path pattern : Text)
  | config (path : Text) (problem : ConfigProblem)
  | excess (excess : Json.Excess)
  | overflow (overflow : Overflow)
  | misuse (misuse : Misuse)
  deriving Repr, DecidableEq

/-- A refused operation on a path as a fault; what the system was never asked for is the caller's
mistake. -/
def Denial.toFault (path operation : Text) : Denial → Fault
  | .os error => .access path operation (some (.os error))
  | .misuse reason => .misuse reason

def ConfigProblem.message (path : Text) : ConfigProblem → Text
  | .malformed failure content =>
      "Invalid JSON in ".text ++ path ++ ": ".text ++ failure.message content
  | .notAnObject => "Expected a JSON object in ".text ++ path
  | .fontsNotNames => "'fonts' in ".text ++ path ++ " must be a list of names".text

def Fault.message : Fault → Text
  | .access path operation cause =>
      let reason := (cause.map Cause.reason).getD []
      "Could not ".text ++ operation ++ .char ' ' :: path ++
        if reason = [] then [] else ": ".text ++ reason
  | .noInsertionPoint path pattern =>
      "No insertion point found in ".text ++ path ++
        ": expected a blank line directly after a line containing ".text ++ Text.quoted pattern
  | .config path problem => problem.message path
  | .excess reason => reason.message
  | .overflow reason => reason.message
  | .misuse reason => reason.message

def Fault.details : Fault → List (Text × Text)
  | .access path operation _ => [("path".text, path), ("operation".text, operation)]
  | .noInsertionPoint path pattern => [("path".text, path), ("pattern".text, pattern)]
  | .config path _ => [("path".text, path)]
  | .excess _ => []
  | .overflow _ => []
  | .misuse _ => []

end FontScaffold
