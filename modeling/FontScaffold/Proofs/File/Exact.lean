import FontScaffold.Proofs.File.Access
import FontScaffold.Proofs.Insertion

set_option autoImplicit false

namespace FontScaffold

namespace Insertion

def judged (asked : List Sighting) : List Text :=
  asked.map Sighting.line

variable {accepts : LinePredicate}

end Insertion

namespace File

open Edit

section Reading

variable {settings : Settings} {before : Workspace} {path : Text} {bytes : Bytes}

end Reading

end File

end FontScaffold
