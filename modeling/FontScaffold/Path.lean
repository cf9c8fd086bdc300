import FontScaffold.Text.Basic

set_option autoImplicit false

namespace FontScaffold.Path

def here : Text := ['.']

def up : Text := ['.', '.']

def joinAll (components : List Text) : Text :=
  [.char '/'].intercalate components

def isAbsolute (path : Text) : Bool :=
  path.head? == some (.char '/')

/-- A second path below a first one, unless the second is absolute. -/
def join (base path : Text) : Text :=
  if isAbsolute path then path
  else if base.isEmpty || base.getLast? == some (.char '/') then base ++ path
  else base ++ .char '/' :: path

/-- The components that lead somewhere: neither empty nor a single dot. -/
def steps (path : Text) : List Text :=
  (path.splitOn (.char '/')).filter fun component => component != [] && component != here

/-- One step on a stack of components, the last on top. Going up cancels a component; at the top of
an absolute path it does nothing. -/
def step (rooted : Bool) (stack : List Text) (component : Text) : List Text :=
  if component = up then
    match stack with
    | [] => if rooted then [] else [up]
    | top :: rest => if top = up then up :: stack else rest
  else component :: stack

/-- The components of the normal form. -/
def normalSteps (path : Text) : List Text :=
  ((steps path).foldl (step (isAbsolute path)) []).reverse

/-- The leading slashes of the normal form: two stay two, three or more become one. -/
def root (path : Text) : Text :=
  match (path.takeWhile (· == .char '/')).length with
  | 0 => []
  | 2 => ['/', '/']
  | _ => ['/']

def normalize (path : Text) : Text :=
  match root path ++ joinAll (normalSteps path) with
  | [] => here
  | normal => normal

/-- The normal form seen from the directory `cwd`. -/
def absolute (cwd path : Text) : Text :=
  normalize (join cwd path)

/-- The last component, empty after a slash. -/
def fileName (path : Text) : Text :=
  (path.reverse.takeWhile (· != .char '/')).reverse

/-- All before the last component, without its trailing slashes unless it has nothing else. -/
def directory (path : Text) : Text :=
  let head := (path.reverse.dropWhile (· != .char '/')).reverse
  if head.all (· == .char '/') then head else Text.trimEnd (· == .char '/') head

theorem length_directory_le_head (path : Text) :
    (directory path).length ≤ (path.reverse.dropWhile (· != .char '/')).length := by
  simp only [directory]
  split
  · simp
  · simpa [Text.trimEnd] using
      (List.dropWhile_suffix (l := path.reverse.dropWhile (· != .char '/'))
        (· == .char '/')).length_le

theorem length_directory_le (path : Text) : (directory path).length ≤ path.length := by
  have head := length_directory_le_head path
  have whole := (List.dropWhile_suffix (l := path.reverse) (· != .char '/')).length_le
  simp only [List.length_reverse] at whole
  omega

theorem length_directory_lt {path : Text} (named : fileName path ≠ []) :
    (directory path).length < path.length := by
  have head := length_directory_le_head path
  have parts := congrArg List.length
    (List.takeWhile_append_dropWhile (p := (· != .char '/')) (l := path.reverse))
  have positive := List.length_pos_iff.mpr named
  simp only [fileName, List.length_reverse, List.length_append] at parts positive
  omega

/-- A file name without its extension; dots at its start begin none. -/
def stem (name : Text) : Text :=
  let dots := name.takeWhile (· == .char '.')
  let rest := name.dropWhile (· == .char '.')
  if rest.elem (.char '.') then
    dots ++ ((rest.reverse.dropWhile (· != .char '.')).drop 1).reverse
  else name

/-- What two sequences of components share at their start is left out. -/
def dropShared : List Text → List Text → List Text × List Text
  | a :: as, b :: bs => if a = b then dropShared as bs else (a :: as, b :: bs)
  | as, bs => (as, bs)

/-- The way from the directory `start` to `path`; none to an empty path. -/
def relative? (cwd path start : Text) : Option Text :=
  if path.isEmpty then none
  else
    let apart := dropShared (steps (absolute cwd start)) (steps (absolute cwd path))
    match apart.1.map (fun _ => up) ++ apart.2 with
    | [] => some here
    | way => some (joinAll way)

/-- A path as modules are named: slashes only, and a dot at the start. -/
def specifier (path : Text) : Text :=
  let slashed := Text.replaceChar (.char '\\') [.char '/'] path
  if slashed.head? = some (.char '.') then slashed else .char '.' :: .char '/' :: slashed

end FontScaffold.Path
