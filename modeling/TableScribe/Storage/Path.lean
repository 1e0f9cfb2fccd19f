import TableScribe.Text.Pieces

/-!
# Paths

A path is kept as it was written. `joinPath` puts one path below another; an absolute path stands on
its own. `Route` is what a path says to somebody who follows it: where to start, and which steps to
take. `Route.parent?` is the route to the directory that the last step is taken in.
-/

namespace TableScribe.Storage

def isAbsolute (path : String) : Bool :=
  path.toList.head? = some '/'

/-- The path `path`, seen from `base`. -/
def joinPath (base path : String) : String :=
  if isAbsolute path then path
  else if base = "" ∨ base.toList.getLast? = some '/' then base ++ path
  else base ++ "/" ++ path

example : joinPath "out" "a.ts" = "out/a.ts" ∧ joinPath "out" "/a.ts" = "/a.ts" := by
  decide +kernel

/-- The names between the slashes of a path; names that are empty do not count. -/
def namesOf (path : String) : List String :=
  ((Text.splitOn ['/'] path.toList).filter (· ≠ [])).map String.ofList

/-- A way through the directories. -/
structure Route where
  /-- Whether it starts at the root and not at the working directory. -/
  rooted : Bool
  /-- The names to follow; `.` stays and `..` goes up. -/
  steps : List String
  deriving DecidableEq, Repr

/-- The route of a path. A `.` counts only at the beginning of a relative path. -/
def Route.ofPath (path : String) : Route :=
  if isAbsolute path then ⟨true, (namesOf path).filter (· ≠ ".")⟩
  else
    match namesOf path with
    | "." :: names => ⟨false, "." :: names.filter (· ≠ ".")⟩
    | names => ⟨false, names.filter (· ≠ ".")⟩

/-- The route without its last step; a route without steps has no parent. -/
def Route.parent? (route : Route) : Option Route :=
  if route.steps = [] then none else some { route with steps := route.steps.dropLast }

/-- The last name of a path, if it is one that a file can have. -/
def fileName? (path : String) : Option String :=
  (Route.ofPath path).steps.getLast?.filter fun name => name ≠ "." ∧ name ≠ ".."

/-- What follows the last dot of the file name, if something precedes that dot. -/
def extension? (path : String) : Option String :=
  match fileName? path with
  | none => none
  | some name =>
    match (Text.splitOn ['.'] name.toList).reverse with
    | [] => none
    | [_] => none
    | [_, []] => none
    | last :: _ => some (String.ofList last)

end TableScribe.Storage
