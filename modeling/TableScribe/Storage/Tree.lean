import TableScribe.Storage.Path

/-!
# Directories and files

A `Tree` is the state of a file system: what there is at each place, a place being the list of names
that lead to it from the root. A path is followed name by name: every name but the last must be
that of a directory. The operations answer with the tree that they leave and with what went wrong,
if something did; none of them changes more than it says.
-/

namespace TableScribe.Storage

/-- What can go wrong with a file or a directory. -/
inductive StorageError
  | notFound
  | accessDenied
  | exists
  | notDirectory
  | isDirectory
  | nameTooLong
  | zeroInPath
  | invalidText
  deriving DecidableEq, Repr

def StorageError.message : StorageError → String
  | notFound => "No such file or directory (os error 2)"
  | accessDenied => "Permission denied (os error 13)"
  | .exists => "File exists (os error 17)"
  | notDirectory => "Not a directory (os error 20)"
  | isDirectory => "Is a directory (os error 21)"
  | nameTooLong => "File name too long (os error 36)"
  | zeroInPath => "file name contained an unexpected NUL byte"
  | invalidText => "stream did not contain valid UTF-8"

/-- The names that lead to a file or directory from the root. -/
abbrev Place := List String

/-- What there is at a place. -/
inductive Node
  | directory
  | file (contents : ByteArray)

theorem Node.file_inj {one other : ByteArray} : one.data = other.data ↔ file one = file other :=
  ⟨fun h => congrArg file (ByteArray.ext h), fun h => congrArg ByteArray.data (file.inj h)⟩

instance Node.decidableEq : DecidableEq Node
  | directory, directory => isTrue rfl
  | directory, file _ => isFalse Node.noConfusion
  | file _, directory => isFalse Node.noConfusion
  | file _, file _ => decidable_of_iff _ file_inj

/-- The state of a file system that has directories and files and no links of any kind: a directory
or a file has one place, and a path denotes the place that it spells. -/
structure Tree where
  /-- What there is, by place; the first entry of a place counts. The root is always a directory. -/
  nodes : List (Place × Node)
  /-- The directory that relative paths start from. -/
  workingPlace : Place

namespace Tree

/-- What there is at a place. -/
def node? (tree : Tree) (place : Place) : Option Node :=
  if place = [] then some .directory else tree.nodes.lookup place

/-- The list with the node at that place, in the place of the old one or at the end. -/
def putNode (place : Place) (node : Node) : List (Place × Node) → List (Place × Node)
  | [] => [(place, node)]
  | first :: rest =>
    if first.1 = place then (place, node) :: rest else first :: putNode place node rest

def put (tree : Tree) (place : Place) (node : Node) : Tree :=
  { tree with nodes := putNode place node tree.nodes }

/-! ## Following a path -/

/-- The longest name, in bytes. -/
def nameLimit : Nat := 255

/-- The length from which a path is too long, in bytes. -/
def pathLimit : Nat := 4096

/-- The place that a route starts from. -/
def origin (tree : Tree) (rooted : Bool) : Place :=
  if rooted then [] else tree.workingPlace

/-- The directory that one step leads to. -/
def enter (tree : Tree) (place : Place) (name : String) : Except StorageError Place :=
  if name = "." then .ok place
  else if name = ".." then .ok place.dropLast
  else if nameLimit < name.utf8ByteSize then .error .nameTooLong
  else
    match tree.node? (place ++ [name]) with
    | none => .error .notFound
    | some (.file _) => .error .notDirectory
    | some .directory => .ok (place ++ [name])

/-- The directory that the steps lead to. -/
def walk (tree : Tree) (place : Place) : List String → Except StorageError Place
  | [] => .ok place
  | name :: names =>
    match tree.enter place name with
    | .error e => .error e
    | .ok place => tree.walk place names

/-- What the last name of a path stands for. -/
inductive Target
  /-- A directory that is there in any case: the root, `.` or `..`. -/
  | fixed
  /-- A place in a directory, and what there is at it. -/
  | entry (place : Place) (node : Option Node)

/-- Follows a route up to its last name. -/
def target (tree : Tree) (rooted : Bool) (names : List String) : Except StorageError Target :=
  match names.getLast? with
  | none => if rooted then .ok .fixed else .error .notFound
  | some last =>
    match tree.walk (tree.origin rooted) names.dropLast with
    | .error e => .error e
    | .ok place =>
      if last = "." ∨ last = ".." then .ok .fixed
      else if nameLimit < last.utf8ByteSize then .error .nameTooLong
      else .ok (.entry (place ++ [last]) (tree.node? (place ++ [last])))

/-- Follows a path up to its last name. -/
def locate (tree : Tree) (path : String) : Except StorageError Target :=
  if path.toList.contains '\x00' then .error .zeroInPath
  else if pathLimit ≤ path.utf8ByteSize then .error .nameTooLong
  else tree.target (isAbsolute path) (namesOf path)

/-- Whether a path ends with a slash, and so can only be that of a directory. -/
def endsInSlash (path : String) : Bool :=
  path.toList.getLast? = some '/'

/-! ## Reading -/

def readBytes (tree : Tree) (path : String) : Except StorageError ByteArray :=
  match tree.locate path with
  | .error e => .error e
  | .ok .fixed => .error .isDirectory
  | .ok (.entry _ none) => .error .notFound
  | .ok (.entry _ (some .directory)) => .error .isDirectory
  | .ok (.entry _ (some (.file contents))) =>
    if endsInSlash path then .error .notDirectory else .ok contents

def readText (tree : Tree) (path : String) : Except StorageError String :=
  match tree.readBytes path with
  | .error e => .error e
  | .ok bytes =>
    match String.fromUTF8? bytes with
    | none => .error .invalidText
    | some text => .ok text

/-! ## Writing -/

/-- The tree that an operation leaves, and what went wrong. -/
structure Change where
  tree : Tree
  error : Option StorageError := none

/-- Puts a file with the given contents at a path. Its directory must be there. -/
def writeFile (tree : Tree) (path : String) (contents : ByteArray) : Change :=
  match tree.locate path with
  | .error e => ⟨tree, some e⟩
  | .ok .fixed => ⟨tree, some .isDirectory⟩
  | .ok (.entry place node) =>
    if endsInSlash path ∨ node = some .directory then ⟨tree, some .isDirectory⟩
    else ⟨tree.put place (.file contents), none⟩

/-- Makes the directory that a route leads to. The one above it must be there. -/
def makeDirectory (tree : Tree) (route : Route) : Change :=
  if route.steps.any (·.toList.contains '\x00') then ⟨tree, some .zeroInPath⟩
  else
    match tree.target route.rooted route.steps with
    | .error e => ⟨tree, some e⟩
    | .ok .fixed => ⟨tree, some .exists⟩
    | .ok (.entry _ (some _)) => ⟨tree, some .exists⟩
    | .ok (.entry place none) => ⟨tree.put place .directory, none⟩

def isDirectory (tree : Tree) (route : Route) : Bool :=
  (tree.walk (tree.origin route.rooted) route.steps).isOk

/-- Makes the directory that a route leads to, unless it is there. -/
def ensureDirectory (tree : Tree) (route : Route) : Change :=
  let change := tree.makeDirectory route
  if change.error.isSome ∧ tree.isDirectory route then ⟨tree, none⟩ else change

/-- Makes the directory with the given steps, the last of them first, and those above it. -/
def ensureSteps (tree : Tree) (rooted : Bool) : (reversed : List String) → Change
  | [] => ⟨tree, none⟩
  | last :: above =>
    let route : Route := ⟨rooted, (last :: above).reverse⟩
    let change := tree.ensureDirectory route
    if change.error = some .notFound then
      let outer := tree.ensureSteps rooted above
      if outer.error.isSome then outer else outer.tree.ensureDirectory route
    else change

/-- Makes a directory and all those on the way to it. -/
def ensureDirectories (tree : Tree) (route : Route) : Change :=
  tree.ensureSteps route.rooted route.steps.reverse

end Tree

end TableScribe.Storage
