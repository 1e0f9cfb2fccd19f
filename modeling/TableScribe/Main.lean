import TableScribe.Run

/-!
# The command line

The outer layer of the program: it reads the files that a run asks for, hands them to `prepare`,
writes the files of its plan and prints the journal.
-/

namespace TableScribe.CommandLine

open Storage (StorageError)

/-- The number of an error; some operations give it with a minus sign. -/
def errorNumber (code : UInt32) : Nat :=
  code.toInt32.toInt.natAbs

/-- The storage error that an error of the operating system stands for. -/
def storageError : IO.Error → StorageError
  | .alreadyExists .. => .exists
  | .permissionDenied .. => .accessDenied
  | .inappropriateType _ code _ => if errorNumber code = 20 then .notDirectory else .isDirectory
  | .invalidArgument _ code _ => if errorNumber code = 36 then .nameTooLong else .zeroInPath
  | _ => .notFound

/-- The result of an action, with an error of the operating system as a storage error. -/
def attempt (action : IO α) : IO (Except StorageError α) :=
  tryCatch (.ok <$> action) fun e => pure (.error (storageError e))

def readBytes (path : String) : IO (Except StorageError ByteArray) :=
  attempt (IO.FS.readBinFile path)

def readText (path : String) : IO (Except StorageError String) := do
  match ← readBytes path with
  | .error e => return .error e
  | .ok bytes =>
    match String.fromUTF8? bytes with
    | none => return .error .invalidText
    | some text => return .ok text

/-- Prints the events that a reader of that level sees. -/
def printEvents (limit : Level) (events : List Event) : IO Unit := do
  for event in events do
    if Level.admits (some limit) event.level then
      IO.println (event.level.name ++ " " ++ event.line)

def isDirectory (path : String) : IO Bool := do
  match ← attempt (IO.FS.realPath path) with
  | .ok resolved => resolved.isDir
  | .error _ => return false

/-- Makes a directory, unless it is there. -/
def ensureDirectory (path : String) : IO (Option StorageError) := do
  match ← attempt (IO.FS.createDir path) with
  | .ok () => return none
  | .error e => return if ← isDirectory path then none else some e

/-- Makes the directory with the given steps, the last of them first, and those above it. -/
def ensureSteps (rooted : Bool) : (reversed : List String) → IO (Option StorageError)
  | [] => return none
  | last :: above => do
    let path := (if rooted then "/" else "") ++ Text.join "/" (last :: above).reverse
    match ← ensureDirectory path with
    | some .notFound =>
      match ← ensureSteps rooted above with
      | none => ensureDirectory path
      | some e => return some e
    | answer => return answer

/-- Writes one file and makes its directory if need be. -/
def writeOutput (path contents : String) : IO (Option StorageError) := do
  let failure ← match (Storage.Route.ofPath path).parent? with
    | none => pure none
    | some route => ensureSteps route.rooted route.steps.reverse
  match failure with
  | some e => return some e
  | none =>
    match ← attempt (IO.FS.writeFile path contents) with
    | .ok () => return none
    | .error e => return some e

/-- Writes the files of a plan, in order, up to the first that cannot be written. -/
def writeOutputs (limit : Level) (directory : String) :
    List Code.OutputFile → IO (Option StorageError)
  | [] => return none
  | output :: rest => do
    let path := Storage.joinPath directory output.path
    match ← writeOutput path output.contents with
    | some e => return some e
    | none =>
      printEvents limit [.generated path]
      writeOutputs limit directory rest

/-- The variables that the settings come from. -/
def variableNames : List String :=
  ["DDL2TS_INPUT", "DDL2TS_OUT_DIR", "DDL2TS_INHERITANCE", "DDL2TS_LENIENT", "DDL2TS_FAIL_FAST",
    "DDL2TS_EMIT_JSON"]

/-- The environment, as far as the settings come from it. -/
def readEnvironment : IO Layer.Environment := do
  let values ← variableNames.mapM fun name => do
    return (← IO.getEnv name).map fun value => (name, value)
  return values.filterMap id

/-- The settings that the arguments, the environment and the settings file make up. -/
def loadSettings (arguments : Arguments) : IO (Option Settings) := do
  let environment ← readEnvironment
  let bytes ← match arguments.config with
    | none => pure (.error .notFound)
    | some path => readBytes path
  return (Settings.load (fun _ => bytes) environment arguments.config).map arguments.applyTo

/-- Does a run and answers with what went wrong. -/
def runSettings (limit : Level) (settings : Settings) : IO (Option Failure) := do
  let script ← readText settings.input
  let relations ← match settings.relations with
    | none => pure (.error .notFound)
    | some path => readText path
  let prepared := prepare settings fun path => if path = settings.input then script else relations
  printEvents limit prepared.events
  match prepared.result with
  | .error failure => return some failure
  | .ok plan =>
    match ← writeOutputs limit settings.directory plan.outputs with
    | some e => return some (.storage e)
    | none =>
      printEvents limit
        [.finished plan.outputs.length plan.tables plan.statements settings.directory]
      return none

/-- The whole program; the answer is the exit code. -/
def start (limit : Level) (words : List String) : IO UInt32 := do
  match Arguments.parse words with
  | .error misuse =>
    IO.eprintln misuse.name
    return misuse.exitCode.toUInt32
  | .ok arguments =>
    let failure ← match ← loadSettings arguments with
      | none => pure (some Failure.settings)
      | some settings => runSettings limit settings
    match failure with
    | none => return 0
    | some failure =>
      printEvents limit [.failed failure.message]
      return 1

end TableScribe.CommandLine

/-- Runs the program with the journal down to what informs. -/
def main (words : List String) : IO UInt32 :=
  TableScribe.CommandLine.start .info words
