import TableScribe.Code.Bundle
import TableScribe.Script.Statements
import TableScribe.Settings.Arguments
import TableScribe.Storage.Device

/-!
# A run

A run reads a script, understands its statements, and writes the files generated from the tables.

1. `parseAll` reads the statements one by one. One that is not understood is skipped, or ends the
   run if the settings say so.
2. `prepare` does all of a run but the writing. It sees the files only through a function that reads
   them, so it changes nothing.
3. `writeOutputs` writes the files in order and stops at the first that cannot be written.
4. `run` is the two together, on a file system; `execute` is the whole program, from its arguments
   and its environment to an exit code.

`writeOutputsOn` and `runOn` do the same on any device.
-/

namespace TableScribe

open Storage (Device Tree StorageError)

/-- Why a run fails. -/
inductive Failure
  | statement (index : Nat) (fault : Fault)
  | storage (error : StorageError)
  | settings
  deriving DecidableEq, Repr

def Failure.message : Failure → String
  | statement index fault =>
    "Statement " ++ toString index ++ " failed to parse: " ++ fault.message
  | storage error => "I/O error: " ++ error.message
  | settings => "Configuration error"

/-! ## Reading the statements -/

/-- What came of a part of a run, and what was noted. -/
structure Outcome (α : Type) where
  result : Except Failure α
  events : List Event := []

/-- Reads the statements from the given number on. -/
def parseFrom (settings : Settings) : (index : Nat) → List String → Outcome (List Table)
  | _, [] => ⟨.ok [], []⟩
  | index, statement :: rest =>
    let noted := statementEvents settings.strictness statement
    match parseStatement settings.strictness statement with
    | .ok table =>
      let outcome := parseFrom settings (index + 1) rest
      ⟨outcome.result.map (table :: ·), noted ++ outcome.events⟩
    | .error fault =>
      if settings.failFast then ⟨.error (.statement index fault), noted⟩
      else
        let outcome := parseFrom settings (index + 1) rest
        { outcome with events := noted ++ .skippedStatement index fault :: outcome.events }

def parseAll (settings : Settings) (statements : List String) : Outcome (List Table) :=
  parseFrom settings 0 statements

/-! ## Everything but the writing -/

/-- The files that a run is to write, and what it counts. -/
structure Plan where
  outputs : List Code.OutputFile
  tables : Nat
  statements : Nat
  deriving DecidableEq, Repr

/-- The relations that the settings ask for. -/
def readRelations (settings : Settings) (read : String → Except StorageError String) :
    Outcome (List Relation) :=
  match settings.relations with
  | none => ⟨.ok [], []⟩
  | some path =>
    match read path with
    | .error e => ⟨.error (.storage e), []⟩
    | .ok text =>
      let relations := relationsOf text
      ⟨.ok relations, [.loadedRelations relations.length path]⟩

/-- Reads the script and the relations and generates the files. -/
def prepare (settings : Settings) (read : String → Except StorageError String) : Outcome Plan :=
  match read settings.input with
  | .error e => ⟨.error (.storage e), []⟩
  | .ok script =>
    let statements := splitStatements script
    let noted := [Event.readStatements statements.length settings.input]
    let parsed := parseAll settings statements
    match parsed.result with
    | .error failure => ⟨.error failure, noted ++ parsed.events⟩
    | .ok tables =>
      let loaded := readRelations settings read
      match loaded.result with
      | .error failure => ⟨.error failure, noted ++ parsed.events ++ loaded.events⟩
      | .ok relations =>
        ⟨.ok ⟨Code.bundle tables relations settings.withMetadata, tables.length, statements.length⟩,
          noted ++ parsed.events ++ loaded.events ++ Code.bundleEvents tables relations⟩

/-! ## Writing -/

/-- A file system after an operation, what came of it, and what was noted. -/
structure Effect where
  tree : Tree
  failure : Option Failure := none
  events : List Event := []

/-- What comes of a change and, unless it failed, of what is done next. -/
def Effect.after (change : Tree.Change) (next : Tree → Effect) : Effect :=
  match change.error with
  | some e => ⟨change.tree, some (.storage e), []⟩
  | none => next change.tree

/-- Writes the files below a directory, in order, up to the first that cannot be written. -/
def writeOutputsOn (device : Device) (tree : Tree) (directory : String) :
    List Code.OutputFile → Effect
  | [] => ⟨tree, none, []⟩
  | output :: rest =>
    let path := Storage.joinPath directory output.path
    .after (device.installFile tree path output.contents.toUTF8) fun tree =>
      let effect := writeOutputsOn device tree directory rest
      { effect with events := .generated path :: effect.events }

/-- Writes the files below a directory, up to the first that the tree does not allow. -/
def writeOutputs (tree : Tree) (directory : String) (outputs : List Code.OutputFile) : Effect :=
  writeOutputsOn .plain tree directory outputs

def runOn (device : Device) (tree : Tree) (settings : Settings) : Effect :=
  let prepared := prepare settings (device.readText tree)
  match prepared.result with
  | .error failure => ⟨tree, some failure, prepared.events⟩
  | .ok plan =>
    let effect := writeOutputsOn device tree settings.directory plan.outputs
    let noted := match effect.failure with
      | some _ => []
      | none =>
        [.finished plan.outputs.length plan.tables plan.statements settings.directory]
    { effect with events := prepared.events ++ effect.events ++ noted }

/-- Does a run on a file system. -/
def run (tree : Tree) (settings : Settings) : Effect :=
  runOn .plain tree settings

/-! ## The whole program -/

/-- Loads the settings, puts the arguments on top and does the run. -/
def runWith (tree : Tree) (environment : Layer.Environment) (arguments : Arguments) : Effect :=
  match Settings.load tree.readBytes environment arguments.config with
  | none => ⟨tree, some .settings, []⟩
  | some settings => run tree (arguments.applyTo settings)

/-- What the program leaves behind. -/
structure Exit where
  tree : Tree
  code : Nat
  /-- The journal, as far as the reader asked for it. -/
  journal : List Event

/-- Does what the words of the command line ask for; `limit` is the level of the journal. -/
def execute (tree : Tree) (environment : Layer.Environment) (limit : Option Level)
    (words : List String) : Exit :=
  match Arguments.parse words with
  | .error misuse => ⟨tree, misuse.exitCode, []⟩
  | .ok arguments =>
    let effect := runWith tree environment arguments
    let failed := effect.failure.toList.map fun failure => Event.failed failure.message
    { tree := effect.tree
      code := if effect.failure.isSome then 1 else 0
      journal := (effect.events ++ failed).filter (Level.admits limit ·.level) }

end TableScribe
