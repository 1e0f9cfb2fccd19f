import TableScribe.Settings.Reader
import TableScribe.Statement.CreateTable
import TableScribe.Storage.Tree
import TableScribe.Text.Blank

/-!
# Settings

`Settings` says what a run reads, where it writes and how strict it is. They come in layers: what
the environment says goes before what the settings file says, and that before the defaults.
-/

namespace TableScribe

/-- What a run is to do. -/
structure Settings where
  /-- The script with the statements. -/
  input : String := "tables.sql"
  /-- The directory that the generated files go below. -/
  directory : String := "out"
  /-- The file with the relations between tables. -/
  relations : Option String := none
  /-- Whether what stands around a statement is put up with. -/
  lenient : Bool := false
  /-- Whether the first statement that is not understood ends the run. -/
  failFast : Bool := false
  /-- Whether the metadata are written, too. -/
  withMetadata : Bool := false
  deriving DecidableEq, Repr

def Settings.strictness (settings : Settings) : Strictness :=
  if settings.lenient then .lenient else .strict

/-- The settings that one source states. -/
structure Layer where
  input : Option String := none
  directory : Option String := none
  relations : Option String := none
  lenient : Option Bool := none
  failFast : Option Bool := none
  withMetadata : Option Bool := none
  deriving DecidableEq, Repr

namespace Layer

/-- One layer on top of another. -/
def onTop (upper lower : Layer) : Layer where
  input := upper.input.or lower.input
  directory := upper.directory.or lower.directory
  relations := upper.relations.or lower.relations
  lenient := upper.lenient.or lower.lenient
  failFast := upper.failFast.or lower.failFast
  withMetadata := upper.withMetadata.or lower.withMetadata

/-- The settings of a layer, with the defaults for what it does not state. -/
def complete (layer : Layer) : Settings :=
  let defaults : Settings := {}
  { input := layer.input.getD defaults.input
    directory := layer.directory.getD defaults.directory
    relations := layer.relations
    lenient := layer.lenient.getD defaults.lenient
    failFast := layer.failFast.getD defaults.failFast
    withMetadata := layer.withMetadata.getD defaults.withMetadata }

/-! ## The environment -/

/-- Environment variables with their values. -/
abbrev Environment := List (String × String)

/-- The truth value that a variable states, in any letter case and with blanks around it. -/
def truthValue? (text : String) : Option Bool :=
  let name := String.ofList ((Text.trim text.toList).map Char.toLower)
  if ["1", "true", "yes"].contains name then some true
  else if ["0", "false", "no"].contains name then some false
  else none

/-- What a variable says about a truth value; an empty one says nothing. -/
def environmentFlag (environment : Environment) (name : String) : Option (Option Bool) :=
  match environment.lookup name with
  | none => some none
  | some text => if text = "" then some none else (truthValue? text).map some

/-- The layer of the environment, unless a variable makes no sense. -/
def ofEnvironment (environment : Environment) : Option Layer :=
  match environmentFlag environment "DDL2TS_LENIENT",
      environmentFlag environment "DDL2TS_FAIL_FAST",
      environmentFlag environment "DDL2TS_EMIT_JSON" with
  | some lenient, some failFast, some withMetadata =>
    some {
      input := environment.lookup "DDL2TS_INPUT"
      directory := environment.lookup "DDL2TS_OUT_DIR"
      relations := environment.lookup "DDL2TS_INHERITANCE"
      lenient
      failFast
      withMetadata }
  | _, _, _ => none

/-! ## The settings file -/

/-- What a document says about a path. -/
def documentPath (members : Members) (key : String) : Option (Option String) :=
  match members.lookup key with
  | none => some none
  | some (.text value) => some (some value)
  | some _ => none

/-- What a document says about a truth value. -/
def documentFlag (members : Members) (key : String) : Option (Option Bool) :=
  match members.lookup key with
  | none => some none
  | some (.boolean value) => some (some value)
  | some _ => none

/-- The layer of a document, unless a value is of the wrong kind. Other keys do not matter. -/
def ofMembers (members : Members) : Option Layer :=
  match documentPath members "input", documentPath members "out_dir",
      documentPath members "inheritance", documentFlag members "lenient",
      documentFlag members "fail_fast", documentFlag members "emit_json" with
  | some input, some directory, some relations, some lenient, some failFast, some withMetadata =>
    some { input, directory, relations, lenient, failFast, withMetadata }
  | _, _, _, _, _, _ => none

/-- The layer of a settings file, given what came of reading its bytes. A file that is not there
states nothing. -/
def ofBytes (bytes : Except Storage.StorageError ByteArray) : Option Layer :=
  match bytes with
  | .error e => if e = .notFound then some {} else none
  | .ok bytes =>
    match String.fromUTF8? bytes with
    | none => none
    | some text =>
      match Reader.readDocument text.toList with
      | none => none
      | some members => ofMembers members

/-- The layer of the settings file, which must be called `.toml`. -/
def ofFile (read : String → Except Storage.StorageError ByteArray) (path : String) :
    Option Layer :=
  if Storage.extension? path = some "toml" then ofBytes (read path) else none

end Layer

/-- The settings from the environment and perhaps a settings file; `none` if either makes no
sense. -/
def Settings.load (read : String → Except Storage.StorageError ByteArray)
    (environment : Layer.Environment) (file : Option String) : Option Settings :=
  match Layer.ofEnvironment environment with
  | none => none
  | some upper =>
    match file with
    | none => some upper.complete
    | some path =>
      match Layer.ofFile read path with
      | none => none
      | some lower => some (upper.onTop lower).complete

end TableScribe
