import TableScribe.Fault
import TableScribe.Schema.Column

/-!
# The journal of a run

Every stage notes what it did or ran into as an `Event`. An event is data; `level` ranks it and
`message` words it, and `Level.admits` decides what a reader who asked for a level gets to see.
-/

namespace TableScribe

/-- How much an event matters. -/
inductive Level
  | error
  | warn
  | info
  | debug
  | trace
  deriving DecidableEq, Repr

namespace Level

def name : Level → String
  | error => "ERROR"
  | warn => "WARN"
  | info => "INFO"
  | debug => "DEBUG"
  | trace => "TRACE"

/-- Errors come first. -/
def rank : Level → Nat
  | error => 1
  | warn => 2
  | info => 3
  | debug => 4
  | trace => 5

def all : List Level :=
  [error, warn, info, debug, trace]

/-- Whether a reader who asks for `limit` sees this level; `none` asks for nothing. -/
def admits (limit : Option Level) (level : Level) : Bool :=
  match limit with
  | none => false
  | some limit => level.rank ≤ limit.rank

end Level

/-- Something worth noting. -/
inductive Event
  | readStatements (count : Nat) (path : String)
  | tokenized (bytes tokens : Nat)
  | parsing (rendered : String)
  | skippedToken (lexeme : String)
  | tableName (name : String)
  | enumValues (values : List String)
  | droppedColumn (draft : ColumnDraft)
  | ignoredOption (lexeme : String)
  | parsedTable (name : String) (columns : Nat)
  | skippedStatement (index : Nat) (fault : Fault)
  | loadedRelations (count : Nat) (path : String)
  | collectedEnums (enums tables : Nat)
  | noParentColumns (table : String)
  | noChildColumns (table : String)
  | generated (path : String)
  | finished (files tables statements : Nat) (directory : String)
  | failed (reason : String)
  deriving DecidableEq, Repr

namespace Event

/-- The rank of an event. -/
def level : Event → Level
  | readStatements .. => .debug
  | tokenized .. => .trace
  | parsing .. => .trace
  | skippedToken .. => .trace
  | tableName .. => .trace
  | enumValues .. => .trace
  | droppedColumn .. => .trace
  | ignoredOption .. => .trace
  | parsedTable .. => .debug
  | skippedStatement .. => .warn
  | loadedRelations .. => .debug
  | collectedEnums .. => .debug
  | noParentColumns .. => .warn
  | noChildColumns .. => .warn
  | generated .. => .info
  | finished .. => .info
  | failed .. => .error

def message : Event → String
  | readStatements count path => "Read " ++ toString count ++ " statements from " ++ path
  | tokenized bytes tokens =>
    "Tokenized " ++ toString bytes ++ " bytes into " ++ toString tokens ++ " tokens"
  | parsing rendered => "Parsing " ++ rendered
  | skippedToken lexeme => "Skipping " ++ Text.quoted lexeme ++ " before CREATE TABLE"
  | tableName name => "Table name " ++ Text.quoted name
  | enumValues values => "ENUM values " ++ ColumnDraft.shownList values
  | droppedColumn draft => "Dropping incomplete column definition " ++ draft.describe
  | ignoredOption lexeme => "Ignoring table option token " ++ Text.quoted lexeme
  | parsedTable name columns =>
    "Parsed table " ++ name ++ " with " ++ toString columns ++ " fields"
  | skippedStatement index fault =>
    "Skipping statement " ++ toString index ++ ": " ++ fault.message
  | loadedRelations count path =>
    "Loaded " ++ toString count ++ " inheritance relations from " ++ path
  | collectedEnums enums tables =>
    "Collected " ++ toString enums ++ " enums from " ++ toString tables ++ " tables"
  | noParentColumns table => "Cannot find fields of parent table " ++ Text.quoted table
  | noChildColumns table => "Cannot find fields of child table " ++ Text.quoted table
  | generated path => "Generated " ++ path
  | finished files tables statements directory =>
    "Wrote " ++ toString files ++ " files for " ++ toString tables ++ " of " ++
      toString statements ++ " statements to " ++ directory
  | failed reason => reason

/-- A character as the journal prints it: one that could steer a terminal is shown by its number. -/
def printed (c : Char) : List Char :=
  if c = '\x07' then "\\x07".toList
  else if c = '\x08' then "\\x08".toList
  else if c = '\x0c' then "\\x0c".toList
  else if c = '\x1b' then "\\x1b".toList
  else if c = '\x7f' then "\\x7f".toList
  else if 0x80 ≤ c.toNat ∧ c.toNat ≤ 0x9f then Text.codePointEscape c
  else [c]

/-- The message of an event as the journal prints it. -/
def line (event : Event) : String :=
  String.ofList (event.message.toList.flatMap printed)

end Event

end TableScribe
