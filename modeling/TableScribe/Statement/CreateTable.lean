import TableScribe.Lexical.Scan
import TableScribe.Statement.ColumnList
import TableScribe.Statement.TableName

/-!
# CREATE TABLE

`readCreateTable` reads a whole statement: `CREATE TABLE`, the table name, the column list and the
table options. A strict reading takes the statement and nothing else. A lenient one passes over
everything before the first `CREATE TABLE`, accepts a statement without a column list, and ignores
what follows the statement.
-/

namespace TableScribe

/-- How much around a statement is put up with. -/
inductive Strictness
  | strict
  | lenient
  deriving DecidableEq, Repr

def Strictness.name : Strictness → String
  | strict => "strict"
  | lenient => "lenient"

def startsCreateTable : List Token → Bool
  | first :: second :: _ => first.isKeyword .create && second.isKeyword .table
  | _ => false

/-- Reads `CREATE TABLE` and nothing before it. -/
def readOpening (cursor : Cursor) : Reading Unit :=
  match cursor.rest with
  | [] => ⟨.error (cursor.unexpected .create), cursor, []⟩
  | first :: rest =>
    if first.isKeyword .create then
      let cursor := cursor.moveTo 1 rest
      match rest with
      | [] => ⟨.error (cursor.unexpected .table), cursor, []⟩
      | second :: rest =>
        if second.isKeyword .table then ⟨.ok (), cursor.moveTo 1 rest, []⟩
        else ⟨.error (cursor.unexpected .table), cursor, []⟩
    else ⟨.error (cursor.unexpected .create), cursor, []⟩

/-- Reads up to and including the first `CREATE TABLE`; `count` tokens have been read. -/
def seekOpening (cursor : Cursor) :
    (tokens : List Token) → (count : Nat) → (events : List Event) → Reading Unit
  | [], count, events => ⟨.error .missingCreateTable, cursor.moveTo count [], events⟩
  | token :: rest, count, events =>
    if startsCreateTable (token :: rest) then
      ⟨.ok (), cursor.moveTo (count + 2) rest.tail, events⟩
    else seekOpening cursor rest (count + 1) (events ++ [.skippedToken token.lexeme])

/-- Reads the beginning of the statement, as strictly as told. -/
def readStart (strictness : Strictness) (cursor : Cursor) : Reading Unit :=
  match strictness with
  | .strict => readOpening cursor
  | .lenient => seekOpening cursor cursor.rest 0 []

/-- What the table options have just gone through. -/
inductive OptionState
  | plain
  | afterComment
  | afterEquals
  deriving DecidableEq, Repr

/-- Reads the table options up to and including a semicolon and answers with the table comment,
which is the text of the last `COMMENT`, with or without an equals sign, unless it is empty. -/
def readOptions (cursor : Cursor) :
    OptionState → Option String → (tokens : List Token) → (count : Nat) → (events : List Event) →
      Reading (Option String)
  | _, comment, [], count, events => ⟨.ok comment, cursor.moveTo count [], events⟩
  | state, comment, token :: rest, count, events =>
    if state = .afterComment ∧ token.kind = .equals then
      readOptions cursor .afterEquals comment rest (count + 1) events
    else if state ≠ .plain ∧ token.kind = .stringLiteral then
      readOptions cursor .plain (nonEmpty token.unquoted) rest (count + 1) events
    else if token.kind = .semicolon then
      ⟨.ok comment, cursor.moveTo (count + 1) rest, events⟩
    else if token.kind = .keyword .comment then
      readOptions cursor .afterComment comment rest (count + 1) events
    else
      readOptions cursor .plain comment rest (count + 1) (events ++ [.ignoredOption token.lexeme])

/-- Reads the table options; a strict reading demands that nothing follows them. -/
def readTableOptions (strictness : Strictness) (cursor : Cursor) : Reading (Option String) :=
  let reading := readOptions cursor .plain none cursor.rest 0 []
  if strictness = .strict ∧ reading.cursor.rest ≠ [] then
    { reading with outcome := .error (reading.cursor.unexpected .statementEnd) }
  else reading

/-- Whether the tokens begin with a parenthesis that opens. -/
def startsList : List Token → Bool
  | [] => false
  | token :: _ => token.kind = .leftParen

/-- Reads what follows the table name: the column list and the table options. -/
def readBody (strictness : Strictness) (name : String) (cursor : Cursor) : Reading Table :=
  if startsList cursor.rest then
    let list := readColumnList cursor
    match list.outcome with
    | .error fault => ⟨.error fault, list.cursor, list.events⟩
    | .ok columns =>
      let options := readTableOptions strictness list.cursor
      match options.outcome with
      | .error fault => ⟨.error fault, options.cursor, list.events ++ options.events⟩
      | .ok comment =>
        ⟨.ok { name, columns, comment }, options.cursor,
          list.events ++ options.events ++ [.parsedTable name columns.length]⟩
  else
    match strictness with
    | .strict => ⟨.error (cursor.unexpected .columnList), cursor, []⟩
    | .lenient => ⟨.ok { name }, cursor, []⟩

/-- Reads one statement, from the cursor on. -/
def readCreateTable (strictness : Strictness) (cursor : Cursor) : Reading Table :=
  if cursor.index = 0 ∧ cursor.rest = [] then ⟨.error .emptyStatement, cursor, []⟩
  else
    let start := readStart strictness cursor
    match start.outcome with
    | .error fault => ⟨.error fault, start.cursor, start.events⟩
    | .ok () =>
      let header := readTableName start.cursor
      match header.outcome with
      | .error fault => ⟨.error fault, header.cursor, start.events ++ header.events⟩
      | .ok name =>
        let body := readBody strictness name header.cursor
        { body with events := start.events ++ header.events ++ body.events }

/-- The table that a token list defines. -/
def parseTokens (strictness : Strictness) (tokens : List Token) : Except Fault Table :=
  (readCreateTable strictness (.ofTokens tokens)).outcome

/-- The table that a statement defines. -/
def parseStatement (strictness : Strictness) (statement : String) : Except Fault Table :=
  match scan statement with
  | .error fault => .error fault
  | .ok tokens => parseTokens strictness tokens

def statementEvents (strictness : Strictness) (statement : String) : List Event :=
  match scan statement with
  | .error _ => []
  | .ok tokens =>
    [.tokenized statement.utf8ByteSize tokens.length, .parsing (renderTokens tokens)] ++
      (readCreateTable strictness (.ofTokens tokens)).events

end TableScribe
