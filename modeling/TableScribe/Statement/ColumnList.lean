import TableScribe.Schema.Table
import TableScribe.Statement.ValueList

/-!
# The column list

`readColumnList` walks the column list token by token. A `ColumnWalk` holds the offsets of the open
parentheses, the draft of the current column and the columns finished so far:

1. a comma directly inside the outer parentheses finishes a column, and so does the parenthesis
   that closes the list;
2. deeper parentheses only change the depth: names and bare literals inside them are passed over;
3. `ENUM` must be followed by a value list, `COMMENT` may be followed by a string;
4. `DEFAULT` takes the token after it, whatever that is, and remembers it if it is a literal or
   `CURRENT_TIMESTAMP`.

A draft without a name or a type is dropped when it is finished.
-/

namespace TableScribe

/-- What the next token of a column list is looked at for. -/
inductive Awaiting
  /-- An attribute, a comma or a parenthesis. -/
  | item
  /-- The token after `DEFAULT`. -/
  | default
  /-- Perhaps the text after `COMMENT`. -/
  | comment
  /-- The parenthesis after `ENUM`. -/
  | valueList
  /-- The rest of the values. -/
  | values (scan : ValueScan)
  deriving DecidableEq, Repr

/-- How far the reading of a column list has come. -/
structure ColumnWalk where
  /-- The byte offsets of the open parentheses, the innermost first. -/
  opened : List Nat := []
  /-- The column being read. -/
  draft : Option ColumnDraft := none
  /-- The columns that are finished. -/
  columns : List Column := []
  awaiting : Awaiting := .item
  deriving DecidableEq, Repr

namespace ColumnWalk

/-- Whether the walk is directly inside the outer parentheses. -/
def isTopLevel (walk : ColumnWalk) : Bool :=
  walk.opened.length = 1

def updateDraft (walk : ColumnWalk) (change : ColumnDraft → ColumnDraft) : ColumnWalk :=
  { walk with draft := walk.draft.map change }

def openAt (walk : ColumnWalk) (position : Nat) : ColumnWalk :=
  { walk with opened := position :: walk.opened }

/-- Gives the current column a name; it starts a column if there is none. -/
def name (walk : ColumnWalk) (name : String) : ColumnWalk :=
  { walk with draft := some ((walk.draft.getD {}).setName name) }

def finishColumn (walk : ColumnWalk) : ColumnWalk :=
  { walk with
    draft := none
    columns := walk.columns ++ (walk.draft.bind (·.build)).toList }

/-- What is noted when the current column is finished. -/
def droppedDraft (walk : ColumnWalk) : List Event :=
  match walk.draft with
  | none => []
  | some draft => if draft.build.isNone then [.droppedColumn draft] else []

/-- What one more token does to a column list. -/
inductive Step
  /-- The list goes on. -/
  | more (walk : ColumnWalk) (events : List Event)
  /-- The token closes the list. -/
  | closed (columns : List Column) (events : List Event)
  /-- The token is at fault and has been read. -/
  | failed (fault : Fault)
  /-- The token is at fault and has not been read. -/
  | refused (fault : Fault)
  deriving DecidableEq, Repr

/-- Takes a key word that is looked at as an attribute. -/
def keyword (walk : ColumnWalk) (token : Token) (word : Keyword) : ColumnWalk :=
  match word with
  | .enum => { walk with awaiting := .valueList }
  | .default => { walk with awaiting := .default }
  | .comment => { walk with awaiting := .comment }
  | .autoIncrement => walk.updateDraft (·.setAutoIncrement)
  | .currentTimestamp =>
    if walk.isTopLevel then walk.updateDraft (·.setDefault token.defaultText) else walk
  | word =>
    match word.columnType? with
    | some type => walk.updateDraft (·.setType type)
    | none => walk

/-- Takes a token that is looked at as an attribute, a comma or a parenthesis. -/
def item (walk : ColumnWalk) (token : Token) : Step :=
  match token.kind with
  | .leftParen => .more (walk.openAt token.start) []
  | .rightParen =>
    match walk.opened with
    | [] => .failed (.unmatchedClosing token.start)
    | [_] => .closed walk.finishColumn.columns walk.droppedDraft
    | _ :: outer => .more { walk with opened := outer } []
  | .name | .quotedName =>
    if walk.isTopLevel then .more (walk.name token.unquoted) [] else .more walk []
  | .length =>
    .more (walk.updateDraft fun draft =>
      if draft.type = some .varchar then draft.setLength token.unquoted else draft) []
  | .realLiteral | .integerLiteral =>
    if walk.isTopLevel then .more (walk.updateDraft (·.setDefault token.defaultText)) []
    else .more walk []
  | .comma =>
    if walk.isTopLevel then .more walk.finishColumn walk.droppedDraft else .more walk []
  | .keyword word => .more (walk.keyword token word) []
  | _ => .more walk []

/-- Takes the token after `DEFAULT`. -/
def defaultValue (walk : ColumnWalk) (token : Token) : ColumnWalk :=
  if token.kind.isDefaultValue then walk.updateDraft (·.setDefault token.defaultText)
  else if token.kind = .leftParen then walk.openAt token.start
  else walk

/-- Takes one more token into a column list. -/
def step (walk : ColumnWalk) (token : Token) : Step :=
  match walk.awaiting with
  | .item => walk.item token
  | .default => .more ({ walk with awaiting := .item }.defaultValue token) []
  | .comment =>
    let walk := { walk with awaiting := .item }
    if token.kind = .stringLiteral then .more (walk.updateDraft (·.setComment token.unquoted)) []
    else walk.item token
  | .valueList =>
    if token.kind = .leftParen then
      .more { walk with awaiting := .values { openedAt := token.start } } []
    else .refused (.unexpectedToken .valueList token.lexeme token.start)
  | .values scan =>
    match scan.step token with
    | .more scan => .more { walk with awaiting := .values scan } []
    | .closed values =>
      .more ({ walk with awaiting := .item }.updateDraft (·.setValues values))
        [.enumValues values]

/-- What the end of the tokens means; `finish` is the byte at which they end. A list whose
parentheses are all closed again, because none was opened, ends there. -/
def atEnd (walk : ColumnWalk) (finish : Nat) : Except Fault (List Column) :=
  match walk.awaiting with
  | .valueList => .error (.unexpectedEnd .valueList finish)
  | .values scan => .error (.unmatchedInValues scan.openedAt)
  | _ =>
    match walk.opened with
    | position :: _ => .error (.unmatchedOpening position)
    | [] => .ok walk.finishColumn.columns

/-- What is noted at the end of the tokens. -/
def eventsAtEnd (walk : ColumnWalk) (finish : Nat) : List Event :=
  match walk.atEnd finish with
  | .error _ => []
  | .ok _ => walk.droppedDraft

end ColumnWalk

/-- Reads the rest of a column list; `count` tokens have been read and `events` noted. -/
def readColumns (cursor : Cursor) (walk : ColumnWalk) :
    (tokens : List Token) → (count : Nat) → (events : List Event) → Reading (List Column)
  | [], count, events =>
    ⟨walk.atEnd cursor.finish, cursor.moveTo count [],
      events ++ walk.eventsAtEnd cursor.finish⟩
  | token :: rest, count, events =>
    match walk.step token with
    | .more walk noted => readColumns cursor walk rest (count + 1) (events ++ noted)
    | .closed columns noted =>
      ⟨.ok columns, cursor.moveTo (count + 1) rest, events ++ noted⟩
    | .failed fault => ⟨.error fault, cursor.moveTo (count + 1) rest, events⟩
    | .refused fault => ⟨.error fault, cursor.moveTo count (token :: rest), events⟩

/-- Reads a column list, from its opening parenthesis on. -/
def readColumnList (cursor : Cursor) : Reading (List Column) :=
  readColumns cursor {} cursor.rest 0 []

end TableScribe
