import TableScribe.Statement.Cursor

/-!
# The values of an enum

`readValueList` reads `( 'a' , 'b' , … )` up to the parenthesis that closes it. The values are the
string literals directly between the outer parentheses; commas and all else are passed over.
-/

namespace TableScribe

/-- How far the reading of a value list has come. -/
structure ValueScan where
  /-- The byte offset of the opening parenthesis. -/
  openedAt : Nat
  /-- How many more parentheses are open. -/
  nested : Nat := 0
  /-- The values so far. -/
  values : List String := []
  deriving DecidableEq, Repr

/-- What one more token does to a value list. -/
inductive ValueScan.Step
  | more (scan : ValueScan)
  | closed (values : List String)
  deriving DecidableEq, Repr

/-- Takes one more token into a value list. -/
def ValueScan.step (scan : ValueScan) (token : Token) : ValueScan.Step :=
  match token.kind with
  | .stringLiteral =>
    if scan.nested = 0 then .more { scan with values := scan.values ++ [token.unquoted] }
    else .more scan
  | .leftParen => .more { scan with nested := scan.nested + 1 }
  | .rightParen =>
    match scan.nested with
    | 0 => .closed scan.values
    | nested + 1 => .more { scan with nested }
  | _ => .more scan

/-- Reads the rest of a value list; `count` tokens have been read. -/
def readValues (cursor : Cursor) (scan : ValueScan) :
    (tokens : List Token) → (count : Nat) → Reading (List String)
  | [], count => ⟨.error (.unmatchedInValues scan.openedAt), cursor.moveTo count [], []⟩
  | token :: rest, count =>
    match scan.step token with
    | .more scan => readValues cursor scan rest (count + 1)
    | .closed values => ⟨.ok values, cursor.moveTo (count + 1) rest, [.enumValues values]⟩

/-- Reads a value list, from its opening parenthesis on. -/
def readValueList (cursor : Cursor) : Reading (List String) :=
  match cursor.rest with
  | [] => ⟨.error (cursor.unexpected .valueList), cursor, []⟩
  | token :: rest =>
    if token.kind = .leftParen then readValues cursor { openedAt := token.start } rest 1
    else ⟨.error (cursor.unexpected .valueList), cursor, []⟩

end TableScribe
