import TableScribe.Statement.Cursor

/-!
# The name of a table

`readTableName` reads `[IF NOT EXISTS] name`, where a name may be qualified: of `shop.users` the
last segment counts.
-/

namespace TableScribe

/-- Reads names separated by dots, the first of `tokens` being a name, and answers with the last. -/
def readSegments (cursor : Cursor) : (tokens : List Token) → (count : Nat) → Reading String
  | [], count =>
    let cursor := cursor.moveTo count []
    ⟨.error (.missingTableName cursor.position), cursor, []⟩
  | [token], count =>
    match token.name? with
    | none =>
      let cursor := cursor.moveTo count [token]
      ⟨.error (.missingTableName cursor.position), cursor, []⟩
    | some name => ⟨.ok name, cursor.moveTo (count + 1) [], [.tableName name]⟩
  | token :: next :: rest, count =>
    match token.name? with
    | none =>
      let cursor := cursor.moveTo count (token :: next :: rest)
      ⟨.error (.missingTableName cursor.position), cursor, []⟩
    | some name =>
      if next.kind = .dot then readSegments cursor rest (count + 2)
      else ⟨.ok name, cursor.moveTo (count + 1) (next :: rest), [.tableName name]⟩

/-- What follows the words `IF NOT EXISTS`, if the tokens begin with them and go on. -/
def afterIfNotExists? : List Token → Option (List Token)
  | first :: second :: third :: rest =>
    if first.isKeyword .ifWord ∧ second.isKeyword .notWord ∧ third.isKeyword .existsWord ∧
        rest ≠ [] then
      some rest
    else none
  | _ => none

/-- Reads the name of the table, after `IF NOT EXISTS` or not. -/
def readTableName (cursor : Cursor) : Reading String :=
  match cursor.rest with
  | [] => readSegments cursor [] 0
  | token :: rest =>
    if token.isKeyword .ifWord then
      match afterIfNotExists? (token :: rest) with
      | none => ⟨.error (.incompleteIfNotExists token.start), cursor, []⟩
      | some rest => readSegments cursor rest 3
    else readSegments cursor (token :: rest) 0

end TableScribe
