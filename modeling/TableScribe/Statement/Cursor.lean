import TableScribe.Journal
import TableScribe.Lexical.Token

/-!
# A place in a token list

The readers of a statement move a `Cursor` along its tokens and answer with a `Reading`: an
outcome, the cursor where they stopped, and what they noted. They answer with a cursor also when
they fail.
-/

namespace TableScribe

/-- A place in a token list. -/
structure Cursor where
  /-- The tokens still to be read. -/
  rest : List Token
  /-- How many tokens have been read. -/
  index : Nat := 0
  /-- The byte at which the last token of the list ends. -/
  finish : Nat := 0
  deriving DecidableEq, Repr

namespace Cursor

def ofTokens (tokens : List Token) : Cursor where
  rest := tokens
  finish := (tokens.getLast?.map (·.stop)).getD 0

/-- The cursor before `rest`, with `count` more tokens read. -/
def moveTo (cursor : Cursor) (count : Nat) (rest : List Token) : Cursor :=
  { cursor with rest, index := cursor.index + count }

/-- The byte offset of the next token, or of the end of the last one. -/
def position (cursor : Cursor) : Nat :=
  match cursor.rest with
  | [] => cursor.finish
  | token :: _ => token.start

/-- The fault of the next token not being what is expected. -/
def unexpected (cursor : Cursor) (expected : Expected) : Fault :=
  match cursor.rest with
  | [] => .unexpectedEnd expected cursor.finish
  | token :: _ => .unexpectedToken expected token.lexeme token.start

end Cursor

/-- What a reader found, where it stopped and what it noted. -/
structure Reading (α : Type) where
  outcome : Except Fault α
  cursor : Cursor
  events : List Event := []

end TableScribe
