import TableScribe.Lexical.Match

/-!
# The statements of a script

A script is cut at every semicolon that is followed by another `CREATE TABLE`; semicolons elsewhere
stay in their statement. A statement is trimmed and ends with a semicolon, and a piece with nothing
in it is no statement.
-/

namespace TableScribe

open Matcher in
/-- Blanks, `CREATE`, blanks, and `TABLE`, in any letter case. -/
def openingWords : Matcher :=
  andThen (many Text.isBlank) <|
    andThen (foldedWord "CREATE".toList) <|
      andThen (some1 Text.isBlank) (foldedWord "TABLE".toList)

/-- Whether a text begins with blanks and the words `CREATE TABLE`. -/
def opensStatement (text : List Char) : Bool :=
  match openingWords text with
  | none => false
  | some (found, rest) => Text.atBoundary found.getLast? rest.head?

/-- The text in front of the first piece. -/
def consToFirst (c : Char) : List (List Char) → List (List Char)
  | [] => [[c]]
  | piece :: pieces => (c :: piece) :: pieces

/-- The pieces of a script between the semicolons that another `CREATE TABLE` follows. -/
def pieces : List Char → List (List Char)
  | [] => [[]]
  | c :: rest =>
    if c = ';' ∧ opensStatement rest then [] :: pieces rest else consToFirst c (pieces rest)

/-- A piece without blanks around it and without the semicolons at its end. -/
def tidy (piece : List Char) : List Char :=
  Text.trimEnd (Text.dropEndWhile (· = ';') (Text.trim piece))

/-- The statements of a script, in order. -/
def splitStatements (script : String) : List String :=
  ((pieces script.toList).map tidy |>.filter (· ≠ [])).map fun piece =>
    String.ofList (piece ++ [';'])

example : splitStatements "create table a (x int);\nCREATE TABLE b (y int)" =
    ["create table a (x int);", "CREATE TABLE b (y int);"] := by
  decide +kernel

end TableScribe
