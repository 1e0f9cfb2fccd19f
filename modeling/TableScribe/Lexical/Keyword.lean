import TableScribe.Schema.ColumnType

/-!
# Key words

The words that a statement reads specially. They are written in capitals here and matched in any
letter case; every other word is a name.
-/

namespace TableScribe

/-- A word with a meaning of its own. -/
inductive Keyword
  | create
  | table
  | ifWord
  | notWord
  | existsWord
  | primary
  | key
  | default
  | null
  | autoIncrement
  | unique
  | check
  | comment
  | boolean
  | integer
  | int
  | varchar
  | text
  | real
  | enum
  | timestamp
  | currentTimestamp
  deriving DecidableEq, Repr

namespace Keyword

/-- The canonical spelling. -/
def spelling : Keyword → String
  | create => "CREATE"
  | table => "TABLE"
  | ifWord => "IF"
  | notWord => "NOT"
  | existsWord => "EXISTS"
  | primary => "PRIMARY"
  | key => "KEY"
  | default => "DEFAULT"
  | null => "NULL"
  | autoIncrement => "AUTO_INCREMENT"
  | unique => "UNIQUE"
  | check => "CHECK"
  | comment => "COMMENT"
  | boolean => "BOOLEAN"
  | integer => "INTEGER"
  | int => "INT"
  | varchar => "VARCHAR"
  | text => "TEXT"
  | real => "REAL"
  | enum => "ENUM"
  | timestamp => "TIMESTAMP"
  | currentTimestamp => "CURRENT_TIMESTAMP"

/-- Every key word, in the order in which they are tried. -/
def all : List Keyword :=
  [create, table, ifWord, notWord, existsWord, primary, key, default, null, autoIncrement, unique,
    check, comment, boolean, integer, int, varchar, text, real, enum, timestamp, currentTimestamp]

theorem mem_all (word : Keyword) : word ∈ all := by
  cases word <;> decide

/-- The column type that a key word names. `ENUM` names none: its type is known only once its
values have been read. -/
def columnType? : Keyword → Option ColumnType
  | int => some .int
  | integer => some .integer
  | varchar => some .varchar
  | text => some .text
  | real => some .real
  | boolean => some .boolean
  | timestamp => some .timestamp
  | _ => none

end Keyword

end TableScribe
