/-!
# Column types

The types a column can have. All but `enum` are named by a single key word; `enum` comes with a list
of values.
-/

namespace TableScribe

inductive ColumnType
  | int
  | integer
  | varchar
  | text
  | real
  | boolean
  | timestamp
  | enum
  deriving DecidableEq, Repr, Inhabited

namespace ColumnType

def all : List ColumnType :=
  [int, integer, varchar, text, real, boolean, timestamp, enum]

/-- The name of the type in the metadata. -/
def name : ColumnType → String
  | int => "INT"
  | integer => "INTEGER"
  | varchar => "VARCHAR"
  | text => "TEXT"
  | real => "REAL"
  | boolean => "BOOLEAN"
  | timestamp => "TIMESTAMP"
  | enum => "enum"

def ofName? (text : String) : Option ColumnType :=
  all.find? (·.name == text)

theorem ofName?_name (type : ColumnType) : ofName? type.name = some type := by
  cases type <;> decide

end ColumnType

end TableScribe
