import TableScribe.Schema.Column

/-!
# Tables

A `Table` is what one `CREATE TABLE` statement says: a name, the columns in the order of the
statement, and a comment.
-/

namespace TableScribe

structure Table where
  name : String
  columns : List Column := []
  comment : Option String := none
  deriving DecidableEq, Repr, Inhabited

namespace Table

def column? (table : Table) (name : String) : Option Column :=
  table.columns.find? (·.name == name)

/-- The columns that list their values. -/
def enumColumns (table : Table) : List Column :=
  table.columns.filter (·.isEnum)

theorem mem_enumColumns {table : Table} {column : Column} :
    column ∈ table.enumColumns ↔ column ∈ table.columns ∧ column.isEnum = true := by
  simp [enumColumns]

end Table

end TableScribe
