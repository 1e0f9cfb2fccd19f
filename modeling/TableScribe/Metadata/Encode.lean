import TableScribe.Metadata.Json
import TableScribe.Schema.Table

/-!
# Tables as metadata

A table is written as an object with its attributes under fixed keys, in a fixed order. An attribute
that is absent has no member, and `auto_increment` appears only if it is set.
-/

namespace TableScribe.Metadata

/-- A member if there is a text for it. -/
def textMember (key : String) (value : Option String) : List (String × Json) :=
  value.toList.map fun value => (key, .text value)

def columnMembers (column : Column) : List (String × Json) :=
  [("name", .text column.name), ("type", .text column.type.name)] ++
    textMember "length" column.length ++
    textMember "default" column.default ++
    (column.values.toList.map fun values => ("enum_value", .array (values.map .text))) ++
    (if column.autoIncrement then [("auto_increment", .boolean true)] else []) ++
    textMember "comment" column.comment

def ofColumn (column : Column) : Json :=
  .object (columnMembers column)

def ofTable (table : Table) : Json :=
  .object <|
    [("table_name", .text table.name), ("fields", .array (table.columns.map ofColumn))] ++
      textMember "comment" table.comment

/-- The metadata document of a list of tables. -/
def ofTables (tables : List Table) : Json :=
  .array (tables.map ofTable)

def render (tables : List Table) : String :=
  (ofTables tables).pretty ++ "\n"

end TableScribe.Metadata
