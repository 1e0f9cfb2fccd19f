import TableScribe.Metadata.Encode
import TableScribe.Proofs.Lookup
import TableScribe.Proofs.Metadata.Reader

/-!
# Tables from metadata

The metadata are read back by the keys under which they are written: `column?` and `table?` take the
value of a document apart, `readTables` a document. An attribute whose member is missing is absent,
and `auto_increment` is false then.

`render_faithful` says that this gives back exactly the tables that were written, whatever texts
they hold and whichever attributes are there. It rests on `lookup_columnMembers`, which says what
stands under each key: an attribute that is left out is not mistaken for an empty one.
-/

namespace TableScribe.Metadata

/-! ## Taking values apart -/

def text? : Json → Option String
  | .text value => some value
  | _ => none

def boolean? : Json → Option Bool
  | .boolean value => some value
  | _ => none

theorem text?_text (value : String) : text? (.text value) = some value := rfl

theorem boolean?_boolean (value : Bool) : boolean? (.boolean value) = some value := rfl

/-- The items of a list, each of them taken apart. -/
def list? (item? : Json → Option α) : Json → Option (List α)
  | .array items => items.mapM item?
  | _ => none

/-- The value under a key, which has to be there. -/
def required (members : List (String × Json)) (key : String) (value? : Json → Option α) :
    Option α :=
  (members.lookup key).bind value?

/-- The value under a key, or none if the key is missing. -/
def optional (members : List (String × Json)) (key : String) (value? : Json → Option α) :
    Option (Option α) :=
  match members.lookup key with
  | none => some none
  | some value => (value? value).map some

def column? : Json → Option Column
  | .object members => do
    let name ← required members "name" text?
    let type ← (required members "type" text?).bind ColumnType.ofName?
    let length ← optional members "length" text?
    let default ← optional members "default" text?
    let values ← optional members "enum_value" (list? text?)
    let autoIncrement ← optional members "auto_increment" boolean?
    let comment ← optional members "comment" text?
    return {
      name, type, length, default, values, comment, autoIncrement := autoIncrement.getD false }
  | _ => none

def table? : Json → Option Table
  | .object members => do
    let name ← required members "table_name" text?
    let columns ← required members "fields" (list? column?)
    let comment ← optional members "comment" text?
    return { name, columns, comment }
  | _ => none

/-- The tables that a document describes. -/
def readTables (document : String) : Option (List Table) :=
  (Json.read document).bind (list? table?)

/-! ## What was written -/

theorem list?_map {write : α → Json} {item? : Json → Option α}
    (h : ∀ a, item? (write a) = some a) (list : List α) :
    list? item? (.array (list.map write)) = some list := by
  show (list.map write).mapM item? = some list
  induction list with
  | nil => rfl
  | cons a rest ih =>
    rw [List.map_cons, List.mapM_cons, h, ih]
    rfl

/-- A member that is written only if there is something to write. -/
theorem lookup_member (write : α → Json) (key other : String) (value : Option α) :
    (value.toList.map fun value => (key, write value)).lookup other =
      if other = key then value.map write else none := by
  cases value with
  | none => simp
  | some value =>
    rw [Option.toList_some, List.map_singleton, lookup_cons_eq_if]
    rfl

theorem lookup_textMember (key other : String) (value : Option String) :
    (textMember key value).lookup other = if other = key then value.map .text else none :=
  lookup_member .text key other value

/-- A member that is written only if it is true. -/
theorem lookup_flag (key other : String) (value : Bool) :
    (if value then [(key, Json.boolean true)] else []).lookup other =
      if other = key then (if value then some true else none).map .boolean else none := by
  cases value with
  | false => simp
  | true => exact lookup_cons_eq_if other []

theorem required_of_lookup {members : List (String × Json)} {key : String} {written : Json}
    {value? : Json → Option α} {value : α} (h : members.lookup key = some written)
    (hw : value? written = some value) : required members key value? = some value := by
  unfold required
  rw [h, Option.bind_some, hw]

/-- What is written only if it is there is read back, also if it is not there. -/
theorem optional_of_lookup {members : List (String × Json)} {key : String} {write : α → Json}
    {value? : Json → Option α} {value : Option α} (h : members.lookup key = value.map write)
    (hw : ∀ a, value? (write a) = some a) : optional members key value? = some value := by
  unfold optional
  rw [h]
  cases value with
  | none => rfl
  | some a =>
    show (value? (write a)).map some = some (some a)
    rw [hw]
    rfl

/-- What stands under a key of a column. -/
theorem lookup_columnMembers (column : Column) (key : String) :
    (columnMembers column).lookup key =
      match key with
      | "name" => some (.text column.name)
      | "type" => some (.text column.type.name)
      | "length" => column.length.map .text
      | "default" => column.default.map .text
      | "enum_value" => column.values.map fun values => .array (values.map .text)
      | "auto_increment" => (if column.autoIncrement then some true else none).map .boolean
      | "comment" => column.comment.map .text
      | _ => none := by
  split
  case h_8 h1 h2 h3 h4 h5 h6 h7 =>
    simp [columnMembers, List.lookup_append, lookup_textMember, lookup_member, lookup_flag,
      lookup_cons_eq_if, if_neg h1, if_neg h2, if_neg h3, if_neg h4, if_neg h5, if_neg h6,
      if_neg h7]
  all_goals
    simp [columnMembers, List.lookup_append, lookup_textMember, lookup_member, lookup_flag,
      lookup_cons_eq_if]

theorem column?_ofColumn (column : Column) : column? (ofColumn column) = some column := by
  have hlookup := lookup_columnMembers column
  unfold column? ofColumn
  dsimp only
  rw [required_of_lookup (hlookup "name") (text?_text column.name),
    required_of_lookup (hlookup "type") (text?_text column.type.name),
    optional_of_lookup (hlookup "length") text?_text,
    optional_of_lookup (hlookup "default") text?_text,
    optional_of_lookup (hlookup "enum_value") fun values => list?_map text?_text values,
    optional_of_lookup (hlookup "auto_increment") boolean?_boolean,
    optional_of_lookup (hlookup "comment") text?_text, Option.bind_some, ColumnType.ofName?_name]
  obtain ⟨_, _, _, _, _, autoIncrement, _⟩ := column
  cases autoIncrement <;> rfl

theorem table?_ofTable (table : Table) : table? (ofTable table) = some table := by
  obtain ⟨name, columns, comment⟩ := table
  have hlookup : ∀ key, ([("table_name", Json.text name),
      ("fields", .array (columns.map ofColumn))] ++ textMember "comment" comment).lookup key =
        if key = "table_name" then some (.text name)
        else if key = "fields" then some (.array (columns.map ofColumn))
        else if key = "comment" then comment.map .text else none := by
    intro key
    rw [List.lookup_append, lookup_textMember, lookup_cons_eq_if, lookup_cons_eq_if]
    split
    · rfl
    · split <;> rfl
  unfold table? ofTable
  dsimp only
  rw [required_of_lookup (hlookup "table_name") (text?_text name),
    required_of_lookup (hlookup "fields") (list?_map column?_ofColumn columns),
    optional_of_lookup (hlookup "comment") text?_text]
  rfl

theorem readTables_pretty (tables : List Table) :
    readTables (ofTables tables).pretty = some tables := by
  unfold readTables
  rw [Json.read_of_isDocument (Json.isDocument_pretty (ofTables tables))]
  exact list?_map table?_ofTable tables

/-- The metadata of any tables are one document and a line feed; the document gives back exactly
these tables, and so no others have the same metadata. -/
theorem render_faithful (tables : List Table) :
    ∃ document : String, render tables = document ++ "\n" ∧
      Json.IsDocument (ofTables tables) document.toList ∧ readTables document = some tables ∧
      ∀ others, render others = render tables ↔ others = tables := by
  refine ⟨(ofTables tables).pretty, rfl, Json.isDocument_pretty _, readTables_pretty tables, ?_⟩
  intro others
  refine ⟨fun h => ?_, congrArg render⟩
  have hsame : (ofTables others).pretty = (ofTables tables).pretty :=
    (String.append_left_inj "\n").1 h
  have hread := readTables_pretty others
  rw [hsame, readTables_pretty, Option.some.injEq] at hread
  exact hread.symm

end TableScribe.Metadata
