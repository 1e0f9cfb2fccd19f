import TableScribe.Schema.ColumnType
import TableScribe.Text.Pieces
import TableScribe.Text.Quoted

/-!
# Columns and their drafts

A `Column` is a finished column definition. It comes from a `ColumnDraft`, which collects the
attributes in the order in which a definition states them; a later statement of an attribute
replaces an earlier one. `ColumnDraft.build` finishes a draft that has a name and a type and keeps
of its attributes those that go with the type.
-/

namespace TableScribe

structure Column where
  name : String
  type : ColumnType
  length : Option String := none
  /-- The default without quotes, or `CURRENT_TIMESTAMP`. -/
  default : Option String := none
  /-- The values of an `enum`, in the order of the definition. -/
  values : Option (List String) := none
  autoIncrement : Bool := false
  comment : Option String := none
  deriving DecidableEq, Repr, Inhabited

/-- Whether the column lists its values. -/
def Column.isEnum (column : Column) : Bool :=
  column.type = .enum

/-- The text unless it is empty. -/
def nonEmpty (text : String) : Option String :=
  if text = "" then none else some text

theorem nonEmpty_eq_some {text kept : String} :
    nonEmpty text = some kept ↔ kept = text ∧ text ≠ "" := by
  unfold nonEmpty
  split <;> simp_all [eq_comm]

/-- What is known so far of a column definition. -/
structure ColumnDraft where
  name : Option String := none
  type : Option ColumnType := none
  length : Option String := none
  default : Option String := none
  values : Option (List String) := none
  autoIncrement : Bool := false
  comment : Option String := none
  deriving DecidableEq, Repr, Inhabited

namespace ColumnDraft

def named (name : String) : ColumnDraft :=
  { name := some name }

def setName (name : String) (draft : ColumnDraft) : ColumnDraft :=
  { draft with name := some name }

def setType (type : ColumnType) (draft : ColumnDraft) : ColumnDraft :=
  { draft with type := some type }

def setLength (length : String) (draft : ColumnDraft) : ColumnDraft :=
  { draft with length := some length }

def setDefault (text : String) (draft : ColumnDraft) : ColumnDraft :=
  { draft with default := some text }

/-- The draft as an `enum` with the given values. -/
def setValues (values : List String) (draft : ColumnDraft) : ColumnDraft :=
  { draft with type := some .enum, values := some values }

/-- The draft as one that counts up by itself. -/
def setAutoIncrement (draft : ColumnDraft) : ColumnDraft :=
  { draft with autoIncrement := true }

def setComment (comment : String) (draft : ColumnDraft) : ColumnDraft :=
  { draft with comment := some comment }

/-- The column that a draft with a non-empty name and a type describes. Only a `varchar` keeps a
length and only an `enum` its values; an empty length or comment is dropped, an empty default is
not. -/
def build (draft : ColumnDraft) : Option Column :=
  match draft.name.bind nonEmpty, draft.type with
  | some name, some type =>
    some {
      name
      type
      length := if type = .varchar then draft.length.bind nonEmpty else none
      default := draft.default
      values := if type = .enum then draft.values else none
      autoIncrement := draft.autoIncrement
      comment := draft.comment.bind nonEmpty }
  | _, _ => none

theorem name_of_build {draft : ColumnDraft} {column : Column} (h : draft.build = some column) :
    draft.name = some column.name ∧ column.name ≠ "" := by
  unfold build at h
  cases hn : draft.name.bind nonEmpty with
  | none => simp [hn] at h
  | some name =>
    cases ht : draft.type with
    | none => simp [hn, ht] at h
    | some type =>
      simp only [hn, ht, Option.some.injEq] at h
      obtain ⟨text, h1, h2⟩ := Option.bind_eq_some_iff.1 hn
      obtain ⟨rfl, h3⟩ := nonEmpty_eq_some.1 h2
      subst h
      exact ⟨h1, h3⟩

/-! ## How a draft is shown -/

/-- How a type is shown inside a draft. -/
def typeLabel : ColumnType → String
  | .int => "Int"
  | .integer => "Integer"
  | .varchar => "Varchar"
  | .text => "Text"
  | .real => "Real"
  | .boolean => "Boolean"
  | .timestamp => "Timestamp"
  | .enum => "Enum"

/-- Quoted texts in brackets. -/
def shownList (texts : List String) : String :=
  "[" ++ Text.join ", " (texts.map Text.quoted) ++ "]"

/-- A value that may be missing, shown by `shown`. -/
def shownOption (shown : α → String) : Option α → String
  | none => "None"
  | some a => "Some(" ++ shown a ++ ")"

/-- The draft with all its attributes on one line. -/
def describe (draft : ColumnDraft) : String :=
  "FieldBuilder \x7b " ++ Text.join ", " [
    "name: " ++ shownOption Text.quoted draft.name,
    "field_type: " ++ shownOption typeLabel draft.type,
    "length: " ++ shownOption Text.quoted draft.length,
    "default: " ++ shownOption Text.quoted draft.default,
    "enum_values: " ++ shownOption shownList draft.values,
    "auto_increment: " ++ (if draft.autoIncrement then "true" else "false"),
    "comment: " ++ shownOption Text.quoted draft.comment] ++ " \x7d"

end ColumnDraft

end TableScribe
