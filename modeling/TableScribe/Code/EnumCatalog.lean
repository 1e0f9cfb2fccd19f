import TableScribe.Code.Literal
import TableScribe.Schema.Table
import TableScribe.Text.LetterCase

/-!
# Enums and their catalog

Every enum column is typed by a generated enum. Columns with the same values, in any order, share
one, which is called by the name of the first of them in capitals. Columns of one name with
different values share one that has all the values. An `EnumCatalog` remembers which values go by
which name and lists the enums to generate.
-/

namespace TableScribe.Code

/-- The list without the elements that equal the next one. -/
def dropRepeats [DecidableEq α] : List α → List α
  | [] => []
  | [a] => [a]
  | a :: b :: rest => if a = b then dropRepeats (b :: rest) else a :: dropRepeats (b :: rest)

/-- A sorted list with one more text at its place. -/
def insertText (text : String) : List String → List String
  | [] => [text]
  | first :: rest => if first < text then first :: insertText text rest else text :: first :: rest

/-- The texts in the order of their characters. -/
def sortTexts : List String → List String
  | [] => []
  | text :: rest => insertText text (sortTexts rest)

theorem insertText_perm (text : String) (texts : List String) :
    (insertText text texts).Perm (text :: texts) := by
  induction texts with
  | nil => exact .refl _
  | cons first rest ih =>
    unfold insertText
    split
    · exact (ih.cons first).trans (.swap text first rest)
    · exact .refl _

theorem sortTexts_perm (texts : List String) : (sortTexts texts).Perm texts := by
  induction texts with
  | nil => exact .refl _
  | cons text rest ih => exact (insertText_perm text _).trans (ih.cons text)

/-- The name of the enum that a column asks for: its own in capitals. -/
def enumName (column : Column) : String :=
  String.ofList (Text.upperText column.name.toList)

/-- The values of a column in order, by which enums are shared. -/
def valueKey (column : Column) : List String :=
  sortTexts (column.values.getD [])

/-- The member that stands for a value: in capitals, with underscores for spaces. -/
def enumMember (value : String) : String :=
  String.ofList ((Text.upperText value.toList).map fun c => if c = ' ' then '_' else c)

example : enumMember "in review" = "IN_REVIEW" := by
  decide +kernel

structure EnumDefinition where
  name : String
  values : List String
  deriving DecidableEq, Repr

def memberLine (value : String) : String :=
  "    " ++ enumMember value ++ " = " ++ doubleQuoted value ++ ",\n"

/-- The declaration of an enum, one line to a member. -/
def EnumDefinition.render (definition : EnumDefinition) : String :=
  "export enum " ++ definition.name ++ " \x7b\n" ++
    Text.join "" (definition.values.map memberLine) ++ "\x7d"

/-- The enums of a set of tables. -/
structure EnumCatalog where
  /-- The enums to generate, in order. -/
  enums : List EnumDefinition := []
  /-- The name that goes with each list of values. -/
  names : List (List String × String) := []
  deriving DecidableEq, Repr

namespace EnumCatalog

/-- Names the values of a column, unless they have a name. -/
def addName (names : List (List String × String)) (column : Column) :
    List (List String × String) :=
  if names.any (·.1 == valueKey column) then names
  else names ++ [(valueKey column, enumName column)]

/-- Adds values to the enum of that name, which is a new one if there is none. -/
def addValues (name : String) (values : List String) :
    List EnumDefinition → List EnumDefinition
  | [] => [⟨name, values⟩]
  | first :: rest =>
    if first.name = name then { first with values := first.values ++ values } :: rest
    else first :: addValues name values rest

/-- An enum with its values in order, each once. -/
def normalize (definition : EnumDefinition) : EnumDefinition :=
  { definition with values := dropRepeats (sortTexts definition.values) }

/-- The catalog of the enum columns of the tables. -/
def ofTables (tables : List Table) : EnumCatalog :=
  let names := (tables.flatMap Table.enumColumns).foldl addName []
  let enums := names.foldl (fun enums (values, name) => addValues name values enums) []
  { enums := enums.map normalize, names }

/-- The name of the enum of a column; one whose values are not in the catalog goes by its own. -/
def typeName (catalog : EnumCatalog) (column : Column) : String :=
  (catalog.names.lookup (valueKey column)).getD (enumName column)

/-- The declarations of all enums with a blank line between them. -/
def render (catalog : EnumCatalog) : String :=
  Text.join "\n\n" (catalog.enums.map EnumDefinition.render)

end EnumCatalog

end TableScribe.Code
