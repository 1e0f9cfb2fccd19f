import TableScribe.Code.EnumCatalog
import TableScribe.Journal
import TableScribe.Lexical.Keyword
import TableScribe.Script.Relations

/-!
# Class files

Every table with columns gets a class. A `ClassFile` holds what such a file says, part by part, and
`ClassFile.render` writes it down:

1. the imports of its enums and of the class it extends;
2. a property for every column of its own;
3. a constructor, which takes the columns of the parent, hands them to it, and then takes and
   assigns its own;
4. a method that describes all columns of the table.

`classFiles` decides which files there are. A table that extends another has only the columns that
the other lacks; its file takes the place of the plain one.
-/

namespace TableScribe.Code

/-- A table name as a class name: the first letter in capitals, the others small. -/
def className (table : String) : String :=
  match table.toList with
  | [] => ""
  | first :: rest => String.ofList (Text.upper first ++ rest.flatMap Text.lower)

example : className "USER_ROLES" = "User_roles" := by
  decide +kernel

/-- The type of the values of a column. -/
def valueType (catalog : EnumCatalog) (column : Column) : String :=
  match column.type with
  | .varchar | .text => "string"
  | .int | .integer | .real => "number"
  | .boolean => "boolean"
  | .timestamp => "Date"
  | .enum => catalog.typeName column

/-- The expression for the default of a column. -/
def defaultExpression (catalog : EnumCatalog) (column : Column) : String :=
  match column.type with
  | .enum =>
    match column.default.or (column.values.bind (·.head?)) with
    | some value => catalog.typeName column ++ "." ++ enumMember value
    | none => "undefined"
  | .timestamp =>
    if column.default = some Keyword.currentTimestamp.spelling then doubleQuoted "now"
    else (column.default.map doubleQuoted).getD "undefined"
  | .varchar | .text => (column.default.map doubleQuoted).getD "undefined"
  | .int | .integer | .real | .boolean => column.default.getD "undefined"

/-! ## The parts of a class file -/

structure Parameter where
  name : String
  type : String
  deriving DecidableEq, Repr

structure Property where
  name : String
  type : String
  comment : Option String
  deriving DecidableEq, Repr

/-- The description of a column. -/
structure ColumnEntry where
  name : String
  type : String
  defaultExpression : String
  comment : String
  autoIncrement : Bool
  deriving DecidableEq, Repr

/-- What a class file says. -/
structure ClassFile where
  name : String
  /-- The class that it extends. -/
  parent : Option String
  /-- The enums that it imports. -/
  imports : List String
  comment : Option String
  properties : List Property
  parameters : List Parameter
  /-- The parameters that the constructor hands to the parent. -/
  handedOn : List String
  entries : List ColumnEntry
  deriving DecidableEq, Repr

def Parameter.ofColumn (catalog : EnumCatalog) (column : Column) : Parameter :=
  ⟨column.name, valueType catalog column⟩

def Property.ofColumn (catalog : EnumCatalog) (column : Column) : Property :=
  ⟨column.name, valueType catalog column, column.comment⟩

def ColumnEntry.ofColumn (catalog : EnumCatalog) (column : Column) : ColumnEntry where
  name := column.name
  type := valueType catalog column
  defaultExpression := Code.defaultExpression catalog column
  comment := column.comment.getD ""
  autoIncrement := column.autoIncrement

namespace ClassFile

/-- The class of a table with the given columns of its own and perhaps a parent. -/
def ofTable (catalog : EnumCatalog) (table : Table) (own : List Column)
    (parent : Option Table) : ClassFile :=
  let inherited := (parent.map (·.columns)).getD []
  { name := className table.name
    parent := parent.map fun parent => className parent.name
    imports := dropRepeats (sortTexts (table.enumColumns.map catalog.typeName))
    comment := table.comment
    properties := own.map (Property.ofColumn catalog)
    parameters := (inherited ++ own).map (Parameter.ofColumn catalog)
    handedOn := inherited.map (·.name)
    entries := table.columns.map (ColumnEntry.ofColumn catalog) }

/-! ## Writing it down -/

def enumImport (file : ClassFile) : List String :=
  if file.imports = [] then []
  else
    ["import \x7b\n" ++ Text.join "" (file.imports.map fun name => "  " ++ name ++ ",\n") ++
      "\x7d from \"./enums\";"]

def parentImport (file : ClassFile) : List String :=
  file.parent.toList.map fun parent =>
    "import \x7b " ++ parent ++ " \x7d from \x27./" ++ parent ++ "\x27;"

def commentLine (file : ClassFile) : List String :=
  file.comment.toList.map fun comment => "/** " ++ comment ++ " */"

def headLine (file : ClassFile) : String :=
  match file.parent with
  | some parent => "export class " ++ file.name ++ " extends " ++ parent ++ " \x7b"
  | none => "export class " ++ file.name ++ " \x7b"

/-- The line of a property, with the comment of its column. -/
def propertyLine (property : Property) : String :=
  let declaration := "  " ++ property.name ++ ": " ++ property.type ++ ";"
  match property.comment with
  | some comment => declaration ++ "  // " ++ comment
  | none => declaration

def parameterText (parameter : Parameter) : String :=
  parameter.name ++ ": " ++ parameter.type

/-- The call of the constructor of the parent, if it takes anything. -/
def superCall (file : ClassFile) : String :=
  if file.handedOn = [] then "" else "    super(" ++ Text.join ", " file.handedOn ++ ");\n"

/-- The line that assigns a parameter to its property. -/
def assignment (name : String) : String :=
  "    this." ++ name ++ " = " ++ name ++ ";\n"

def constructorText (file : ClassFile) : String :=
  "  constructor(" ++ Text.join ", " (file.parameters.map parameterText) ++ ") \x7b\n" ++
    file.superCall ++ Text.join "" (file.properties.map fun p => assignment p.name) ++ "  \x7d"

/-- The line that describes a column. -/
def entryLine (entry : ColumnEntry) : String :=
  "        \x7b \x27name\x27: " ++ singleQuoted entry.name ++
    ", \x27type\x27: " ++ singleQuoted entry.type ++
    ", \x27default\x27: " ++ entry.defaultExpression ++
    ", \x27comment\x27: " ++ singleQuoted entry.comment ++
    (if entry.autoIncrement then ", \x27auto_increase\x27: \x27AUTO_INCREMENT\x27" else "") ++
    " \x7d,"

/-- The method that describes the columns. -/
def metadataText (file : ClassFile) : String :=
  "  static getMetadata(): object \x7b\n    return \x7b\n      \x27class_name\x27: " ++
    singleQuoted file.name ++ ",\n      \x27fields\x27: [\n" ++
    Text.join "\n" (file.entries.map entryLine) ++ "\n      ]\x7d;\n  \x7d"

def parts (file : ClassFile) : List String :=
  file.enumImport ++ file.parentImport ++ file.commentLine ++ [file.headLine] ++
    file.properties.map propertyLine ++ [file.constructorText, file.metadataText, "\x7d"]

def render (file : ClassFile) : String :=
  Text.join "\n" file.parts

/-- The path of the class file of a table. -/
def path (table : String) : String :=
  className table ++ ".ts"

end ClassFile

/-! ## Which files there are -/

/-- Adds the plain class of a table, unless it has no columns or there is a file of that path. -/
def addPlain (catalog : EnumCatalog) (files : List (String × ClassFile)) (table : Table) :
    List (String × ClassFile) :=
  let path := ClassFile.path table.name
  if table.columns = [] ∨ files.any (·.1 == path) then files
  else files ++ [(path, .ofTable catalog table table.columns none)]

def plainFiles (catalog : EnumCatalog) (tables : List Table) : List (String × ClassFile) :=
  tables.foldl (addPlain catalog) []

/-- The file in the place of the one of the same path, or at the end. -/
def putFile (path : String) (file : ClassFile) :
    List (String × ClassFile) → List (String × ClassFile)
  | [] => [(path, file)]
  | first :: rest =>
    if first.1 = path then (path, file) :: rest else first :: putFile path file rest

/-- The first table of that name, if it has columns. -/
def tableWithColumns? (tables : List Table) (name : String) : Option Table :=
  (tables.find? (·.name == name)).filter (·.columns ≠ [])

/-- The columns of a table that another one lacks. -/
def ownColumns (child parent : Table) : List Column :=
  child.columns.filter fun column => (parent.column? column.name).isNone

/-- The tables of a relation, or what is noted when one of them has no columns. -/
def resolve (tables : List Table) (relation : Relation) : Except Event (Table × Table) :=
  match tableWithColumns? tables relation.parent with
  | none => .error (.noParentColumns relation.parent)
  | some parent =>
    match tableWithColumns? tables relation.child with
    | none => .error (.noChildColumns relation.child)
    | some child => .ok (child, parent)

/-- Replaces the plain class of the child of a relation by one that extends the parent, if the
child has columns of its own. -/
def extendFile (catalog : EnumCatalog) (tables : List Table) (files : List (String × ClassFile))
    (relation : Relation) : List (String × ClassFile) :=
  match resolve tables relation with
  | .error _ => files
  | .ok (child, parent) =>
    let own := ownColumns child parent
    if own = [] then files
    else putFile (ClassFile.path relation.child) (.ofTable catalog child own (some parent)) files

/-- The class files of the tables, with their paths. -/
def classFiles (catalog : EnumCatalog) (tables : List Table) (relations : List Relation) :
    List (String × ClassFile) :=
  relations.foldl (extendFile catalog tables) (plainFiles catalog tables)

/-- What is noted about the relations. -/
def relationEvents (tables : List Table) (relations : List Relation) : List Event :=
  relations.filterMap fun relation =>
    match resolve tables relation with
    | .error event => some event
    | .ok _ => none

end TableScribe.Code
