import TableScribe.Lexical.Keyword
import TableScribe.Schema.Table
import TableScribe.Text.Pieces

/-!
# Router files

Every table gets a router with five handlers: create, list, get one, update and delete. A
`RouterFile` holds the name of the table and the columns that clients write; the rest is the same
for all tables. A column is not written by clients if it counts up by itself or is a timestamp that
the database sets to the current time.
-/

namespace TableScribe.Code

/-- Whether clients write a column. -/
def isWritable (column : Column) : Bool :=
  !column.autoIncrement &&
    !(column.type = .timestamp && column.default = some Keyword.currentTimestamp.spelling)

/-- What a router file depends on. -/
structure RouterFile where
  table : String
  /-- The names of the columns that clients write. -/
  columns : List String
  deriving DecidableEq, Repr

namespace RouterFile

def ofTable (table : Table) : RouterFile where
  table := table.name
  columns := (table.columns.filter isWritable).map (·.name)

/-! ## The lists that depend on the columns -/

def columnList (file : RouterFile) : String :=
  Text.join ", " file.columns

def placeholders (file : RouterFile) : String :=
  Text.join ", " (file.columns.map fun _ => "?")

def assignments (file : RouterFile) : String :=
  Text.join ", " (file.columns.map (· ++ " = ?"))

/-- The values of an update: the columns and the key. -/
def updateValues (file : RouterFile) : String :=
  Text.join ", " (file.columns ++ ["id"])

/-- The properties of the answer to a create: the new key and the columns. -/
def createdRow (file : RouterFile) : String :=
  Text.join ", " ("id: (result as any).insertId" :: file.columns)

/-! ## The handlers, line by line -/

/-- The lines that begin the file. -/
def preamble : List String :=
  ["import express, \x7b Request, Response \x7d from \x27express\x27;",
    "import pool from \x27../db\x27;",
    "",
    "const router = express.Router();",
    "",
    "function isError(error: unknown): error is Error \x7b",
    "  return error instanceof Error;",
    "\x7d"]

/-- The lines that end every handler: what is answered when the database fails. -/
def failureLines : List String :=
  ["  \x7d catch (error) \x7b",
    "    if (isError(error)) \x7b",
    "      res.status(500).json(\x7b error: error.message \x7d);",
    "    \x7d else \x7b",
    "      res.status(500).json(\x7b error: \x27Unknown error\x27 \x7d);",
    "    \x7d",
    "  \x7d",
    "\x7d);"]

/-- The lines that answer `found` if `test` holds and otherwise that there is no such row. -/
def foundLines (file : RouterFile) (test found : String) : List String :=
  ["    if (" ++ test ++ ") \x7b",
    "      " ++ found,
    "    \x7d else \x7b",
    "      res.status(404).json(\x7b message: \x27" ++ file.table ++ " not found\x27 \x7d);",
    "    \x7d"]

def handlerHead (verb route : String) : String :=
  "router." ++ verb ++ "(\x27" ++ route ++
    "\x27, async (req: Request, res: Response) => \x7b"

def bodyLine (file : RouterFile) : String :=
  "  const \x7b " ++ file.columnList ++ " \x7d = req.body;"

def keyLine : String :=
  "  const \x7b id \x7d = req.params;"

def createLines (file : RouterFile) : List String :=
  ["// Create " ++ file.table ++ " (C)",
    handlerHead "post" "/",
    file.bodyLine,
    "  const values = [" ++ file.columnList ++ "];",
    "  const query = \x60INSERT INTO " ++ file.table ++ " (" ++ file.columnList ++ ") VALUES (" ++
      file.placeholders ++ ")\x60;",
    "  try \x7b",
    "    const [result] = await pool.query(query, values);",
    "    res.status(201).json(\x7b " ++ file.createdRow ++ " \x7d);"] ++
    failureLines

def listLines (file : RouterFile) : List String :=
  ["// List " ++ file.table ++ " (R)",
    handlerHead "get" "/",
    "  try \x7b",
    "    const [rows] = await pool.query(\x27SELECT * FROM " ++ file.table ++ "\x27);",
    "    res.json(rows);"] ++
    failureLines

def getLines (file : RouterFile) : List String :=
  ["// Get one " ++ file.table ++ " (R)",
    handlerHead "get" "/:id",
    keyLine,
    "  try \x7b",
    "    const [rows] = await pool.query(\x27SELECT * FROM " ++ file.table ++
      " WHERE id = ?\x27, [id]);"] ++
    file.foundLines "(rows as any[]).length > 0" "res.json((rows as any)[0]);" ++
    failureLines

def updateLines (file : RouterFile) : List String :=
  ["// Update " ++ file.table ++ " (U)",
    handlerHead "put" "/:id",
    keyLine,
    file.bodyLine,
    "  const values = [" ++ file.updateValues ++ "];",
    "  const query = \x60UPDATE " ++ file.table ++ " SET " ++ file.assignments ++
      " WHERE id = ?\x60;",
    "  try \x7b",
    "    const [result] = await pool.query(query, values);"] ++
    file.foundLines "(result as any).affectedRows > 0"
      ("res.json(\x7b id, " ++ file.columnList ++ " \x7d);") ++
    failureLines

def deleteLines (file : RouterFile) : List String :=
  ["// Delete " ++ file.table ++ " (D)",
    handlerHead "delete" "/:id",
    keyLine,
    "  try \x7b",
    "    const [result] = await pool.query(\x27DELETE FROM " ++ file.table ++
      " WHERE id = ?\x27, [id]);"] ++
    file.foundLines "(result as any).affectedRows > 0" "res.status(204).send();" ++
    failureLines

/-- The parts of the file, between which there is a blank line. -/
def parts (file : RouterFile) : List (List String) :=
  [preamble, file.createLines, file.listLines, file.getLines, file.updateLines, file.deleteLines,
    ["export default router;"]]

def render (file : RouterFile) : String :=
  Text.join "\n\n" (file.parts.map (Text.join "\n")) ++ "\n"

end RouterFile

end TableScribe.Code
