import TableScribe.Code.ClassFile
import TableScribe.Code.RouterFile
import TableScribe.Metadata.Encode
import TableScribe.Storage.Path

/-!
# The generated files

`bundle` lists everything that is generated from a set of tables: the enums, the classes and the
routers, in this order, and the metadata if they are wanted.
-/

namespace TableScribe.Code

/-- A file to be written below the output directory. -/
structure OutputFile where
  path : String
  contents : String
  deriving DecidableEq, Repr

def enumOutput (catalog : EnumCatalog) : OutputFile :=
  ⟨"enums.ts", catalog.render⟩

def classOutputs (catalog : EnumCatalog) (tables : List Table) (relations : List Relation) :
    List OutputFile :=
  (classFiles catalog tables relations).map fun (path, file) => ⟨path, file.render⟩

def routerPath (table : String) : String :=
  Storage.joinPath "routers" (table ++ "_router.ts")

def routerOutput (table : Table) : OutputFile :=
  ⟨routerPath table.name, (RouterFile.ofTable table).render⟩

def metadataOutput (tables : List Table) : OutputFile :=
  ⟨"metadata.json", Metadata.render tables⟩

/-- The code that is generated from the tables. -/
def codeOutputs (tables : List Table) (relations : List Relation) : List OutputFile :=
  let catalog := EnumCatalog.ofTables tables
  enumOutput catalog :: classOutputs catalog tables relations ++ tables.map routerOutput

/-- All files that are generated from the tables. -/
def bundle (tables : List Table) (relations : List Relation) (withMetadata : Bool) :
    List OutputFile :=
  codeOutputs tables relations ++ if withMetadata then [metadataOutput tables] else []

/-- What is noted while the code is generated. -/
def bundleEvents (tables : List Table) (relations : List Relation) : List Event :=
  .collectedEnums (EnumCatalog.ofTables tables).enums.length tables.length ::
    relationEvents tables relations

end TableScribe.Code
