import TableScribe.Proofs.Code.Declarations
import TableScribe.Proofs.Code.Elements

/-!
# A class file, element by element

`ClassFile.elements` lists the elements that the class of a table consists of: the comment of the
table and of each column in a comment, each text that is quoted in a literal, and all else as code.
`ClassFile.written_elements` states that they are written as the text of the file, part by part.
-/

namespace TableScribe.Code

/-! ## Writing texts as elements -/

def code (text : String) : List Element :=
  text.toList.map .sign

/-- A text in a literal between single quotes. -/
def single (text : String) : List Element :=
  [.literal '\x27' text.toList]

/-- A text in a literal between double quotes. -/
def double (text : String) : List Element :=
  [.literal '"' text.toList]

/-- The text that elements are written as. -/
def written (elements : List Element) : String :=
  String.ofList (elements.flatMap Element.write)

theorem written_nil : written [] = "" :=
  rfl

theorem written_append (front back : List Element) :
    written (front ++ back) = written front ++ written back := by
  unfold written
  rw [List.flatMap_append, String.ofList_append]

theorem written_code (text : String) : written (code text) = text := by
  have hsigns : (text.toList.map Element.sign).flatMap Element.write = text.toList := by
    rw [List.flatMap_map]
    exact List.flatMap_singleton' _
  unfold written code
  rw [hsigns, String.ofList_toList]

theorem written_single (text : String) : written (single text) = singleQuoted text := by
  simp [written, single, Element.write, singleQuoted, literal]

theorem written_double (text : String) : written (double text) = doubleQuoted text := by
  simp [written, double, Element.write, doubleQuoted, literal]

theorem written_lineComment (text : String) (lineEnd : Char) :
    written [.lineComment text.toList lineEnd] = "//" ++ text ++ String.ofList [lineEnd] := by
  simp [written, Element.write, ← String.toList_inj]

theorem written_blockComment (text : String) :
    written [.blockComment text.toList] = "/*" ++ text ++ "*/" := by
  simp [written, Element.write, ← String.toList_inj]

theorem written_flatMap {α : Type} (elements : α → List Element) (items : List α) :
    written (items.flatMap elements) =
      Text.join "" (items.map fun item => written (elements item)) := by
  induction items with
  | nil => rfl
  | cons item rest ih => rw [List.flatMap_cons, written_append, ih, List.map_cons,
    Text.join_empty_cons]

theorem written_intercalate (separator : List Element) (groups : List (List Element)) :
    written (separator.intercalate groups) =
      Text.join (written separator) (groups.map written) := by
  induction groups with
  | nil => rfl
  | cons group rest ih =>
    cases rest with
    | nil => simp [Text.join_singleton]
    | cons next rest =>
      rw [List.intercalate_cons_cons, written_append, written_append, ih]
      rfl

/-! ## The elements of a class file -/

/-- What the default of a column is shown as between quotes, if it is. -/
def quotedDefault? (column : Column) : Option String :=
  match column.type with
  | .varchar | .text => column.default
  | .timestamp =>
    column.default.map fun text =>
      if text = Keyword.currentTimestamp.spelling then "now" else text
  | _ => none

namespace ClassFile

def enumImportElements (imports : List String) : List Element :=
  if imports = [] then []
  else
    code "import \x7b\n" ++ imports.flatMap (fun name => code ("  " ++ name ++ ",\n")) ++
      code "\x7d from " ++ double "./enums" ++ code ";\n"

def parentImportElements (parent : String) : List Element :=
  code ("import \x7b " ++ parent ++ " \x7d from ") ++ single ("./" ++ parent) ++ code ";\n"

def commentElements (comment : String) : List Element :=
  [.blockComment ("* " ++ comment ++ " ").toList, .sign '\n']

def propertyElements (property : Property) : List Element :=
  code ("  " ++ property.name ++ ": " ++ property.type ++ ";") ++
    match property.comment with
    | some comment => code "  " ++ [.lineComment (" " ++ comment).toList '\n']
    | none => code "\n"

def memberElements (name : String) (value : List Element) : List Element :=
  single name ++ code ": " ++ value

def defaultElements (catalog : EnumCatalog) (column : Column) : List Element :=
  match quotedDefault? column with
  | some text => double text
  | none => code (defaultExpression catalog column)

def entryElements (catalog : EnumCatalog) (column : Column) : List Element :=
  code "        \x7b " ++ memberElements "name" (single column.name) ++
    code ", " ++ memberElements "type" (single (valueType catalog column)) ++
    code ", " ++ memberElements "default" (defaultElements catalog column) ++
    code ", " ++ memberElements "comment" (single (column.comment.getD "")) ++
    (if column.autoIncrement then
      code ", " ++ memberElements "auto_increase" (single "AUTO_INCREMENT")
    else []) ++ code " \x7d,"

def metadataElements (catalog : EnumCatalog) (table : Table) : List Element :=
  code "  static getMetadata(): object \x7b\n    return \x7b\n      " ++
    memberElements "class_name" (single (className table.name)) ++ code ",\n      " ++
    memberElements "fields" (code "[\n" ++
      (code "\n").intercalate (table.columns.map (entryElements catalog)) ++ code "\n      ]") ++
    code "\x7d;\n  \x7d\n"

/-- The elements of the class of a table: each text of the table in a comment or a literal of its
own, and all else code. -/
def elements (catalog : EnumCatalog) (table : Table) (own : List Column)
    (parent : Option Table) : List Element :=
  let file := ofTable catalog table own parent
  enumImportElements file.imports ++ file.parent.toList.flatMap parentImportElements ++
    file.comment.toList.flatMap commentElements ++ code (file.headLine ++ "\n") ++
    file.properties.flatMap propertyElements ++ code (file.constructorText ++ "\n") ++
    metadataElements catalog table ++ code "\x7d"

/-! ## They are written as the file -/

theorem written_memberElements (name : String) (value : List Element) :
    written (memberElements name value) = singleQuoted name ++ ": " ++ written value := by
  unfold memberElements
  rw [written_append, written_append, written_single, written_code]

theorem written_propertyElements (property : Property) :
    written (propertyElements property) = propertyLine property ++ "\n" := by
  have hslashes : "  // " = "  " ++ ("//" ++ " ") := by decide
  unfold propertyElements propertyLine
  cases property.comment with
  | none => rw [written_append, written_code, written_code]
  | some comment =>
    simp only [written_append, written_code, written_lineComment, hslashes, String.append_assoc]

theorem written_commentElements (comment : String) :
    written (commentElements comment) = "/** " ++ comment ++ " */" ++ "\n" := by
  have hopening : "/** " = "/*" ++ "* " := by decide
  have hclosing : " */" = " " ++ "*/" := by decide
  unfold commentElements
  rw [← List.singleton_append, written_append, written_blockComment]
  simp only [hopening, hclosing, String.append_assoc]
  rfl

theorem defaultExpression_of_quoted {column : Column} {text : String}
    (h : quotedDefault? column = some text) (catalog : EnumCatalog) :
    defaultExpression catalog column = doubleQuoted text := by
  unfold quotedDefault? at h
  unfold defaultExpression
  cases htype : column.type with
  | varchar | text =>
    rw [htype] at h
    dsimp only at h ⊢
    rw [h]
    rfl
  | timestamp =>
    rw [htype] at h
    obtain ⟨given, hgiven, rfl⟩ := Option.map_eq_some_iff.1 h
    dsimp only
    rw [hgiven]
    split_ifs <;> simp_all
  | _ =>
    rw [htype] at h
    exact absurd h (by simp)

theorem written_defaultElements (catalog : EnumCatalog) (column : Column) :
    written (defaultElements catalog column) = defaultExpression catalog column := by
  unfold defaultElements
  split
  · rename_i text hquoted
    rw [written_double, defaultExpression_of_quoted hquoted]
  · exact written_code _

/-- The labels of a description, with what stands in front of them. -/
theorem entryLine_labels :
    "        \x7b \x27name\x27: " = "        \x7b " ++ (singleQuoted "name" ++ ": ") ∧
    ", \x27type\x27: " = ", " ++ (singleQuoted "type" ++ ": ") ∧
    ", \x27default\x27: " = ", " ++ (singleQuoted "default" ++ ": ") ∧
    ", \x27comment\x27: " = ", " ++ (singleQuoted "comment" ++ ": ") ∧
    ", \x27auto_increase\x27: \x27AUTO_INCREMENT\x27" =
      ", " ++ (singleQuoted "auto_increase" ++ (": " ++ singleQuoted "AUTO_INCREMENT")) := by
  decide

theorem written_entryElements (catalog : EnumCatalog) (column : Column) :
    written (entryElements catalog column) = entryLine (.ofColumn catalog column) := by
  unfold entryElements entryLine
  simp only [written_append, written_memberElements, written_code, written_single,
    written_defaultElements, entryLine_labels, String.append_assoc]
  cases hauto : column.autoIncrement
  · simp [ColumnEntry.ofColumn, hauto, written_nil]
  · simp [ColumnEntry.ofColumn, hauto, written_append, written_memberElements, written_code,
      written_single, String.append_assoc]

theorem written_metadataElements (catalog : EnumCatalog) (table : Table) (own : List Column)
    (parent : Option Table) :
    written (metadataElements catalog table) =
      (ofTable catalog table own parent).metadataText ++ "\n" := by
  have hhead : "  static getMetadata(): object \x7b\n    return \x7b\n      \x27class_name\x27: " =
      "  static getMetadata(): object \x7b\n    return \x7b\n      " ++
        (singleQuoted "class_name" ++ ": ") := by decide
  have hfields : ",\n      \x27fields\x27: [\n" =
      ",\n      " ++ (singleQuoted "fields" ++ (": " ++ "[\n")) := by decide
  have hend : "\n      ]\x7d;\n  \x7d" ++ "\n" = "\n      ]" ++ "\x7d;\n  \x7d\n" := by
    decide
  have hentries : table.columns.map (written ∘ entryElements catalog) =
      (ofTable catalog table own parent).entries.map entryLine := by
    simp [ofTable, Function.comp_def, written_entryElements]
  unfold metadataElements metadataText
  simp only [written_append, written_memberElements, written_code, written_single,
    written_intercalate, hhead, hfields, String.append_assoc, hend, List.map_map, hentries]
  rfl

theorem written_enumImportElements (file : ClassFile) :
    written (enumImportElements file.imports) = Text.join "" (file.enumImport.map (· ++ "\n")) := by
  have hpath : "\x7d from \"./enums\";" = "\x7d from " ++ (doubleQuoted "./enums" ++ ";") := by
    decide
  have hend : ";" ++ "\n" = ";\n" := by decide
  unfold enumImportElements enumImport
  split
  · rfl
  · simp only [List.map_singleton, Text.join_singleton, written_append, written_code,
      written_double, written_flatMap, hpath, String.append_assoc, hend]

/-- A text without backslashes and delimiters is its own literal. -/
theorem literal_eq_of_not_mem {delimiter : Char} {text : String} (hslash : '\\' ∉ text.toList)
    (hquote : delimiter ∉ text.toList) :
    literal delimiter text = String.ofList [delimiter] ++ text ++ String.ofList [delimiter] := by
  have hescaped : text.toList.flatMap (escaped delimiter) = text.toList := by
    rw [List.flatMap_def, List.map_congr_left (g := fun c => [c]), ← List.flatMap_def]
    · exact List.flatMap_singleton' _
    · intro c hmem
      unfold escaped
      rw [if_neg]
      rintro (rfl | rfl)
      · exact hslash hmem
      · exact hquote hmem
  simp [← String.toList_inj, toList_literal, hescaped]

theorem written_parentImportElements {parent : String} (hslash : '\\' ∉ parent.toList)
    (hquote : '\x27' ∉ parent.toList) :
    written (parentImportElements parent) =
      "import \x7b " ++ parent ++ " \x7d from \x27./" ++ parent ++ "\x27;" ++ "\n" := by
  have hpath : singleQuoted ("./" ++ parent) = "\x27" ++ ("./" ++ parent) ++ "\x27" :=
    literal_eq_of_not_mem (by simp [hslash]) (by simp [hquote])
  have hopening : " \x7d from \x27./" = " \x7d from " ++ ("\x27" ++ "./") := by decide
  have hend : "\x27;" ++ "\n" = "\x27" ++ ";\n" := by decide
  unfold parentImportElements
  simp only [written_append, written_code, written_single, hpath, hopening, hend,
    String.append_assoc]

/-- The elements of a class file are written as its text. -/
theorem written_elements {catalog : EnumCatalog} {table : Table} {own : List Column}
    {parent : Option Table} (hparent : ∀ p ∈ parent, '\\' ∉ (className p.name).toList ∧
      '\x27' ∉ (className p.name).toList) :
    written (elements catalog table own parent) = (ofTable catalog table own parent).render := by
  generalize hfile : ofTable catalog table own parent = file
  have himport : written (file.parent.toList.flatMap parentImportElements) =
      Text.join "" (file.parentImport.map (· ++ "\n")) := by
    rw [written_flatMap, parentImport, List.map_map]
    refine congrArg _ (List.map_congr_left fun name hmem => ?_)
    obtain ⟨p, hp, rfl⟩ : ∃ p ∈ parent, className p.name = name := by
      rw [← hfile] at hmem
      simpa [ofTable] using hmem
    exact written_parentImportElements (hparent p hp).1 (hparent p hp).2
  have hcomment : written (file.comment.toList.flatMap commentElements) =
      Text.join "" (file.commentLine.map (· ++ "\n")) := by
    rw [written_flatMap]
    simp only [commentLine, List.map_map, Function.comp_def, written_commentElements]
  have hproperties : written (file.properties.flatMap propertyElements) =
      Text.join "" ((file.properties.map propertyLine).map (· ++ "\n")) := by
    rw [written_flatMap]
    simp only [List.map_map, Function.comp_def, written_propertyElements]
  have hmetadata := written_metadataElements catalog table own parent
  rw [hfile] at hmetadata
  unfold elements
  rw [render_eq_join]
  simp only [hfile, written_append, written_code, written_enumImportElements, himport, hcomment,
    hproperties, hmetadata]

end ClassFile

end TableScribe.Code
