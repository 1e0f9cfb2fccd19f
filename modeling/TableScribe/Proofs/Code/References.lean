import TableScribe.Proofs.Code.Catalog
import TableScribe.Proofs.Code.ClassFiles
import TableScribe.Proofs.Code.Declarations

/-!
# References between the generated files

A class file refers to enums, which it imports and whose members it shows as defaults, and to the
class that it extends. `references_resolve` says that each of these references leads somewhere.

1. `ExportsEnum` and `DeclaresClass` say what the text of a generated file declares, by the lines
   that are written there, and `DescribesColumn` which lines describe columns. So a default and the
   member that it names are compared as they are spelled.
2. The enums are those of the catalog (`exports_of_mem`); by the catalog's theory the columns of the
   tables are typed by them, and their values are members.
3. Whatever file has ended up at the path of a parent, it declares the class of that name
   (`exportsClass_of_table`): class files are replaced only by classes of the same name.
-/

namespace TableScribe.Code

/-! ## What a text declares -/

/-- Among the blocks of the text there is the declaration of the enum with these members and their
values. -/
def DeclaresEnum (contents name : String) (members : List (String × String)) : Prop :=
  ∃ blocks, contents = Text.join "\n\n" blocks ∧ enumText name members ∈ blocks

/-- The declaration of the class begins on a line of its own. -/
def DeclaresClass (contents name : String) : Prop :=
  ∃ parts, contents = Text.join "\n" parts ∧ ∃ rest, "export class " ++ name ++ " " ++ rest ∈ parts

/-- The text ends with the method that describes the columns, and this is one of its lines. -/
def DescribesColumn (contents line : String) : Prop :=
  ∃ front name lines, contents = front ++ describingText name lines ++ "\x7d" ∧ line ∈ lines

/-- The enum is exported by `enums.ts`. -/
def ExportsEnum (outputs : List OutputFile) (name : String) (members : List (String × String)) :
    Prop :=
  ∃ output ∈ outputs, output.path = "enums.ts" ∧ DeclaresEnum output.contents name members

/-- The class is exported by the file of its name. -/
def ExportsClass (outputs : List OutputFile) (name : String) : Prop :=
  ∃ output ∈ outputs, output.path = name ++ ".ts" ∧ DeclaresClass output.contents name

/-! ## Enums -/

section References

variable {tables : List Table} {relations : List Relation}

theorem exports_of_mem {definition : EnumDefinition}
    (h : definition ∈ (EnumCatalog.ofTables tables).enums) :
    ExportsEnum (codeOutputs tables relations) definition.name
      (definition.values.map fun value => (enumMember value, value)) := by
  refine ⟨enumOutput (.ofTables tables), List.mem_cons_self, rfl, _, rfl, ?_⟩
  have hmem := List.mem_map_of_mem (f := EnumDefinition.render) h
  rwa [definition.render_eq] at hmem

/-- The enum that a column is typed by is exported. -/
theorem exports_of_column {column : Column} (h : column ∈ EnumCatalog.enumColumns tables) :
    ∃ members, ExportsEnum (codeOutputs tables relations)
      ((EnumCatalog.ofTables tables).typeName column) members := by
  obtain ⟨definition, hmem, hname⟩ := List.mem_map.1 (EnumCatalog.typeName_mem_enums h)
  rw [← hname]
  exact ⟨_, exports_of_mem hmem⟩

/-- A value of a column is a member of the enum that the column is typed by. -/
theorem exports_of_value (relations : List Relation) {column : Column} {value : String}
    (h : column ∈ EnumCatalog.enumColumns tables) (hvalue : value ∈ column.values.getD []) :
    ∃ members, ExportsEnum (codeOutputs tables relations)
        ((EnumCatalog.ofTables tables).typeName column) members ∧
      (enumMember value, value) ∈ members := by
  obtain ⟨definition, hmem, hname, hlisted⟩ :=
    EnumCatalog.lists_ofTables.2 ⟨column, h, rfl, hvalue⟩
  rw [← hname]
  exact ⟨_, exports_of_mem hmem, List.mem_map_of_mem (f := fun value => (enumMember value, value))
    hlisted⟩

/-- What a file imports are the enums of its columns. -/
theorem ClassOf.mem_imports {catalog : EnumCatalog} {table : Table} {parent : Option Table}
    {file : ClassFile} (h : ClassOf catalog tables table parent file) {name : String} :
    name ∈ file.imports ↔ ∃ column ∈ table.enumColumns, catalog.typeName column = name := by
  obtain ⟨-, -, own, rfl, -⟩ := h.exists_own
  show name ∈ dropRepeats (sortTexts (table.enumColumns.map catalog.typeName)) ↔ _
  rw [mem_dropRepeats, mem_sortTexts, List.mem_map]

/-- An enum column without a declared default shows its first value. -/
theorem defaultExpression_of_enum {catalog : EnumCatalog} {column : Column} {value : String}
    (hc : column.isEnum = true) (h : column.default.or (column.values.getD []).head? = some value) :
    defaultExpression catalog column = catalog.typeName column ++ "." ++ enumMember value := by
  have hvalue : column.default.or (column.values.bind (·.head?)) = some value := by
    rw [← h]
    cases column.values <;> rfl
  unfold defaultExpression
  rw [of_decide_eq_true hc]
  dsimp only
  rw [hvalue]

theorem valueType_of_enum {catalog : EnumCatalog} {column : Column} (hc : column.isEnum = true) :
    valueType catalog column = catalog.typeName column := by
  unfold valueType
  rw [of_decide_eq_true hc]

/-! ## Classes -/

theorem declaresClass_render (file : ClassFile) : DeclaresClass file.render file.name := by
  have hhead : ∃ rest, file.headLine = "export class " ++ file.name ++ " " ++ rest := by
    have hopen : " \x7b" = " " ++ "\x7b" := rfl
    have hextends : " extends " = " " ++ "extends " := rfl
    unfold ClassFile.headLine
    cases file.parent with
    | none =>
      refine ⟨"\x7b", ?_⟩
      dsimp only
      rw [hopen]
      simp only [String.append_assoc]
    | some parent =>
      refine ⟨"extends " ++ parent ++ " \x7b", ?_⟩
      dsimp only
      rw [hextends]
      simp only [String.append_assoc]
  obtain ⟨rest, hrest⟩ := hhead
  refine ⟨file.parts, rfl, rest, ?_⟩
  rw [← hrest]
  unfold ClassFile.parts
  simp

theorem mem_outputs_of_classFile {path : String} {file : ClassFile}
    (h : (path, file) ∈ classFiles (.ofTables tables) tables relations) :
    ⟨path, file.render⟩ ∈ codeOutputs tables relations := by
  refine List.mem_append_left _ (List.mem_cons_of_mem _ ?_)
  exact List.mem_map_of_mem h

/-- The file at the path of a table with columns declares the class of the table. -/
theorem exportsClass_of_table {table : Table} (ht : table ∈ tables) (hc : table.columns ≠ []) :
    ExportsClass (codeOutputs tables relations) (className table.name) := by
  obtain ⟨file, hmem, hname⟩ := exists_file_of_table (.ofTables tables) relations ht hc
  refine ⟨_, mem_outputs_of_classFile hmem, rfl, ?_⟩
  rw [← hname]
  exact declaresClass_render file

theorem describesColumn_render {file : ClassFile} {entry : ColumnEntry} (h : entry ∈ file.entries) :
    ∃ rest, DescribesColumn file.render
      ("        \x7b \x27name\x27: " ++ singleQuoted entry.name ++
        ", \x27type\x27: " ++ singleQuoted entry.type ++
        ", \x27default\x27: " ++ entry.defaultExpression ++ ", \x27comment\x27: " ++ rest) := by
  refine ⟨singleQuoted entry.comment ++
    ((if entry.autoIncrement then ", \x27auto_increase\x27: \x27AUTO_INCREMENT\x27" else "") ++
      " \x7d,"), _, _, _, file.render_eq, List.mem_map.2 ⟨entry, h, ?_⟩⟩
  simp only [String.append_assoc]

/-- The references of every class file resolve. The file begins with the import of enums and that
of the class that it extends. These enums are exported by `enums.ts`, and the class by the file of
its name. Where a column of its table has no declared default, but some value, or has one of its
values for a default, the line that describes the column shows a member of its type, and the member
that is spelled so is declared for the value in the exported enum. -/
theorem references_resolve {path : String} {file : ClassFile}
    (h : (path, file) ∈ classFiles (.ofTables tables) tables relations) :
    ⟨path, file.render⟩ ∈ codeOutputs tables relations ∧
      (∃ rest, file.render =
        openingText file.name file.imports file.parent file.comment ++ rest) ∧
      (∀ name ∈ file.imports, ∃ members, ExportsEnum (codeOutputs tables relations) name members) ∧
      (∀ name, file.parent = some name → ExportsClass (codeOutputs tables relations) name) ∧
      ∃ table parent, ClassOf (.ofTables tables) tables table parent file ∧
        ∀ column ∈ table.enumColumns,
          (column.default = none ∧ column.values.getD [] ≠ []) ∨
            (∃ value ∈ column.values.getD [], column.default = some value) →
          ∃ entry ∈ file.entries, entry.name = column.name ∧
            ∃ value member members rest,
              column.default.or (column.values.getD []).head? = some value ∧
              member = enumMember value ∧
              entry.defaultExpression = entry.type ++ "." ++ member ∧
              DescribesColumn file.render
                ("        \x7b \x27name\x27: " ++ singleQuoted column.name ++
                  ", \x27type\x27: " ++ singleQuoted entry.type ++
                  ", \x27default\x27: " ++ (entry.type ++ "." ++ member) ++
                  ", \x27comment\x27: " ++ rest) ∧
              ExportsEnum (codeOutputs tables relations) entry.type members ∧
              (member, value) ∈ members := by
  obtain ⟨table, parent, hclass⟩ := (putInPlace_of_mem h).classOf
  have hcolumn : ∀ column ∈ table.enumColumns, column ∈ EnumCatalog.enumColumns tables :=
    fun column hmem => EnumCatalog.mem_enumColumns hclass.mem_tables hmem
  refine ⟨mem_outputs_of_classFile h, ?_, ?_, ?_, table, parent, hclass, ?_⟩
  · have htext := file.render_eq
    simp only [String.append_assoc] at htext
    exact ⟨_, htext⟩
  · intro name hname
    obtain ⟨column, hmem, rfl⟩ := hclass.mem_imports.1 hname
    exact exports_of_column (hcolumn column hmem)
  · intro name hname
    rw [hclass.parent_eq] at hname
    obtain ⟨p, rfl, rfl⟩ := Option.map_eq_some_iff.1 hname
    exact exportsClass_of_table hclass.parent_mem_tables.1 hclass.parent_mem_tables.2
  · intro column hmem hdefault
    obtain ⟨hlisted, henum⟩ := Table.mem_enumColumns.1 hmem
    -- In both cases the shown value is one of the values of the column.
    have hshown : ∃ value ∈ column.values.getD [],
        column.default.or (column.values.getD []).head? = some value := by
      rcases hdefault with ⟨hnone, hne⟩ | ⟨value, hvalue, hsome⟩
      · obtain ⟨first, rest, heq⟩ := List.exists_cons_of_ne_nil hne
        rw [hnone, heq]
        exact ⟨first, List.mem_cons_self, rfl⟩
      · rw [hsome]
        exact ⟨value, hvalue, rfl⟩
    obtain ⟨value, hvalue, hsome⟩ := hshown
    obtain ⟨members, hexports, hmember⟩ := exports_of_value relations (hcolumn column hmem) hvalue
    have hentry : ColumnEntry.ofColumn (.ofTables tables) column ∈ file.entries := by
      rw [hclass.entries_eq]
      exact List.mem_map_of_mem hlisted
    have hexpression : (ColumnEntry.ofColumn (.ofTables tables) column).defaultExpression =
        (ColumnEntry.ofColumn (.ofTables tables) column).type ++ "." ++ enumMember value := by
      show defaultExpression _ column = valueType _ column ++ "." ++ enumMember value
      rw [defaultExpression_of_enum henum hsome, valueType_of_enum henum]
    obtain ⟨rest, hline⟩ := describesColumn_render hentry
    rw [hexpression] at hline
    refine ⟨_, hentry, rfl, value, _, members, rest, hsome, rfl, hexpression, hline, ?_, hmember⟩
    show ExportsEnum _ (valueType _ column) members
    rw [valueType_of_enum henum]
    exact hexports

/-- The class of a table `c` that extends the class of `p` refers to an enum and to that class, and
shows the member `Y` as a default. -/
theorem references_resolve_subclass :
    let parent : Table := ⟨"p", [⟨"s", .enum, none, none, some ["a"], false, none⟩], none⟩
    let child : Table :=
      ⟨"c", [⟨"k", .enum, none, some "y", some ["x", "y"], false, none⟩], none⟩
    let outputs := codeOutputs [parent, child] [⟨"c", "p"⟩]
    let file := ClassFile.ofTable (.ofTables [parent, child]) child child.columns (some parent)
    ("C.ts", file) ∈ classFiles (.ofTables [parent, child]) [parent, child] [⟨"c", "p"⟩] ∧
      ⟨"C.ts", file.render⟩ ∈ outputs ∧ (∃ members, ExportsEnum outputs "K" members) ∧
      ExportsClass outputs "P" ∧
      (∃ rest, file.render = "import \x7b\n  K,\n\x7d from \"./enums\";\n" ++
        "import \x7b P \x7d from \x27./P\x27;\nexport class C extends P \x7b\n" ++ rest) ∧
      (∃ rest, DescribesColumn file.render ("        \x7b \x27name\x27: \x27k\x27, " ++
        "\x27type\x27: \x27K\x27, \x27default\x27: K.Y, \x27comment\x27: " ++ rest)) ∧
      ∃ members, ExportsEnum outputs "K" members ∧ ("Y", "y") ∈ members := by
  intro parent child outputs file
  have hmem : ("C.ts", file) ∈
      classFiles (.ofTables [parent, child]) [parent, child] [⟨"c", "p"⟩] := by
    decide +kernel
  obtain ⟨houtput, ⟨opened, hopens⟩, himports, hparent, table, _, hclass, hdefaults⟩ :=
    references_resolve hmem
  have htable : table = child := by
    rcases List.mem_cons.1 hclass.mem_tables with rfl | hlast
    · exact absurd hclass.entries_eq (by decide +kernel)
    · exact List.mem_singleton.1 hlast
  subst htable
  obtain ⟨entry, hentry, -, value, member, members, rest, hvalue, rfl, -, hline, hexports,
      hmember⟩ :=
    hdefaults ⟨"k", .enum, none, some "y", some ["x", "y"], false, none⟩ (by decide)
      (.inr ⟨"y", by decide, rfl⟩)
  have hnamed : ∀ entry ∈ file.entries, entry.type = "K" := by
    decide +kernel
  obtain rfl : "y" = value := Option.some.inj hvalue
  rw [hnamed entry hentry] at hline hexports
  have hspelled : enumMember "y" = "Y" := by
    decide +kernel
  rw [hspelled] at hline hmember
  refine ⟨hmem, houtput, himports "K" (by decide +kernel), hparent "P" (by decide +kernel),
    ⟨opened, hopens.trans ?_⟩, ⟨rest, ?_⟩, members, hexports, hmember⟩
  · refine congrArg (· ++ opened) ?_
    decide +kernel
  · exact hline

end References

end TableScribe.Code
