import TableScribe.Code.Bundle

/-!
# Where class files come from

Class files are put in place by two loops. The first gives every table with columns its plain class,
unless there is a file of that path; the second replaces files by classes that extend others.

1. `ClassOf tables table parent file`: the file is the class of a table, plain or with a parent.
   Both loops make only such files, and put each at the path of its own name (`PutInPlace`).
2. No file is ever taken away: at the path of every table with columns there is a class file
   (`exists_file_of_table`), though perhaps that of another table with the same class name.
-/

namespace TableScribe.Code

/-- The file is the class of the table, which extends the parent if one is given. Both are tables
with columns, and the parent lacks some column of the table. -/
inductive ClassOf (catalog : EnumCatalog) (tables : List Table) :
    Table → Option Table → ClassFile → Prop
  | plain {table : Table} (ht : table ∈ tables) (hc : table.columns ≠ []) :
      ClassOf catalog tables table none (.ofTable catalog table table.columns none)
  | extending {child parent : Table} (hc : child ∈ tables) (hp : parent ∈ tables)
      (hcolumns : parent.columns ≠ []) (hown : ownColumns child parent ≠ []) :
      ClassOf catalog tables child (some parent)
        (.ofTable catalog child (ownColumns child parent) (some parent))

/-- A class file stands at the path of its own name. -/
structure PutInPlace (catalog : EnumCatalog) (tables : List Table) (entry : String × ClassFile) :
    Prop where
  path : entry.1 = entry.2.name ++ ".ts"
  classOf : ∃ table parent, ClassOf catalog tables table parent entry.2

section ClassOf

variable {catalog : EnumCatalog} {tables : List Table} {table : Table} {parent : Option Table}
  {file : ClassFile}

theorem ClassOf.exists_own (h : ClassOf catalog tables table parent file) :
    table ∈ tables ∧ (∀ p ∈ parent, p ∈ tables ∧ p.columns ≠ []) ∧
      ∃ own, file = .ofTable catalog table own parent ∧ own ⊆ table.columns := by
  cases h with
  | plain ht hc => exact ⟨ht, by simp, table.columns, rfl, List.Subset.refl _⟩
  | extending hc hp hcolumns hown =>
    refine ⟨hc, fun p hmem => ?_, _, rfl, List.filter_sublist.subset⟩
    rw [← Option.some.inj hmem]
    exact ⟨hp, hcolumns⟩

theorem ClassOf.parent_eq (h : ClassOf catalog tables table parent file) :
    file.parent = parent.map fun parent => className parent.name := by
  cases h <;> rfl

theorem ClassOf.entries_eq (h : ClassOf catalog tables table parent file) :
    file.entries = table.columns.map (ColumnEntry.ofColumn catalog) := by
  cases h <;> rfl

theorem ClassOf.mem_tables (h : ClassOf catalog tables table parent file) : table ∈ tables :=
  h.exists_own.1

theorem ClassOf.parent_mem_tables {p : Table} (h : ClassOf catalog tables table (some p) file) :
    p ∈ tables ∧ p.columns ≠ [] :=
  h.exists_own.2.1 p rfl

end ClassOf

/-! ## The plain classes -/

section Files

variable {catalog : EnumCatalog} {tables : List Table} {files : List (String × ClassFile)}

theorem putInPlace_of_table {table : Table} (ht : table ∈ tables) (hc : table.columns ≠ []) :
    PutInPlace catalog tables
      (ClassFile.path table.name, .ofTable catalog table table.columns none) :=
  ⟨rfl, table, none, .plain ht hc⟩

theorem putInPlace_addPlain (h : ∀ entry ∈ files, PutInPlace catalog tables entry) {table : Table}
    (ht : table ∈ tables) :
    ∀ entry ∈ addPlain catalog files table, PutInPlace catalog tables entry := by
  intro entry hmem
  unfold addPlain at hmem
  dsimp only at hmem
  split at hmem
  · exact h entry hmem
  · rename_i hnew
    rcases List.mem_append.1 hmem with hmem | hmem
    · exact h entry hmem
    · rw [List.mem_singleton.1 hmem]
      exact putInPlace_of_table ht fun hnil => hnew (.inl hnil)

theorem paths_subset_addPlain (table : Table) :
    files.map (·.1) ⊆ (addPlain catalog files table).map (·.1) := by
  unfold addPlain
  dsimp only
  split
  · exact List.Subset.refl _
  · rw [List.map_append]
    exact List.subset_append_left _ _

theorem path_mem_addPlain {table : Table} (hc : table.columns ≠ []) :
    ClassFile.path table.name ∈ (addPlain catalog files table).map (·.1) := by
  unfold addPlain
  dsimp only
  split
  · rename_i hskip
    obtain ⟨entry, hmem, hpath⟩ := List.any_eq_true.1 (hskip.resolve_left hc)
    exact List.mem_map.2 ⟨entry, hmem, eq_of_beq hpath⟩
  · rw [List.map_append]
    exact List.mem_append_right _ List.mem_cons_self

theorem putInPlace_plainFiles :
    ∀ entry ∈ plainFiles catalog tables, PutInPlace catalog tables entry := by
  refine List.foldlRecOn tables (addPlain catalog)
    (motive := fun files => ∀ entry ∈ files, PutInPlace catalog tables entry) ?_ ?_
  · exact fun entry hmem => absurd hmem List.not_mem_nil
  · exact fun files h table ht => putInPlace_addPlain h ht

theorem path_mem_plainFiles {table : Table} (ht : table ∈ tables) (hc : table.columns ≠ []) :
    ClassFile.path table.name ∈ (plainFiles catalog tables).map (·.1) := by
  have hkeep : ∀ (more : List Table) (files : List (String × ClassFile)),
      files.map (·.1) ⊆ (more.foldl (addPlain catalog) files).map (·.1) := by
    intro more files
    refine List.foldlRecOn more (addPlain catalog)
      (motive := fun found => files.map (·.1) ⊆ found.map (·.1)) (List.Subset.refl _) ?_
    exact fun found h table _ => List.Subset.trans h (paths_subset_addPlain table)
  obtain ⟨front, back, heq⟩ := List.append_of_mem ht
  unfold plainFiles
  rw [heq, List.foldl_append, List.foldl_cons]
  exact hkeep back _ (path_mem_addPlain hc)

/-! ## The classes that extend others -/

theorem mem_putFile {path : String} {file : ClassFile} {entry : String × ClassFile}
    (h : entry ∈ putFile path file files) : entry = (path, file) ∨ entry ∈ files := by
  induction files with
  | nil => exact .inl (List.mem_singleton.1 h)
  | cons first rest ih =>
    rw [putFile] at h
    split at h
    · rcases List.mem_cons.1 h with h | h
      · exact .inl h
      · exact .inr (List.mem_cons_of_mem first h)
    · rcases List.mem_cons.1 h with rfl | h
      · exact .inr List.mem_cons_self
      · exact (ih h).imp_right (List.mem_cons_of_mem first)

theorem paths_subset_putFile (path : String) (file : ClassFile) :
    files.map (·.1) ⊆ (putFile path file files).map (·.1) := by
  induction files with
  | nil => exact List.nil_subset _
  | cons first rest ih =>
    rw [putFile]
    split
    · rename_i hpath
      rw [List.map_cons, List.map_cons, hpath]
      exact List.Subset.refl _
    · exact List.cons_subset_cons _ ih

theorem tableWithColumns?_eq_some {name : String} {table : Table}
    (h : tableWithColumns? tables name = some table) :
    table ∈ tables ∧ table.name = name ∧ table.columns ≠ [] := by
  obtain ⟨hfind, hcolumns⟩ := Option.filter_eq_some_iff.1 h
  have hname := List.find?_some hfind
  exact ⟨List.mem_of_find?_eq_some hfind, eq_of_beq hname, of_decide_eq_true hcolumns⟩

theorem resolve_eq_ok {relation : Relation} {child parent : Table}
    (h : resolve tables relation = .ok (child, parent)) :
    tableWithColumns? tables relation.child = some child ∧
      tableWithColumns? tables relation.parent = some parent := by
  unfold resolve at h
  split at h
  · exact absurd h (by simp)
  · rename_i found hparent
    split at h
    · exact absurd h (by simp)
    · rename_i other hchild
      rw [Except.ok.injEq, Prod.mk.injEq] at h
      obtain ⟨rfl, rfl⟩ := h
      exact ⟨hchild, hparent⟩

/-- A relation leaves the files as they are, or puts the class of its child in place. -/
theorem extendFile_cases (catalog : EnumCatalog) (tables : List Table)
    (files : List (String × ClassFile)) (relation : Relation) :
    extendFile catalog tables files relation = files ∨
      ∃ file, PutInPlace catalog tables (ClassFile.path relation.child, file) ∧
        extendFile catalog tables files relation =
          putFile (ClassFile.path relation.child) file files := by
  unfold extendFile
  split
  · exact .inl rfl
  · rename_i child parent hresolve
    obtain ⟨hchild, hparent⟩ := resolve_eq_ok hresolve
    obtain ⟨hc, hname, -⟩ := tableWithColumns?_eq_some hchild
    obtain ⟨hp, -, hcolumns⟩ := tableWithColumns?_eq_some hparent
    dsimp only
    split
    · exact .inl rfl
    · rename_i hown
      refine .inr ⟨_, ⟨?_, child, some parent, .extending hc hp hcolumns hown⟩, rfl⟩
      rw [← hname]
      rfl

variable {relations : List Relation}

/-- Every class file is the class of a table and stands at the path of its name. -/
theorem putInPlace_of_mem {entry : String × ClassFile}
    (h : entry ∈ classFiles catalog tables relations) : PutInPlace catalog tables entry := by
  have hall : ∀ entry ∈ classFiles catalog tables relations, PutInPlace catalog tables entry := by
    refine List.foldlRecOn relations (extendFile catalog tables)
      (motive := fun files => ∀ entry ∈ files, PutInPlace catalog tables entry)
      putInPlace_plainFiles ?_
    intro files hfiles relation _ entry hmem
    rcases extendFile_cases catalog tables files relation with heq | ⟨file, hfile, heq⟩
    · rw [heq] at hmem
      exact hfiles entry hmem
    · rw [heq] at hmem
      rcases mem_putFile hmem with rfl | hmem
      · exact hfile
      · exact hfiles entry hmem
  exact hall entry h

theorem path_mem_classFiles {path : String} (h : path ∈ (plainFiles catalog tables).map (·.1)) :
    path ∈ (classFiles catalog tables relations).map (·.1) := by
  refine List.foldlRecOn relations (extendFile catalog tables)
    (motive := fun files => path ∈ files.map (·.1)) h ?_
  intro files hfiles relation _
  rcases extendFile_cases catalog tables files relation with heq | ⟨file, -, heq⟩
  · rw [heq]
    exact hfiles
  · rw [heq]
    exact paths_subset_putFile _ file hfiles

/-- At the path of a table with columns there is a class of that name. -/
theorem exists_file_of_table (catalog : EnumCatalog) (relations : List Relation) {table : Table}
    (ht : table ∈ tables) (hc : table.columns ≠ []) :
    ∃ file, (className table.name ++ ".ts", file) ∈ classFiles catalog tables relations ∧
      file.name = className table.name := by
  have hpaths : ClassFile.path table.name ∈ (classFiles catalog tables relations).map (·.1) :=
    path_mem_classFiles (path_mem_plainFiles ht hc)
  obtain ⟨⟨path, file⟩, hmem, hpath⟩ := List.mem_map.1 hpaths
  rw [show path = className table.name ++ ".ts" from hpath] at hmem
  exact ⟨file, hmem, (String.append_left_inj ".ts").1 (putInPlace_of_mem hmem).path.symm⟩

end Files

end TableScribe.Code
