import TableScribe.Proofs.Code.Contents
import TableScribe.Proofs.Code.References

/-!
# What a constructor hands to that of its parent

The class of a table that extends another hands the columns of the parent to the constructor of the
parent, in the order of the parent's table. That constructor takes the columns of the parent in this
order if the class of the parent is plain. If it extends a third class, it takes the columns of that
one first, and those that the parent has beside them after.

So the two agree exactly if the columns of the third table are the first ones of the parent
(`handedOn_eq_parameters_iff`).
-/

namespace TableScribe.Code

section Constructors

variable {tables : List Table} {relations : List Relation} {parent grand : Table}

/-- The own columns of a table are those with names that the other table lacks. -/
theorem names_ownColumns (parent grand : Table) :
    (ownColumns parent grand).map (·.name) =
      (parent.columns.map (·.name)).filter fun name => name ∉ grand.columns.map (·.name) := by
  unfold ownColumns
  rw [List.filter_map]
  refine congrArg _ (List.filter_congr fun column _ => ?_)
  unfold Table.column?
  rw [Bool.eq_iff_iff]
  simp

/-- Taking the columns of one table first leaves the columns of another in their order exactly if
the one has the first of them. -/
theorem names_append_own_eq_iff (h : (parent.columns.map (·.name)).Nodup) :
    grand.columns.map (·.name) ++ (ownColumns parent grand).map (·.name) =
        parent.columns.map (·.name) ↔
      grand.columns.map (·.name) <+: parent.columns.map (·.name) := by
  constructor
  · exact fun heq => ⟨_, heq⟩
  · rintro ⟨rest, heq⟩
    rw [← heq] at h
    have hdisjoint := (List.nodup_append.1 h).2.2
    have hfront : (grand.columns.map (·.name)).filter
        (fun name => name ∉ grand.columns.map (·.name)) = [] :=
      List.filter_eq_nil_iff.2 fun name hname => by simpa using hname
    have hback : rest.filter (fun name => name ∉ grand.columns.map (·.name)) = rest :=
      List.filter_eq_self.2 fun name hname =>
        decide_eq_true fun hmem => hdisjoint name hmem name hname rfl
    rw [names_ownColumns, ← heq, List.filter_append, hfront, hback, List.nil_append]

/-- The parameters of a constructor: the columns of the parent, and the own ones. -/
theorem names_parameters_classOfTable (catalog : EnumCatalog) (table : Table)
    (parent : Option Table) :
    (classOfTable catalog table parent).parameters.map (·.name) =
      match parent with
      | none => table.columns.map (·.name)
      | some parent => parent.columns.map (·.name) ++ (ownColumns table parent).map (·.name) := by
  have hnames : ∀ columns : List Column,
      (columns.map (Parameter.ofColumn catalog)).map (·.name) = columns.map (·.name) :=
    fun columns => List.map_map
  cases parent with
  | none => exact hnames table.columns
  | some parent => exact (hnames _).trans List.map_append

/-- A class file that extends another hands on the columns of the parent's table. -/
theorem ClassOf.exists_parent {catalog : EnumCatalog} {table : Table} {parent : Option Table}
    {file : ClassFile} {name : String} (h : ClassOf catalog tables table parent file)
    (hparent : file.parent = some name) :
    ∃ p ∈ tables, p.columns ≠ [] ∧ className p.name = name ∧
      file.handedOn = p.columns.map (·.name) := by
  cases h with
  | plain ht hc => exact absurd hparent (by simp [ClassFile.ofTable])
  | extending hc hp hcolumns hown => exact ⟨_, hp, hcolumns, Option.some.inj hparent, rfl⟩

/-- What a class hands to the constructor of the class that it extends are the parameters of that
constructor, in their order, exactly if the parent extends no third table or the columns of the
third table are the first columns of the parent. In any case the names handed on are the columns of
the parent, and there is one file of the class of the parent. -/
theorem handedOn_eq_parameters_iff {path name : String} {file : ClassFile}
    (hclasses : (tables.map fun table => className table.name).Nodup)
    (hcolumns : ∀ table ∈ tables, (table.columns.map (·.name)).Nodup)
    (hmem : (path, file) ∈ classFiles (.ofTables tables) tables relations)
    (hparent : file.parent = some name) :
    ∃ p ∈ tables, className p.name = name ∧ file.handedOn = p.columns.map (·.name) ∧
      file.superCall = "    super(" ++ Text.join ", " (p.columns.map (·.name)) ++ ");\n" ∧
      ∃ parentFile,
        (∀ other, (name ++ ".ts", other) ∈ classFiles (.ofTables tables) tables relations ↔
          other = parentFile) ∧
        ⟨name ++ ".ts", parentFile.render⟩ ∈ codeOutputs tables relations ∧
        (file.handedOn = parentFile.parameters.map (·.name) ↔
          ∀ g ∈ parentTable? tables relations p,
            g.columns.map (·.name) <+: p.columns.map (·.name)) := by
  obtain ⟨table, parent, hclass⟩ := (putInPlace_of_mem hmem).classOf
  obtain ⟨p, hp, hc, rfl, hhanded⟩ := hclass.exists_parent hparent
  have hlookup := lookup_path_of_table (.ofTables tables) relations hclasses hp hc
  refine ⟨p, hp, rfl, hhanded, ?_,
    classOfTable (.ofTables tables) p (parentTable? tables relations p), fun other => ?_, ?_, ?_⟩
  · unfold ClassFile.superCall
    rw [hhanded, if_neg (by simpa using hc)]
  · rw [← lookup_classFiles_eq_some_iff]
    show (classFiles _ tables relations).lookup (ClassFile.path p.name) = some other ↔ _
    rw [hlookup, Option.some.injEq, eq_comm]
  · exact mem_outputs_of_classFile (lookup_classFiles_eq_some_iff.1 hlookup)
  · rw [hhanded, names_parameters_classOfTable]
    cases parentTable? tables relations p with
    | none => simp
    | some g =>
      dsimp only
      rw [eq_comm, names_append_own_eq_iff (hcolumns p hp)]
      simp

end Constructors

/-- The parent of `k` is a child itself, and has the columns of `g` in another order. -/
theorem handedOn_eq_parameters_iff_chain :
    let grand : Table := ⟨"g", [⟨"a", .int, none, none, none, false, none⟩,
      ⟨"b", .int, none, none, none, false, none⟩], none⟩
    let parent : Table := ⟨"p", [⟨"b", .int, none, none, none, false, none⟩,
      ⟨"a", .int, none, none, none, false, none⟩,
      ⟨"c", .int, none, none, none, false, none⟩], none⟩
    let child : Table := ⟨"k", [⟨"d", .int, none, none, none, false, none⟩], none⟩
    let tables : List Table := [grand, parent, child]
    let relations : List Relation := [⟨"p", "g"⟩, ⟨"k", "p"⟩]
    let file := ClassFile.ofTable (.ofTables tables) child child.columns (some parent)
    (tables.map fun table => className table.name).Nodup ∧
      (∀ table ∈ tables, (table.columns.map (·.name)).Nodup) ∧
      ("K.ts", file) ∈ classFiles (.ofTables tables) tables relations ∧ file.parent = some "P" ∧
      ∃ p ∈ tables, className p.name = "P" ∧ file.handedOn = p.columns.map (·.name) ∧
        ∃ parentFile : ClassFile, ⟨"P.ts", parentFile.render⟩ ∈ codeOutputs tables relations ∧
          (file.handedOn = parentFile.parameters.map (·.name) ↔
            ∀ g ∈ parentTable? tables relations p,
              g.columns.map (·.name) <+: p.columns.map (·.name)) := by
  intro grand parent child tables relations file
  have hclasses : (tables.map fun table => className table.name).Nodup := by
    decide +kernel
  have hcolumns : ∀ table ∈ tables, (table.columns.map (·.name)).Nodup := by
    decide +kernel
  have hmem : ("K.ts", file) ∈ classFiles (.ofTables tables) tables relations := by
    decide +kernel
  have hparent : file.parent = some "P" := by
    decide +kernel
  obtain ⟨p, hp, hname, hhanded, -, parentFile, -, houtput, hiff⟩ :=
    handedOn_eq_parameters_iff hclasses hcolumns hmem hparent
  exact ⟨hclasses, hcolumns, hmem, hparent, p, hp, hname, hhanded, parentFile, houtput, hiff⟩

/-- Not every constructor hands on what that of the parent takes: here the parent takes a column of
its own parent, too. -/
theorem not_forall_handedOn_eq_parameters :
    ¬ ∀ (tables : List Table) (relations : List Relation) (path name : String)
        (file parentFile : ClassFile),
      (tables.map (·.name)).Nodup → (tables.map fun table => className table.name).Nodup →
        (∀ table ∈ tables, (table.columns.map (·.name)).Nodup) →
        (path, file) ∈ classFiles (.ofTables tables) tables relations →
        file.parent = some name →
        (name ++ ".ts", parentFile) ∈ classFiles (.ofTables tables) tables relations →
        file.handedOn = parentFile.parameters.map (·.name) := by
  intro h
  have hequal := h
    [⟨"g", [⟨"a", .int, none, none, none, false, none⟩], none⟩,
      ⟨"p", [⟨"b", .int, none, none, none, false, none⟩], none⟩,
      ⟨"k", [⟨"d", .int, none, none, none, false, none⟩], none⟩]
    [⟨"p", "g"⟩, ⟨"k", "p"⟩] "K.ts" "P"
    ⟨"K", some "P", [], none, [⟨"d", "number", none⟩], [⟨"b", "number"⟩, ⟨"d", "number"⟩], ["b"],
      [⟨"d", "number", "undefined", "", false⟩]⟩
    ⟨"P", some "G", [], none, [⟨"b", "number", none⟩], [⟨"a", "number"⟩, ⟨"b", "number"⟩], ["a"],
      [⟨"b", "number", "undefined", "", false⟩]⟩
    (by decide +kernel) (by decide +kernel) (by decide +kernel) (by decide +kernel) rfl
    (by decide +kernel)
  exact absurd hequal (by decide +kernel)

end TableScribe.Code
