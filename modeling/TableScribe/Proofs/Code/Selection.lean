import TableScribe.Proofs.Code.Contents

/-!
# Which class files there are

The tables with columns decide which class files there are, and the relations only what stands in
them: a relation that has an effect is about a table that has its file already.

1. `TakesEffect` says when a relation has an effect, by the first tables of its two names.
2. `paths_classFiles`: the paths are those of the tables with columns, each once and in the order of
   the tables.
3. `Decides` and `FirstAt` pick the relation and the table that decide what stands at a path, and
   `classOutputs_exact` puts paths and contents together.
-/

namespace TableScribe.Code

/-- The paths of the classes of the tables with columns, each at its first place. -/
def classPaths (tables : List Table) : List String :=
  ((tables.filter (·.columns ≠ [])).map fun table => className table.name ++ ".ts").eraseDups

/-- The relation has an effect: the first tables of its two names have columns, and one of the child
has a name that the parent lacks. -/
structure TakesEffect (tables : List Table) (relation : Relation) (child parent : Table) :
    Prop where
  findChild : tables.find? (·.name == relation.child) = some child
  findParent : tables.find? (·.name == relation.parent) = some parent
  childColumns : child.columns ≠ []
  parentColumns : parent.columns ≠ []
  own : ∃ column ∈ child.columns, column.name ∉ parent.columns.map (·.name)

/-- The relation is the last one that has an effect on the class at the path. -/
def Decides (tables : List Table) (relations : List Relation) (path : String)
    (child parent : Table) : Prop :=
  ∃ front relation back, relations = front ++ relation :: back ∧
    className relation.child ++ ".ts" = path ∧ TakesEffect tables relation child parent ∧
    ∀ later ∈ back, className later.child ++ ".ts" = path →
      ∀ child parent, ¬ TakesEffect tables later child parent

/-- The table is the first one with columns whose class has the path. -/
def FirstAt (tables : List Table) (path : String) (table : Table) : Prop :=
  ∃ front back, tables = front ++ table :: back ∧ className table.name ++ ".ts" = path ∧
    table.columns ≠ [] ∧
    ∀ other ∈ front, other.columns ≠ [] → className other.name ++ ".ts" ≠ path

section Effect

variable {tables : List Table} {relation : Relation} {child parent : Table}

theorem column?_isNone_iff {table : Table} {name : String} :
    (table.column? name).isNone = true ↔ name ∉ table.columns.map (·.name) := by
  unfold Table.column?
  rw [Option.isNone_iff_eq_none, List.find?_eq_none, List.mem_map]
  constructor
  · rintro h ⟨column, hmem, hname⟩
    exact h column hmem (beq_iff_eq.2 hname)
  · exact fun h column hmem hname => h ⟨column, hmem, beq_iff_eq.1 hname⟩

theorem ownColumns_ne_nil_iff :
    ownColumns child parent ≠ [] ↔
      ∃ column ∈ child.columns, column.name ∉ parent.columns.map (·.name) := by
  unfold ownColumns
  rw [Ne, List.filter_eq_nil_iff, not_forall]
  simp only [column?_isNone_iff, not_forall, not_not, exists_prop]

theorem tableWithColumns?_eq_some_iff {name : String} {table : Table} :
    tableWithColumns? tables name = some table ↔
      tables.find? (·.name == name) = some table ∧ table.columns ≠ [] := by
  unfold tableWithColumns?
  rw [Option.filter_eq_some_iff, decide_eq_true_iff]

theorem resolve_eq_ok_iff :
    resolve tables relation = .ok (child, parent) ↔
      tableWithColumns? tables relation.child = some child ∧
        tableWithColumns? tables relation.parent = some parent := by
  refine ⟨resolve_eq_ok, fun ⟨hchild, hparent⟩ => ?_⟩
  unfold resolve
  rw [hparent, hchild]

theorem effective?_eq_some_iff :
    effective? tables relation = some (child, parent) ↔
      TakesEffect tables relation child parent := by
  rw [effective?_eq_some_iff_resolve, resolve_eq_ok_iff, tableWithColumns?_eq_some_iff,
    tableWithColumns?_eq_some_iff, ownColumns_ne_nil_iff]
  constructor
  · rintro ⟨⟨⟨hchild, hcc⟩, hparent, hpc⟩, hown⟩
    exact ⟨hchild, hparent, hcc, hpc, hown⟩
  · rintro ⟨hchild, hparent, hcc, hpc, hown⟩
    exact ⟨⟨⟨hchild, hcc⟩, hparent, hpc⟩, hown⟩

theorem effective?_eq_none_iff :
    effective? tables relation = none ↔
      ∀ child parent, ¬ TakesEffect tables relation child parent := by
  rw [Option.eq_none_iff_forall_ne_some, Prod.forall]
  simp only [Ne, effective?_eq_some_iff]

/-- The path of the child of a relation with an effect is that of a table with columns. -/
theorem TakesEffect.path_mem (h : TakesEffect tables relation child parent) :
    className relation.child ++ ".ts" ∈ classPaths tables := by
  have hname : child.name = relation.child := by simpa using List.find?_some h.findChild
  unfold classPaths
  rw [List.mem_eraseDups, ← hname]
  refine List.mem_map_of_mem (f := fun table : Table => className table.name ++ ".ts") ?_
  exact List.mem_filter.2 ⟨List.mem_of_find?_eq_some h.findChild, decide_eq_true h.childColumns⟩

end Effect

/-! ## The paths -/

section Paths

variable (catalog : EnumCatalog) (tables : List Table)

/-- The tables add the paths that are not there, each once. -/
theorem paths_foldl_addPlain (files : List (String × ClassFile)) :
    (tables.foldl (addPlain catalog) files).map (·.1) =
      files.map (·.1) ++
        (((tables.filter (·.columns ≠ [])).map fun table => className table.name ++ ".ts").filter
          fun path => path ∉ files.map (·.1)).eraseDups := by
  induction tables generalizing files with
  | nil => simp
  | cons table rest ih =>
    rw [List.foldl_cons, ih]
    by_cases hc : table.columns = []
    · have hsame : addPlain catalog files table = files := if_pos (.inl hc)
      rw [hsame, List.filter_cons_of_neg (by simpa using hc)]
    · rw [List.filter_cons_of_pos (by simpa using hc), List.map_cons]
      by_cases hold : className table.name ++ ".ts" ∈ files.map (·.1)
      · have hany : files.any (·.1 == className table.name ++ ".ts") = true := by
          obtain ⟨entry, hmem, hpath⟩ := List.mem_map.1 hold
          exact List.any_eq_true.2 ⟨entry, hmem, beq_iff_eq.2 hpath⟩
        have hsame : addPlain catalog files table = files := if_pos (.inr hany)
        rw [hsame, List.filter_cons_of_neg (by simpa using hold)]
      · have hany : ¬ files.any (·.1 == className table.name ++ ".ts") = true := by
          intro hany
          obtain ⟨entry, hmem, hpath⟩ := List.any_eq_true.1 hany
          exact hold (List.mem_map.2 ⟨entry, hmem, eq_of_beq hpath⟩)
        have hmore : (addPlain catalog files table).map (·.1) =
            files.map (·.1) ++ [className table.name ++ ".ts"] := by
          unfold addPlain
          dsimp only
          rw [if_neg fun h => h.elim hc hany, List.map_append]
          rfl
        rw [hmore, List.filter_cons_of_pos (by simpa using hold), List.eraseDups_cons,
          List.filter_filter, List.append_assoc]
        refine congrArg (files.map (·.1) ++ (className table.name ++ ".ts") :: ·) ?_
        refine congrArg List.eraseDups (List.filter_congr fun path _ => ?_)
        rw [Bool.eq_iff_iff]
        simp [and_comm]

theorem paths_plainFiles : (plainFiles catalog tables).map (·.1) = classPaths tables := by
  unfold plainFiles classPaths
  rw [paths_foldl_addPlain]
  simp

theorem paths_putFile {path : String} {file : ClassFile} {files : List (String × ClassFile)}
    (h : path ∈ files.map (·.1)) : (putFile path file files).map (·.1) = files.map (·.1) := by
  induction files with
  | nil => exact absurd h List.not_mem_nil
  | cons first rest ih =>
    rw [putFile]
    split
    · rename_i hpath
      rw [List.map_cons, List.map_cons, hpath]
    · rename_i hne
      rw [List.map_cons, List.map_cons, ih ((List.mem_cons.1 h).resolve_left (Ne.symm hne))]

/-- The relations leave the paths as they are. -/
theorem paths_classFiles (relations : List Relation) :
    (classFiles catalog tables relations).map (·.1) = classPaths tables := by
  refine List.foldlRecOn relations (extendFile catalog tables)
    (motive := fun files => files.map (·.1) = classPaths tables)
    (paths_plainFiles catalog tables) ?_
  intro files hpaths relation _
  rw [extendFile_eq]
  cases heffective : effective? tables relation with
  | none => exact hpaths
  | some pair =>
    have hmem := (effective?_eq_some_iff.1 heffective).path_mem
    rw [← hpaths] at hmem
    exact (paths_putFile hmem).trans hpaths

theorem paths_classOutputs (relations : List Relation) :
    (classOutputs catalog tables relations).map (·.path) = classPaths tables := by
  rw [← paths_classFiles catalog tables relations]
  exact List.map_map

end Paths

/-! ## The contents -/

section Contents

variable {catalog : EnumCatalog} {tables : List Table} {relations : List Relation} {path : String}
  {file : ClassFile}

theorem subclassAt?_eq_some_iff {relation : Relation} :
    subclassAt? catalog tables path relation = some file ↔
      className relation.child ++ ".ts" = path ∧
        ∃ child parent, TakesEffect tables relation child parent ∧
          file = subclass catalog child parent := by
  unfold subclassAt? ClassFile.path
  by_cases hpath : className relation.child ++ ".ts" = path
  · rw [if_pos hpath, Option.map_eq_some_iff, Prod.exists, and_iff_right hpath]
    simp only [effective?_eq_some_iff, @eq_comm _ _ file]
  · rw [if_neg hpath]
    simp [hpath]

theorem subclassAt?_eq_none_iff {relation : Relation} :
    subclassAt? catalog tables path relation = none ↔
      (className relation.child ++ ".ts" = path →
        ∀ child parent, ¬ TakesEffect tables relation child parent) := by
  unfold subclassAt? ClassFile.path
  by_cases hpath : className relation.child ++ ".ts" = path
  · rw [if_pos hpath, Option.map_eq_none_iff, effective?_eq_none_iff]
    exact ⟨fun h _ => h, fun h => h hpath⟩
  · rw [if_neg hpath]
    exact ⟨fun _ h => absurd h hpath, fun _ => rfl⟩

/-- The last element that a partial function is defined at. -/
theorem getLast?_filterMap_eq_some_iff {α β : Type} {f : α → Option β} {list : List α} {b : β} :
    (list.filterMap f).getLast? = some b ↔
      ∃ front a back, list = front ++ a :: back ∧ f a = some b ∧
        ∀ later ∈ back, f later = none := by
  rw [List.getLast?_eq_some_iff]
  constructor
  · rintro ⟨before, h⟩
    obtain ⟨front, last, rfl, -, hlast⟩ := List.filterMap_eq_append_iff.1 h
    obtain ⟨idle, a, back, rfl, -, ha, hback⟩ := List.filterMap_eq_cons_iff.1 hlast
    exact ⟨front ++ idle, a, back, by simp, ha, List.filterMap_eq_nil_iff.1 hback⟩
  · rintro ⟨front, a, back, rfl, ha, hback⟩
    refine ⟨front.filterMap f, ?_⟩
    rw [List.filterMap_append, List.filterMap_cons_some ha, List.filterMap_eq_nil_iff.2 hback]

theorem lastSubclass_eq_some_iff :
    (relations.filterMap (subclassAt? catalog tables path)).getLast? = some file ↔
      ∃ child parent, Decides tables relations path child parent ∧
        file = subclass catalog child parent := by
  rw [getLast?_filterMap_eq_some_iff]
  simp only [subclassAt?_eq_some_iff, subclassAt?_eq_none_iff]
  constructor
  · rintro ⟨front, relation, back, hsplit, ⟨hpath, child, parent, heffect, rfl⟩, hlast⟩
    exact ⟨child, parent, ⟨front, relation, back, hsplit, hpath, heffect, hlast⟩, rfl⟩
  · rintro ⟨child, parent, ⟨front, relation, back, hsplit, hpath, heffect, hlast⟩, rfl⟩
    exact ⟨front, relation, back, hsplit, ⟨hpath, child, parent, heffect, rfl⟩, hlast⟩

theorem lastSubclass_eq_none_iff :
    (relations.filterMap (subclassAt? catalog tables path)).getLast? = none ↔
      ∀ child parent, ¬ Decides tables relations path child parent := by
  rw [Option.eq_none_iff_forall_ne_some]
  simp only [Ne, lastSubclass_eq_some_iff]
  constructor
  · exact fun h child parent hdecides => h _ ⟨child, parent, hdecides, rfl⟩
  · exact fun h file ⟨child, parent, hdecides, _⟩ => h child parent hdecides

theorem lookup_plainFiles_eq_some_iff :
    (plainFiles catalog tables).lookup path = some file ↔
      ∃ table, FirstAt tables path table ∧
        file = .ofTable catalog table table.columns none := by
  rw [lookup_plainFiles, Option.map_eq_some_iff]
  refine exists_congr fun table => and_congr ?_ eq_comm
  rw [List.find?_eq_some_iff_append]
  unfold FirstAt
  simp only [decide_eq_true_eq, Bool.not_eq_true', decide_eq_false_iff_not, not_and]
  constructor
  · rintro ⟨⟨hc, hpath⟩, front, back, hsplit, hfront⟩
    exact ⟨front, back, hsplit, hpath, hc, hfront⟩
  · rintro ⟨front, back, hsplit, hpath, hc, hfront⟩
    exact ⟨⟨hc, hpath⟩, front, back, hsplit, hfront⟩

/-- What stands at a path: the class of the child of the relation that decides it, and where there
is none, the plain class of the first table. -/
theorem mem_classFiles_iff :
    (path, file) ∈ classFiles catalog tables relations ↔
      (∃ child parent, Decides tables relations path child parent ∧
          file = subclass catalog child parent) ∨
        (∀ child parent, ¬ Decides tables relations path child parent) ∧
          ∃ table, FirstAt tables path table ∧
            file = .ofTable catalog table table.columns none := by
  rw [← lookup_classFiles_eq_some_iff, lookup_classFiles, Option.or_eq_some_iff,
    lastSubclass_eq_some_iff, lastSubclass_eq_none_iff, lookup_plainFiles_eq_some_iff]

end Contents

/-- The class files are those of the tables with columns, each path once and in the order of the
tables, whatever the relations are; in particular each relation with an effect finds the file of its
child in place. A path has the class that the last relation with an effect on it gives to its child,
and without one the plain class of the first table with columns there. -/
theorem classOutputs_exact (catalog : EnumCatalog) (tables : List Table)
    (relations : List Relation) :
    (classOutputs catalog tables relations).map (·.path) = classPaths tables ∧
      (∀ (earlier : List Relation) (relation : Relation) (child parent : Table),
        TakesEffect tables relation child parent →
          className relation.child ++ ".ts" ∈
            (classOutputs catalog tables earlier).map (·.path)) ∧
      ∀ output, output ∈ classOutputs catalog tables relations ↔
        (∃ child parent, Decides tables relations output.path child parent ∧
            output.contents = (subclass catalog child parent).render) ∨
          (∀ child parent, ¬ Decides tables relations output.path child parent) ∧
            ∃ table, FirstAt tables output.path table ∧
              output.contents = (ClassFile.ofTable catalog table table.columns none).render := by
  refine ⟨paths_classOutputs catalog tables relations, ?_, fun output => ?_⟩
  · intro earlier relation child parent heffect
    rw [paths_classOutputs]
    exact heffect.path_mem
  · have houtput : output ∈ classOutputs catalog tables relations ↔
        ∃ file, (output.path, file) ∈ classFiles catalog tables relations ∧
          output.contents = file.render := by
      unfold classOutputs
      rw [List.mem_map]
      constructor
      · rintro ⟨⟨path, file⟩, hmem, rfl⟩
        exact ⟨file, hmem, rfl⟩
      · rintro ⟨file, hmem, hcontents⟩
        refine ⟨(output.path, file), hmem, ?_⟩
        dsimp only
        rw [← hcontents]
    rw [houtput]
    simp only [mem_classFiles_iff]
    constructor
    · rintro ⟨file, ⟨child, parent, hdecides, rfl⟩ | ⟨hnone, table, hfirst, rfl⟩, hcontents⟩
      · exact .inl ⟨child, parent, hdecides, hcontents⟩
      · exact .inr ⟨hnone, table, hfirst, hcontents⟩
    · rintro (⟨child, parent, hdecides, hcontents⟩ | ⟨hnone, table, hfirst, hcontents⟩)
      · exact ⟨_, .inl ⟨child, parent, hdecides, rfl⟩, hcontents⟩
      · exact ⟨_, .inr ⟨hnone, table, hfirst, rfl⟩, hcontents⟩

/-- The tables `users` and `Users` share a path, and stand there in the order of the tables: the
first as long as there are no relations, the second when it extends another table. -/
theorem classOutputs_exact_letterCase :
    let column : String → Column := fun name => ⟨name, .int, none, none, none, false, none⟩
    let first : Table := ⟨"users", [column "a"], none⟩
    let second : Table := ⟨"Users", [column "b"], none⟩
    let parent : Table := ⟨"r", [column "c"], none⟩
    let tables : List Table := [first, second, ⟨"empty", [], none⟩, parent]
    let catalog := EnumCatalog.ofTables tables
    (∀ relations, (classOutputs catalog tables relations).map (·.path) = ["Users.ts", "R.ts"]) ∧
      ⟨"Users.ts", (ClassFile.ofTable catalog first first.columns none).render⟩ ∈
        classOutputs catalog tables [] ∧
      ⟨"Users.ts", (subclass catalog second parent).render⟩ ∈
        classOutputs catalog tables [⟨"Users", "r"⟩, ⟨"users", "empty"⟩] := by
  intro column first second parent tables catalog
  have hfirst : className "users" = "Users" := by decide +kernel
  have hsecond : className "Users" = "Users" := by decide +kernel
  have hparent : className "r" = "R" := by decide +kernel
  refine ⟨fun relations => ?_, ?_, ?_⟩
  · rw [(classOutputs_exact catalog tables relations).1]
    show (["users", "Users", "r"].map fun name => className name ++ ".ts").eraseDups = _
    simp only [List.map_cons, List.map_nil, hfirst, hsecond, hparent]
    decide
  · refine ((classOutputs_exact catalog tables []).2.2 _).2 (.inr ⟨?_, first, ?_, rfl⟩)
    · rintro child parent ⟨front, relation, back, hsplit, -⟩
      exact absurd hsplit (by simp)
    · exact ⟨[], _, rfl, congrArg (· ++ ".ts") hfirst, by decide, by simp⟩
  · refine ((classOutputs_exact catalog tables _).2.2 _).2 (.inl ⟨second, parent, ?_, rfl⟩)
    refine ⟨[], ⟨"Users", "r"⟩, [⟨"users", "empty"⟩], rfl, congrArg (· ++ ".ts") hsecond, ?_, ?_⟩
    · exact ⟨by decide, by decide, by decide, by decide, by decide⟩
    · -- The later relation is about the same path, but its parent has no columns.
      rintro later hlater - child parent ⟨-, hparent, -, hcolumns, -⟩
      obtain rfl := List.mem_singleton.1 hlater
      obtain rfl : ⟨"empty", [], none⟩ = parent := Option.some.inj hparent
      exact hcolumns rfl

end TableScribe.Code
