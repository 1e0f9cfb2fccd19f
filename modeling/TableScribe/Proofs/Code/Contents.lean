import Mathlib.Data.List.Nodup
import TableScribe.Proofs.Code.ClassFiles
import TableScribe.Proofs.Lookup

/-!
# What stands at the path of a class

The relations are gone through in order, and each that has an effect puts the class of its child in
place. So what stands at a path in the end is decided by the last of them for that path, and where
there is none, by the first table.

1. `effective?` tells whether a relation has an effect and which tables it is about.
2. `lookup_classFiles`: the last class that a relation puts at a path stands there, or the plain
   class of the first table with that path (`lookup_plainFiles`).
3. If no two tables have the same class name, this is the class of the one table with that name,
   which extends the parent of its last relation (`lookup_path_of_table`).
4. No path occurs twice (`nodup_paths_classFiles`).
-/

namespace TableScribe.Code

/-! ## Relations with an effect -/

/-- The child and the parent of a relation, if both are tables with columns and the child has some
that the parent lacks. -/
def effective? (tables : List Table) (relation : Relation) : Option (Table × Table) :=
  match resolve tables relation with
  | .error _ => none
  | .ok (child, parent) =>
    if ownColumns child parent = [] then none else some (child, parent)

/-- The class of a table that extends another. -/
def subclass (catalog : EnumCatalog) (child parent : Table) : ClassFile :=
  .ofTable catalog child (ownColumns child parent) (some parent)

/-- The class that a relation puts at a path, if it puts one there. -/
def subclassAt? (catalog : EnumCatalog) (tables : List Table) (path : String)
    (relation : Relation) : Option ClassFile :=
  if ClassFile.path relation.child = path then
    (effective? tables relation).map fun (child, parent) => subclass catalog child parent
  else none

section Effective

variable {tables : List Table} {relation : Relation} {child parent : Table}

theorem effective?_eq_some_iff_resolve :
    effective? tables relation = some (child, parent) ↔
      resolve tables relation = .ok (child, parent) ∧ ownColumns child parent ≠ [] := by
  unfold effective?
  cases hresolve : resolve tables relation with
  | error event => simp
  | ok pair =>
    obtain ⟨one, other⟩ := pair
    dsimp only
    split
    · rename_i hnil
      refine ⟨fun h => absurd h (by simp), fun ⟨hpair, hne⟩ => ?_⟩
      rw [Except.ok.injEq, Prod.mk.injEq] at hpair
      obtain ⟨rfl, rfl⟩ := hpair
      exact absurd hnil hne
    · rename_i hne
      rw [Option.some.injEq, Except.ok.injEq, Prod.mk.injEq]
      refine ⟨?_, And.left⟩
      rintro ⟨rfl, rfl⟩
      exact ⟨⟨rfl, rfl⟩, hne⟩

theorem effective?_eq_some (h : effective? tables relation = some (child, parent)) :
    (child ∈ tables ∧ child.name = relation.child ∧ child.columns ≠ []) ∧
      (parent ∈ tables ∧ parent.name = relation.parent ∧ parent.columns ≠ []) ∧
      ownColumns child parent ≠ [] := by
  obtain ⟨hresolve, hown⟩ := effective?_eq_some_iff_resolve.1 h
  obtain ⟨hchild, hparent⟩ := resolve_eq_ok hresolve
  exact ⟨tableWithColumns?_eq_some hchild, tableWithColumns?_eq_some hparent, hown⟩

theorem extendFile_eq (catalog : EnumCatalog) (tables : List Table)
    (files : List (String × ClassFile)) (relation : Relation) :
    extendFile catalog tables files relation =
      match effective? tables relation with
      | none => files
      | some (child, parent) =>
        putFile (ClassFile.path relation.child) (subclass catalog child parent) files := by
  unfold extendFile effective?
  cases resolve tables relation with
  | error event => rfl
  | ok pair =>
    dsimp only
    split <;> rfl

end Effective

/-! ## The class at a path -/

section Lookup

variable (catalog : EnumCatalog) (tables : List Table)

theorem lookup_putFile (path : String) (file : ClassFile) (files : List (String × ClassFile))
    (other : String) :
    (putFile path file files).lookup other =
      if other = path then some file else files.lookup other :=
  lookup_of_put (putFile path file) rfl (fun _ _ => rfl) files other

theorem lookup_extendFile (files : List (String × ClassFile)) (relation : Relation)
    (path : String) :
    (extendFile catalog tables files relation).lookup path =
      (subclassAt? catalog tables path relation).or (files.lookup path) := by
  rw [extendFile_eq]
  unfold subclassAt?
  cases effective? tables relation with
  | none => simp
  | some pair =>
    dsimp only
    rw [lookup_putFile]
    by_cases h : path = ClassFile.path relation.child
    · rw [if_pos h, if_pos h.symm]
      rfl
    · rw [if_neg h, if_neg (Ne.symm h)]
      rfl

theorem lookup_foldl_extendFile (relations : List Relation) (files : List (String × ClassFile))
    (path : String) :
    (relations.foldl (extendFile catalog tables) files).lookup path =
      (relations.filterMap (subclassAt? catalog tables path)).getLast?.or (files.lookup path) := by
  induction relations generalizing files with
  | nil => rfl
  | cons relation rest ih =>
    rw [List.foldl_cons, ih, lookup_extendFile, List.filterMap_cons]
    cases subclassAt? catalog tables path relation with
    | none => rfl
    | some file =>
      dsimp only
      rw [List.getLast?_cons]
      cases (rest.filterMap (subclassAt? catalog tables path)).getLast? <;> rfl

/-- The class at a path is the last that a relation puts there, or else a plain one. -/
theorem lookup_classFiles (relations : List Relation) (path : String) :
    (classFiles catalog tables relations).lookup path =
      (relations.filterMap (subclassAt? catalog tables path)).getLast?.or
        ((plainFiles catalog tables).lookup path) :=
  lookup_foldl_extendFile catalog tables relations _ path

theorem lookup_addPlain (files : List (String × ClassFile)) (table : Table) (path : String) :
    (addPlain catalog files table).lookup path =
      (files.lookup path).or
        (if table.columns ≠ [] ∧ ClassFile.path table.name = path then
          some (.ofTable catalog table table.columns none)
        else none) := by
  unfold addPlain
  dsimp only
  by_cases hc : table.columns = []
  · rw [if_pos (.inl hc), if_neg fun h => h.1 hc, Option.or_none]
  · by_cases hany : files.any (·.1 == ClassFile.path table.name) = true
    · rw [if_pos (.inr hany)]
      by_cases hpath : ClassFile.path table.name = path
      · -- There is a file of this path, and so the table adds none.
        obtain ⟨entry, hmem, hentry⟩ := List.any_eq_true.1 hany
        have hsome : (files.lookup path).isSome = true := by
          rw [List.lookup_isSome_iff]
          exact ⟨entry, hmem, by rw [eq_of_beq hentry, hpath, beq_self_eq_true]⟩
        obtain ⟨file, hfile⟩ := Option.isSome_iff_exists.1 hsome
        rw [hfile]
        rfl
      · rw [if_neg fun h => hpath h.2, Option.or_none]
    · rw [if_neg fun h => h.elim hc hany, List.lookup_append, lookup_cons_eq_if, List.lookup_nil]
      by_cases hpath : ClassFile.path table.name = path
      · rw [if_pos hpath.symm, if_pos ⟨hc, hpath⟩]
      · rw [if_neg (Ne.symm hpath), if_neg fun h => hpath h.2]

/-- The plain class at a path is that of the first table with columns and this path. -/
theorem lookup_plainFiles (path : String) :
    (plainFiles catalog tables).lookup path =
      (tables.find? fun table => table.columns ≠ [] ∧ ClassFile.path table.name = path).map
        fun table => .ofTable catalog table table.columns none := by
  have hfold : ∀ files : List (String × ClassFile),
      (tables.foldl (addPlain catalog) files).lookup path =
        (files.lookup path).or
          ((tables.find? fun table =>
              table.columns ≠ [] ∧ ClassFile.path table.name = path).map
            fun table => .ofTable catalog table table.columns none) := by
    induction tables with
    | nil => exact fun files => Option.or_none.symm
    | cons table rest ih =>
      intro files
      rw [List.foldl_cons, ih, lookup_addPlain, Option.or_assoc, List.find?_cons]
      by_cases h : table.columns ≠ [] ∧ ClassFile.path table.name = path
      · simp [h]
      · simp [h]
  exact hfold []

end Lookup

/-! ## No path twice -/

section Nodup

variable {catalog : EnumCatalog} {tables : List Table} {files : List (String × ClassFile)}

theorem nodup_paths_addPlain (h : (files.map (·.1)).Nodup) (table : Table) :
    ((addPlain catalog files table).map (·.1)).Nodup := by
  unfold addPlain
  dsimp only
  split
  · exact h
  · rename_i hnew
    have hfresh : ClassFile.path table.name ∉ files.map (·.1) := by
      intro hmem
      obtain ⟨entry, hentry, hpath⟩ := List.mem_map.1 hmem
      exact hnew (.inr (List.any_eq_true.2 ⟨entry, hentry, beq_iff_eq.2 hpath⟩))
    rw [List.map_append]
    refine List.nodup_append.2 ⟨h, List.nodup_singleton _, fun path hpath other hother => ?_⟩
    rw [List.mem_singleton.1 hother]
    rintro rfl
    exact hfresh hpath

theorem mem_paths_putFile {path other : String} {file : ClassFile} :
    other ∈ (putFile path file files).map (·.1) ↔ other = path ∨ other ∈ files.map (·.1) := by
  induction files with
  | nil => simp [putFile]
  | cons first rest ih =>
    rw [putFile]
    split
    · rename_i hpath
      simp [hpath]
    · rw [List.map_cons, List.mem_cons, ih, List.map_cons, List.mem_cons]
      exact or_left_comm

theorem nodup_paths_putFile (h : (files.map (·.1)).Nodup) (path : String) (file : ClassFile) :
    ((putFile path file files).map (·.1)).Nodup := by
  induction files with
  | nil => exact List.nodup_singleton path
  | cons first rest ih =>
    obtain ⟨hfirst, hrest⟩ := List.nodup_cons.1 h
    rw [putFile]
    split
    · rename_i hpath
      rw [List.map_cons, ← hpath]
      exact h
    · rename_i hne
      refine List.nodup_cons.2 ⟨fun hmem => ?_, ih hrest⟩
      rcases mem_paths_putFile.1 hmem with heq | hmem
      · exact hne heq
      · exact hfirst hmem

theorem nodup_paths_classFiles (catalog : EnumCatalog) (tables : List Table)
    (relations : List Relation) : ((classFiles catalog tables relations).map (·.1)).Nodup := by
  have hplain : ((plainFiles catalog tables).map (·.1)).Nodup :=
    List.foldlRecOn tables (addPlain catalog) (motive := fun files => (files.map (·.1)).Nodup)
      List.nodup_nil fun _ h table _ => nodup_paths_addPlain h table
  refine List.foldlRecOn relations (extendFile catalog tables)
    (motive := fun files => (files.map (·.1)).Nodup) hplain ?_
  intro files h relation _
  rcases extendFile_cases catalog tables files relation with heq | ⟨file, -, heq⟩
  · rw [heq]
    exact h
  · rw [heq]
    exact nodup_paths_putFile h _ file

/-- Looking up a path is finding its file among the class files. -/
theorem lookup_classFiles_eq_some_iff {relations : List Relation} {path : String}
    {file : ClassFile} :
    (classFiles catalog tables relations).lookup path = some file ↔
      (path, file) ∈ classFiles catalog tables relations :=
  lookup_eq_some_iff_mem (nodup_paths_classFiles catalog tables relations)

end Nodup

/-! ## Tables with class names of their own -/

/-- The table whose class the class of a table extends, if it extends one: the parent of the last
relation of the table that has an effect. -/
def parentTable? (tables : List Table) (relations : List Relation) (table : Table) :
    Option Table :=
  (relations.filterMap fun relation =>
    if relation.child = table.name then (effective? tables relation).map (·.2) else none).getLast?

/-- The class of a table, plain or with a parent. -/
def classOfTable (catalog : EnumCatalog) (table : Table) (parent : Option Table) : ClassFile :=
  match parent with
  | none => .ofTable catalog table table.columns none
  | some parent => subclass catalog table parent

section Distinct

variable {catalog : EnumCatalog} {tables : List Table} {relations : List Relation} {table : Table}

theorem eq_of_className_eq (hclasses : (tables.map fun table => className table.name).Nodup)
    {one other : Table} (h1 : one ∈ tables) (h2 : other ∈ tables)
    (h : className one.name = className other.name) : one = other :=
  List.inj_on_of_nodup_map hclasses h1 h2 h

theorem path_eq_iff {one other : String} :
    ClassFile.path one = ClassFile.path other ↔ className one = className other :=
  String.append_left_inj ".ts"

theorem subclassAt?_of_table (hclasses : (tables.map fun table => className table.name).Nodup)
    (ht : table ∈ tables) (relation : Relation) :
    subclassAt? catalog tables (ClassFile.path table.name) relation =
      (if relation.child = table.name then (effective? tables relation).map (·.2) else none).map
        (subclass catalog table) := by
  unfold subclassAt?
  cases heff : effective? tables relation with
  | none => simp
  | some pair =>
    obtain ⟨child, parent⟩ := pair
    obtain ⟨⟨hchild, hname, -⟩, -⟩ := effective?_eq_some heff
    by_cases h : relation.child = table.name
    · have heq : child = table :=
        eq_of_className_eq hclasses hchild ht (by rw [hname, h])
      rw [if_pos (by rw [h]), if_pos h, heq]
      rfl
    · have hpath : ClassFile.path relation.child ≠ ClassFile.path table.name := by
        rw [← hname, Ne, path_eq_iff]
        intro hclass
        exact h (by rw [← hname, eq_of_className_eq hclasses hchild ht hclass])
      rw [if_neg hpath, if_neg h]
      rfl

/-- At the path of a table with columns stands its class. -/
theorem lookup_path_of_table (catalog : EnumCatalog) (relations : List Relation)
    (hclasses : (tables.map fun table => className table.name).Nodup) (ht : table ∈ tables)
    (hc : table.columns ≠ []) :
    (classFiles catalog tables relations).lookup (ClassFile.path table.name) =
      some (classOfTable catalog table (parentTable? tables relations table)) := by
  have hfind : tables.find? (fun other =>
      other.columns ≠ [] ∧ ClassFile.path other.name = ClassFile.path table.name) = some table := by
    cases hfind : tables.find? (fun other =>
        other.columns ≠ [] ∧ ClassFile.path other.name = ClassFile.path table.name) with
    | none => exact absurd (List.find?_eq_none.1 hfind table ht) (by simp [hc])
    | some other =>
      have hsome := List.find?_some hfind
      have hpath := of_decide_eq_true hsome
      rw [eq_of_className_eq hclasses (List.mem_of_find?_eq_some hfind) ht
        (path_eq_iff.1 hpath.2)]
  rw [lookup_classFiles, lookup_plainFiles, hfind]
  unfold parentTable?
  rw [funext (subclassAt?_of_table hclasses ht), ← List.map_filterMap, List.getLast?_map]
  cases (relations.filterMap fun relation =>
    if relation.child = table.name then (effective? tables relation).map (·.2)
    else none).getLast? <;> rfl

end Distinct

end TableScribe.Code
