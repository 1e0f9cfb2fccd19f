import TableScribe.Code.EnumCatalog

/-!
# What an enum catalog says

The catalog of some tables is built in two passes. The first gives every list of values the name
that the first column with these values asks for; the second collects the values of each name. That
the two fit together is stated through what can be seen of them:

1. `Lists enums name value`: the enum of that name has the value. One more list of values adds
   exactly its own (`lists_addValues`), whatever has been merged before.
2. `NamedBy columns names`: each list of values of the columns has one name, and it comes from a
   column that has exactly these values.
3. `ofTables_canonical` puts the two together: names and values occur once and in order, the enum
   that a column is typed by has the values of the column, and no enum has any other value.
-/

namespace TableScribe.Code

/-! ## Sorted texts without repeats -/

theorem pairwise_insertText (text : String) {texts : List String} (h : texts.Pairwise (· ≤ ·)) :
    (insertText text texts).Pairwise (· ≤ ·) := by
  induction texts with
  | nil => exact List.pairwise_singleton _ _
  | cons first rest ih =>
    obtain ⟨hfirst, hrest⟩ := List.pairwise_cons.1 h
    unfold insertText
    split
    · rename_i hlt
      refine List.pairwise_cons.2 ⟨fun other hmem => ?_, ih hrest⟩
      rcases List.mem_cons.1 ((insertText_perm text rest).mem_iff.1 hmem) with rfl | hmem
      · exact Std.le_of_lt hlt
      · exact hfirst other hmem
    · rename_i hnot
      have hle : text ≤ first := String.not_lt.1 hnot
      refine List.pairwise_cons.2 ⟨fun other hmem => ?_, h⟩
      rcases List.mem_cons.1 hmem with rfl | hmem
      · exact hle
      · exact String.le_trans hle (hfirst other hmem)

theorem pairwise_sortTexts (texts : List String) : (sortTexts texts).Pairwise (· ≤ ·) := by
  induction texts with
  | nil => exact .nil
  | cons text rest ih => exact pairwise_insertText text ih

theorem mem_sortTexts {text : String} {texts : List String} :
    text ∈ sortTexts texts ↔ text ∈ texts :=
  (sortTexts_perm texts).mem_iff

theorem mem_dropRepeats {text : String} {texts : List String} :
    text ∈ dropRepeats texts ↔ text ∈ texts := by
  induction texts using dropRepeats.induct with
  | case1 => exact .rfl
  | case2 a => exact .rfl
  | case3 a rest ih =>
    rw [dropRepeats, if_pos rfl, ih]
    simp
  | case4 a b rest hne ih => rw [dropRepeats, if_neg hne, List.mem_cons, List.mem_cons, ih]

/-- In a sorted list equal texts are neighbours, and so each text is left once. -/
theorem pairwise_dropRepeats {texts : List String} (h : texts.Pairwise (· ≤ ·)) :
    (dropRepeats texts).Pairwise (· < ·) := by
  induction texts using dropRepeats.induct with
  | case1 => exact .nil
  | case2 a => exact List.pairwise_singleton _ _
  | case3 a rest ih =>
    rw [dropRepeats, if_pos rfl]
    exact ih (List.pairwise_cons.1 h).2
  | case4 a b rest hne ih =>
    obtain ⟨ha, hrest⟩ := List.pairwise_cons.1 h
    rw [dropRepeats, if_neg hne]
    refine List.pairwise_cons.2 ⟨fun other hmem => ?_, ih hrest⟩
    have hab : a < b := Std.lt_of_le_of_ne (ha b List.mem_cons_self) hne
    rcases List.mem_cons.1 (mem_dropRepeats.1 hmem) with rfl | hmem
    · exact hab
    · exact Std.lt_of_lt_of_le hab ((List.pairwise_cons.1 hrest).1 other hmem)

theorem mem_valueKey {value : String} {column : Column} :
    value ∈ valueKey column ↔ value ∈ column.values.getD [] :=
  mem_sortTexts

namespace EnumCatalog

/-! ## Enums and their values -/

/-- The enum of that name has the value. -/
def Lists (enums : List EnumDefinition) (name value : String) : Prop :=
  ∃ definition ∈ enums, definition.name = name ∧ value ∈ definition.values

theorem not_lists_nil {name value : String} : ¬ Lists [] name value := by
  rintro ⟨definition, hmem, -⟩
  exact absurd hmem List.not_mem_nil

theorem lists_cons {first : EnumDefinition} {rest : List EnumDefinition} {name value : String} :
    Lists (first :: rest) name value ↔
      (first.name = name ∧ value ∈ first.values) ∨ Lists rest name value := by
  unfold Lists
  simp only [List.mem_cons, or_and_right, exists_or, exists_eq_left]

section AddValues

variable {enums : List EnumDefinition} {name other value : String} {values : List String}

/-- Adding values changes nothing but that the enum has them. -/
theorem lists_addValues :
    Lists (addValues name values enums) other value ↔
      (name = other ∧ value ∈ values) ∨ Lists enums other value := by
  induction enums with
  | nil => rw [addValues, lists_cons]
  | cons first rest ih =>
    rw [addValues]
    split
    · rename_i hname
      subst hname
      rw [lists_cons, lists_cons, List.mem_append]
      constructor
      · rintro (⟨hother, hfirst | hvalues⟩ | hrest)
        · exact .inr (.inl ⟨hother, hfirst⟩)
        · exact .inl ⟨hother, hvalues⟩
        · exact .inr (.inr hrest)
      · rintro (⟨hother, hvalues⟩ | ⟨hother, hfirst⟩ | hrest)
        · exact .inl ⟨hother, .inr hvalues⟩
        · exact .inl ⟨hother, .inl hfirst⟩
        · exact .inr hrest
    · rw [lists_cons, lists_cons, ih]
      exact or_left_comm

theorem mem_names_addValues :
    other ∈ (addValues name values enums).map (·.name) ↔
      other = name ∨ other ∈ enums.map (·.name) := by
  induction enums with
  | nil =>
    rw [addValues]
    simp
  | cons first rest ih =>
    rw [addValues]
    split
    · rename_i hname
      subst hname
      simp
    · rw [List.map_cons, List.mem_cons, ih, List.map_cons, List.mem_cons]
      exact or_left_comm

theorem nodup_addValues (h : (enums.map (·.name)).Nodup) :
    ((addValues name values enums).map (·.name)).Nodup := by
  induction enums with
  | nil =>
    rw [addValues]
    simp
  | cons first rest ih =>
    obtain ⟨hfirst, hrest⟩ := List.nodup_cons.1 h
    rw [addValues]
    split
    · exact h
    · rename_i hname
      refine List.nodup_cons.2 ⟨fun hmem => ?_, ih hrest⟩
      rcases mem_names_addValues.1 hmem with heq | hmem
      · exact hname heq
      · exact hfirst hmem

end AddValues

/-- The enums that are collected from lists of values with names. -/
def collect (names : List (List String × String)) (enums : List EnumDefinition) :
    List EnumDefinition :=
  names.foldl (fun enums (values, name) => addValues name values enums) enums

section Collect

variable {names : List (List String × String)} {enums : List EnumDefinition} {name value : String}

/-- What is collected are the values of each name, and what was there before. -/
theorem lists_collect :
    Lists (collect names enums) name value ↔
      (∃ values, (values, name) ∈ names ∧ value ∈ values) ∨ Lists enums name value := by
  induction names generalizing enums with
  | nil =>
    show Lists enums name value ↔ _
    simp
  | cons pair rest ih =>
    obtain ⟨values, given⟩ := pair
    show Lists (collect rest (addValues given values enums)) name value ↔ _
    rw [ih, lists_addValues]
    constructor
    · rintro (⟨found, hmem, hvalue⟩ | ⟨rfl, hvalue⟩ | h)
      · exact .inl ⟨found, List.mem_cons_of_mem _ hmem, hvalue⟩
      · exact .inl ⟨values, List.mem_cons_self, hvalue⟩
      · exact .inr h
    · rintro (⟨found, hmem, hvalue⟩ | h)
      · rcases List.mem_cons.1 hmem with heq | hmem
        · rw [Prod.mk.injEq] at heq
          obtain ⟨rfl, rfl⟩ := heq
          exact .inr (.inl ⟨rfl, hvalue⟩)
        · exact .inl ⟨found, hmem, hvalue⟩
      · exact .inr (.inr h)

theorem mem_names_collect :
    name ∈ (collect names enums).map (·.name) ↔
      name ∈ names.map (·.2) ∨ name ∈ enums.map (·.name) := by
  induction names generalizing enums with
  | nil =>
    show name ∈ enums.map (·.name) ↔ _
    simp
  | cons pair rest ih =>
    show name ∈ (collect rest (addValues pair.2 pair.1 enums)).map (·.name) ↔ _
    rw [ih, mem_names_addValues, List.map_cons, List.mem_cons, or_left_comm, or_assoc]

theorem nodup_collect (h : (enums.map (·.name)).Nodup) :
    ((collect names enums).map (·.name)).Nodup := by
  induction names generalizing enums with
  | nil => exact h
  | cons pair rest ih =>
    show ((collect rest (addValues pair.2 pair.1 enums)).map (·.name)).Nodup
    exact ih (nodup_addValues h)

end Collect

theorem lists_map_normalize {enums : List EnumDefinition} {name value : String} :
    Lists (enums.map normalize) name value ↔ Lists enums name value := by
  have hvalues : ∀ definition, value ∈ (normalize definition).values ↔ value ∈ definition.values :=
    fun _ => mem_dropRepeats.trans mem_sortTexts
  constructor
  · rintro ⟨normalized, hmem, hname, hvalue⟩
    obtain ⟨definition, hfound, rfl⟩ := List.mem_map.1 hmem
    exact ⟨definition, hfound, hname, (hvalues definition).1 hvalue⟩
  · rintro ⟨definition, hmem, hname, hvalue⟩
    exact ⟨normalize definition, List.mem_map_of_mem hmem, hname, (hvalues definition).2 hvalue⟩

theorem names_map_normalize (enums : List EnumDefinition) :
    (enums.map normalize).map (·.name) = enums.map (·.name) := by
  rw [List.map_map]
  rfl

/-! ## The names of lists of values -/

/-- Each list of values of the columns has one name, which is that of a column with these values. -/
structure NamedBy (columns : List Column) (names : List (List String × String)) : Prop where
  nodup : (names.map (·.1)).Nodup
  named : ∀ column ∈ columns, valueKey column ∈ names.map (·.1)
  justified : ∀ pair ∈ names, ∃ column ∈ columns, (valueKey column, enumName column) = pair

theorem namedBy_nil : NamedBy [] [] where
  nodup := List.nodup_nil
  named _ hmem := absurd hmem List.not_mem_nil
  justified _ hmem := absurd hmem List.not_mem_nil

/-- One more column keeps this up. -/
theorem NamedBy.addName {columns : List Column} {names : List (List String × String)}
    (h : NamedBy columns names) (column : Column) :
    NamedBy (columns ++ [column]) (addName names column) := by
  have hany : names.any (·.1 == valueKey column) = true ↔ valueKey column ∈ names.map (·.1) := by
    rw [List.any_eq_true, List.mem_map]
    simp only [beq_iff_eq]
  unfold EnumCatalog.addName
  split
  · rename_i hseen
    refine ⟨h.nodup, fun other hmem => ?_, fun pair hmem => ?_⟩
    · rcases List.mem_append.1 hmem with hmem | hmem
      · exact h.named other hmem
      · rw [List.mem_singleton.1 hmem]
        exact hany.1 hseen
    · obtain ⟨other, hother, heq⟩ := h.justified pair hmem
      exact ⟨other, List.mem_append_left _ hother, heq⟩
  · rename_i hnew
    have hfresh : valueKey column ∉ names.map (·.1) := fun hmem => hnew (hany.2 hmem)
    refine ⟨?_, fun other hmem => ?_, fun pair hmem => ?_⟩
    · rw [List.map_append, List.nodup_append]
      refine ⟨h.nodup, List.nodup_cons.2 ⟨List.not_mem_nil, .nil⟩, ?_⟩
      rintro key hkey other hother rfl
      rw [List.map_singleton, List.mem_singleton] at hother
      subst hother
      exact hfresh hkey
    · rw [List.map_append, List.mem_append]
      rcases List.mem_append.1 hmem with hmem | hmem
      · exact .inl (h.named other hmem)
      · rw [List.mem_singleton.1 hmem]
        exact .inr List.mem_cons_self
    · rcases List.mem_append.1 hmem with hmem | hmem
      · obtain ⟨other, hother, heq⟩ := h.justified pair hmem
        exact ⟨other, List.mem_append_left _ hother, heq⟩
      · exact ⟨column, List.mem_append_right _ List.mem_cons_self, (List.mem_singleton.1 hmem).symm⟩

theorem NamedBy.foldl {seen : List Column} {names : List (List String × String)}
    (h : NamedBy seen names) (columns : List Column) :
    NamedBy (seen ++ columns) (columns.foldl EnumCatalog.addName names) := by
  induction columns generalizing seen names with
  | nil =>
    rw [List.append_nil]
    exact h
  | cons column rest ih =>
    rw [List.append_cons]
    exact ih (h.addName column)

/-! ## The catalog of some tables -/

/-- The columns of the tables that list their values. -/
def enumColumns (tables : List Table) : List Column :=
  tables.flatMap Table.enumColumns

theorem mem_enumColumns {tables : List Table} {table : Table} {column : Column}
    (ht : table ∈ tables) (hc : column ∈ table.enumColumns) : column ∈ enumColumns tables :=
  List.mem_flatMap.2 ⟨table, ht, hc⟩

theorem namedBy_ofTables (tables : List Table) :
    NamedBy (enumColumns tables) (ofTables tables).names :=
  namedBy_nil.foldl (enumColumns tables)

theorem enums_ofTables (tables : List Table) :
    (ofTables tables).enums = (collect (ofTables tables).names []).map normalize :=
  rfl

/-- The name that a list of values has in the catalog is the one that its columns are typed by. -/
theorem typeName_of_mem {catalog : EnumCatalog} {column : Column} {name : String}
    (hnodup : (catalog.names.map (·.1)).Nodup) (h : (valueKey column, name) ∈ catalog.names) :
    catalog.typeName column = name := by
  have hlookup : catalog.names.lookup (valueKey column) = some name := by
    obtain ⟨front, back, heq⟩ := List.append_of_mem h
    refine List.lookup_eq_some_iff.2 ⟨front, back, heq, fun pair hmem => ?_⟩
    rw [heq, List.map_append, List.nodup_append] at hnodup
    rw [bne_iff_ne]
    intro hkey
    exact hnodup.2.2 pair.1 (List.mem_map_of_mem hmem) (valueKey column) (by simp) hkey.symm
  unfold typeName
  rw [hlookup]
  rfl

section OfTables

variable {tables : List Table} {column : Column}

/-- The values of a column go by the name that the column is typed by. -/
theorem mem_names_of_column (h : column ∈ enumColumns tables) :
    (valueKey column, (ofTables tables).typeName column) ∈ (ofTables tables).names := by
  have hnamed := namedBy_ofTables tables
  obtain ⟨⟨key, name⟩, hmem, hkey⟩ := List.mem_map.1 (hnamed.named column h)
  rw [show key = valueKey column from hkey] at hmem
  rwa [typeName_of_mem hnamed.nodup hmem]

theorem nodup_enums (tables : List Table) : ((ofTables tables).enums.map (·.name)).Nodup := by
  rw [enums_ofTables, names_map_normalize]
  exact nodup_collect List.nodup_nil

/-- A column is typed by an enum of the catalog. -/
theorem typeName_mem_enums (h : column ∈ enumColumns tables) :
    (ofTables tables).typeName column ∈ (ofTables tables).enums.map (·.name) := by
  rw [enums_ofTables, names_map_normalize]
  exact mem_names_collect.2 (.inl (List.mem_map_of_mem (mem_names_of_column h)))

/-- An enum has the values of the columns that are typed by it, and no others. -/
theorem lists_ofTables {name value : String} :
    Lists (ofTables tables).enums name value ↔
      ∃ column ∈ enumColumns tables, (ofTables tables).typeName column = name ∧
        value ∈ column.values.getD [] := by
  have hnamed := namedBy_ofTables tables
  rw [enums_ofTables, lists_map_normalize, lists_collect]
  constructor
  · rintro (⟨values, hmem, hvalue⟩ | h)
    · obtain ⟨column, hcolumn, heq⟩ := hnamed.justified _ hmem
      rw [Prod.mk.injEq] at heq
      obtain ⟨rfl, rfl⟩ := heq
      exact ⟨column, hcolumn, typeName_of_mem hnamed.nodup hmem, mem_valueKey.1 hvalue⟩
    · exact absurd h not_lists_nil
  · rintro ⟨column, hcolumn, rfl, hvalue⟩
    exact .inl ⟨valueKey column, mem_names_of_column hcolumn, mem_valueKey.2 hvalue⟩

end OfTables

theorem eq_of_name_eq {enums : List EnumDefinition} {one other : EnumDefinition}
    (hnodup : (enums.map (·.name)).Nodup) (h1 : one ∈ enums) (h2 : other ∈ enums)
    (hname : one.name = other.name) : one = other := by
  induction enums with
  | nil => exact absurd h1 List.not_mem_nil
  | cons first rest ih =>
    obtain ⟨hfirst, hrest⟩ := List.nodup_cons.1 hnodup
    have hfresh : ∀ definition ∈ rest, first.name ≠ definition.name := by
      intro definition hmem heq
      exact hfirst (List.mem_map.2 ⟨definition, hmem, heq.symm⟩)
    rcases List.mem_cons.1 h1 with heq1 | h1 <;> rcases List.mem_cons.1 h2 with heq2 | h2
    · rw [heq1, heq2]
    · exact absurd (heq1 ▸ hname) (hfresh other h2)
    · exact absurd (heq2 ▸ hname).symm (hfresh one h1)
    · exact ih hrest h1 h2

/-- The catalog of some tables is canonical and complete. Its enums have different names, and each
has its values in strictly ascending order. Of the enum columns of the tables, each is typed by
exactly one enum of the catalog, and this one has all values of the column; and every value of an
enum is one of a column that is typed by it. -/
theorem ofTables_canonical (tables : List Table) :
    ((ofTables tables).enums.map (·.name)).Nodup ∧
      (∀ definition ∈ (ofTables tables).enums, definition.values.Pairwise (· < ·)) ∧
      (∀ table ∈ tables, ∀ column ∈ table.enumColumns,
        ∃ definition ∈ (ofTables tables).enums,
          definition.name = (ofTables tables).typeName column ∧
          (∀ value ∈ column.values.getD [], value ∈ definition.values) ∧
          ∀ other ∈ (ofTables tables).enums,
            other.name = (ofTables tables).typeName column → other = definition) ∧
      (∀ definition ∈ (ofTables tables).enums, ∀ value ∈ definition.values,
        ∃ table ∈ tables, ∃ column ∈ table.enumColumns,
          (ofTables tables).typeName column = definition.name ∧
          value ∈ column.values.getD []) := by
  have hunique : ∀ {one other : EnumDefinition}, one ∈ (ofTables tables).enums →
      other ∈ (ofTables tables).enums → one.name = other.name → one = other :=
    eq_of_name_eq (nodup_enums tables)
  refine ⟨nodup_enums tables, ?_, ?_, ?_⟩
  · intro definition hmem
    rw [enums_ofTables] at hmem
    obtain ⟨collected, -, rfl⟩ := List.mem_map.1 hmem
    exact pairwise_dropRepeats (pairwise_sortTexts _)
  · intro table ht column hc
    have hcolumn := mem_enumColumns ht hc
    obtain ⟨definition, hmem, hname⟩ := List.mem_map.1 (typeName_mem_enums hcolumn)
    refine ⟨definition, hmem, hname, fun value hvalue => ?_, fun other hother heq => ?_⟩
    · obtain ⟨found, hfound, hsame, hlisted⟩ := lists_ofTables.2 ⟨column, hcolumn, rfl, hvalue⟩
      rwa [← hunique hfound hmem (hsame.trans hname.symm)]
    · exact hunique hother hmem (heq.trans hname.symm)
  · intro definition hmem value hvalue
    obtain ⟨column, hcolumn, htype, hlisted⟩ := lists_ofTables.1 ⟨definition, hmem, rfl, hvalue⟩
    obtain ⟨table, ht, hc⟩ := List.mem_flatMap.1 hcolumn
    exact ⟨table, ht, column, hc, htype, hlisted⟩

end EnumCatalog

end TableScribe.Code
