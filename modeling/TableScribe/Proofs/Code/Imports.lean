import TableScribe.Proofs.Code.References
import TableScribe.Proofs.Text.CaseImages

/-!
# What class files use and what they import

A class file uses the enums that type its properties, the parameters of its constructor and the
entries of its metadata. It imports the enums of its own table, and the parameters that the
constructor hands to the parent are typed by the columns of the parent. So what is used and not
imported is known exactly (`uses_not_imported_iff`): it is what only the parent asks for.

1. The name of an enum is in capitals, so it is none of the types of other columns
   (`valueType_eq_iff`).
2. `uses_iff` reads off the three places where a class file uses an enum.

What is imported and what is used are parts of the text: `ClassFile.render_eq` shows the import of
the enums, the types of the properties and of the parameters, and those of the entries.
-/

namespace TableScribe.Code

open Text (Shift upper upperSequences upperShifts upperText)

/-! ## Names in capitals -/

/-- The code point of a small ASCII letter. -/
def IsSmall (point : Nat) : Prop :=
  97 ≤ point ∧ point ≤ 122

instance (point : Nat) : Decidable (IsSmall point) :=
  inferInstanceAs (Decidable (_ ∧ _))

theorem not_isSmall_ofNat {point : Nat} (h : ¬ IsSmall point) :
    ¬ IsSmall (Char.ofNat point).toNat := by
  rcases Text.toNat_ofNat_cases point with heq | heq
  · rwa [heq]
  · rw [heq]
    decide

/-- No shift to a capital ends at a small letter. -/
theorem upperShifts_avoid :
    ∀ s ∈ upperShifts, s.last + s.distance < 97 ∨ 122 < s.first + s.distance := by
  decide +kernel

theorem upperSequences_avoid : ∀ pair ∈ upperSequences, ∀ point ∈ pair.2, ¬ IsSmall point := by
  decide +kernel

/-- Every small letter is shifted. -/
theorem upperShifts_cover :
    ∀ letter < 26, (upperShifts.find? (·.covers (97 + letter))).isSome = true := by
  decide +kernel

theorem not_isSmall_of_mem_upper {c capital : Char} (h : capital ∈ upper c) :
    ¬ IsSmall capital.toNat := by
  unfold upper at h
  rcases Text.mapCase_eq upperShifts upperSequences c with
    ⟨s, hs, hcovers, heq⟩ | ⟨points, hpair, heq⟩ | ⟨hnone, heq⟩
  · simp only [Shift.covers, Bool.and_eq_true, decide_eq_true_eq] at hcovers
    have havoid := upperShifts_avoid s hs
    rw [heq] at h
    rw [List.mem_singleton.1 h]
    refine not_isSmall_ofNat ?_
    unfold IsSmall
    omega
  · rw [heq] at h
    obtain ⟨point, hmem, rfl⟩ := List.mem_map.1 h
    exact not_isSmall_ofNat (upperSequences_avoid _ hpair point hmem)
  · rw [heq] at h
    rw [List.mem_singleton.1 h]
    rintro ⟨hlow, hhigh⟩
    have hsome := upperShifts_cover (c.toNat - 97) (by omega)
    rw [show 97 + (c.toNat - 97) = c.toNat by omega, hnone] at hsome
    exact absurd hsome (by decide)

theorem not_isSmall_of_mem_enumName {column : Column} {c : Char}
    (h : c ∈ (enumName column).toList) : ¬ IsSmall c.toNat := by
  unfold enumName at h
  rw [String.toList_ofList] at h
  obtain ⟨letter, -, hc⟩ := List.mem_flatMap.1 h
  exact not_isSmall_of_mem_upper hc

/-- Every enum is called by the name of a column in capitals. -/
theorem EnumCatalog.exists_enumName {tables : List Table} {name : String}
    (h : name ∈ (ofTables tables).enums.map (·.name)) : ∃ column, enumName column = name := by
  rw [enums_ofTables, names_map_normalize, mem_names_collect] at h
  rcases h with h | h
  · obtain ⟨pair, hmem, rfl⟩ := List.mem_map.1 h
    obtain ⟨column, -, heq⟩ := (namedBy_ofTables tables).justified pair hmem
    exact ⟨column, congrArg Prod.snd heq⟩
  · exact absurd h List.not_mem_nil

/-! ## What a file uses -/

/-- The type of a property, of a parameter or of an entry of the metadata has that name. -/
def ClassFile.Uses (file : ClassFile) (name : String) : Prop :=
  (∃ property ∈ file.properties, property.type = name) ∨
    (∃ parameter ∈ file.parameters, parameter.type = name) ∨
    ∃ entry ∈ file.entries, entry.type = name

section Uses

variable {tables : List Table} {name : String}

/-- Only the enum columns are typed by enums. -/
theorem valueType_eq_iff (hname : name ∈ (EnumCatalog.ofTables tables).enums.map (·.name))
    {column : Column} :
    valueType (.ofTables tables) column = name ↔
      column.isEnum = true ∧ (EnumCatalog.ofTables tables).typeName column = name := by
  obtain ⟨named, rfl⟩ := EnumCatalog.exists_enumName hname
  have hother : ∀ type : String, (∃ c ∈ type.toList, IsSmall c.toNat) → type ≠ enumName named := by
    rintro _ ⟨c, hmem, hsmall⟩ rfl
    exact not_isSmall_of_mem_enumName hmem hsmall
  have hstring := hother "string" ⟨'s', by decide, by decide⟩
  have hnumber := hother "number" ⟨'n', by decide, by decide⟩
  have hboolean := hother "boolean" ⟨'b', by decide, by decide⟩
  have hdate := hother "Date" ⟨'a', by decide, by decide⟩
  unfold valueType Column.isEnum
  cases column.type <;> simp [hstring, hnumber, hboolean, hdate]

variable {table : Table} {parent : Option Table} {file : ClassFile}

theorem mem_inherited {column : Column} :
    column ∈ (parent.map (·.columns)).getD [] ↔ ∃ p ∈ parent, column ∈ p.columns := by
  cases parent <;> simp

/-- A class file uses the enums of its table and those of its parent. -/
theorem uses_iff (h : ClassOf (.ofTables tables) tables table parent file)
    (hname : name ∈ (EnumCatalog.ofTables tables).enums.map (·.name)) :
    file.Uses name ↔
      (∃ column ∈ table.enumColumns, (EnumCatalog.ofTables tables).typeName column = name) ∨
        ∃ p ∈ parent, ∃ column ∈ p.enumColumns,
          (EnumCatalog.ofTables tables).typeName column = name := by
  obtain ⟨-, -, own, rfl, hown⟩ := h.exists_own
  have hlisted : ∀ {t : Table} {column : Column}, column ∈ t.columns →
      valueType (.ofTables tables) column = name →
      ∃ column ∈ t.enumColumns, (EnumCatalog.ofTables tables).typeName column = name := by
    intro t column hmem htype
    obtain ⟨henum, hcalled⟩ := (valueType_eq_iff hname).1 htype
    exact ⟨column, Table.mem_enumColumns.2 ⟨hmem, henum⟩, hcalled⟩
  constructor
  · rintro (⟨property, hmem, htype⟩ | ⟨parameter, hmem, htype⟩ | ⟨entry, hmem, htype⟩)
    · obtain ⟨column, hc, rfl⟩ := List.mem_map.1 hmem
      exact .inl (hlisted (hown hc) htype)
    · obtain ⟨column, hc, rfl⟩ := List.mem_map.1 hmem
      rcases List.mem_append.1 hc with hc | hc
      · obtain ⟨p, hp, hc⟩ := mem_inherited.1 hc
        exact .inr ⟨p, hp, hlisted hc htype⟩
      · exact .inl (hlisted (hown hc) htype)
    · obtain ⟨column, hc, rfl⟩ := List.mem_map.1 hmem
      exact .inl (hlisted hc htype)
  · rintro (⟨column, hc, hcalled⟩ | ⟨p, hp, column, hc, hcalled⟩)
    · obtain ⟨hmem, henum⟩ := Table.mem_enumColumns.1 hc
      refine .inr (.inr ⟨.ofColumn (.ofTables tables) column, List.mem_map_of_mem hmem, ?_⟩)
      exact (valueType_eq_iff hname).2 ⟨henum, hcalled⟩
    · obtain ⟨hmem, henum⟩ := Table.mem_enumColumns.1 hc
      refine .inr (.inl ⟨.ofColumn (.ofTables tables) column, List.mem_map_of_mem ?_, ?_⟩)
      · exact List.mem_append_left own (mem_inherited.2 ⟨p, hp, hmem⟩)
      · exact (valueType_eq_iff hname).2 ⟨henum, hcalled⟩

/-- The default of an enum column is a member of the enum that types it. -/
theorem defaultExpression_of_entry (h : ClassOf (.ofTables tables) tables table parent file)
    (hname : name ∈ (EnumCatalog.ofTables tables).enums.map (·.name)) {entry : ColumnEntry}
    (hmem : entry ∈ file.entries) (htype : entry.type = name) :
    entry.defaultExpression = "undefined" ∨
      ∃ value, entry.defaultExpression = name ++ "." ++ enumMember value := by
  rw [h.entries_eq] at hmem
  obtain ⟨column, -, rfl⟩ := List.mem_map.1 hmem
  obtain ⟨henum, hcalled⟩ := (valueType_eq_iff hname).1 htype
  show defaultExpression _ column = _ ∨ ∃ value, defaultExpression _ column = _
  cases hdefault : column.default.or (column.values.getD []).head? with
  | none =>
    left
    have hvalue : column.default.or (column.values.bind (·.head?)) = none := by
      rw [← hdefault]
      cases column.values <;> rfl
    unfold defaultExpression
    rw [of_decide_eq_true henum]
    dsimp only
    rw [hvalue]
  | some value =>
    right
    rw [defaultExpression_of_enum henum hdefault, hcalled]
    exact ⟨value, rfl⟩

/-- A class file imports every enum that it uses but those that type columns of its parent and none
of its own table. The members that it shows as defaults belong to enums that type its entries. -/
theorem uses_not_imported_iff {relations : List Relation} {path : String}
    (h : (path, file) ∈ classFiles (.ofTables tables) tables relations) :
    ∃ table parent, ClassOf (.ofTables tables) tables table parent file ∧
      ∀ name ∈ (EnumCatalog.ofTables tables).enums.map (·.name),
        (file.Uses name ∧ name ∉ file.imports ↔
          (∃ p ∈ parent, ∃ column ∈ p.enumColumns,
            (EnumCatalog.ofTables tables).typeName column = name) ∧
          ∀ column ∈ table.enumColumns, (EnumCatalog.ofTables tables).typeName column ≠ name) ∧
        ∀ entry ∈ file.entries, entry.type = name →
          entry.defaultExpression = "undefined" ∨
            ∃ value, entry.defaultExpression = name ++ "." ++ enumMember value := by
  obtain ⟨table, parent, hclass⟩ := (putInPlace_of_mem h).classOf
  refine ⟨table, parent, hclass, fun name hname => ⟨?_, fun entry hmem htype => ?_⟩⟩
  · rw [uses_iff hclass hname, hclass.mem_imports]
    constructor
    · rintro ⟨hown | hparent, hnone⟩
      · exact absurd hown hnone
      · exact ⟨hparent, fun column hmem hcalled => hnone ⟨column, hmem, hcalled⟩⟩
    · rintro ⟨hparent, hnone⟩
      exact ⟨.inr hparent, fun ⟨column, hmem, hcalled⟩ => hnone column hmem hcalled⟩
  · exact defaultExpression_of_entry hclass hname hmem htype

end Uses

/-- The parent of `c` has an enum column, of which the class of `c` takes the value. -/
theorem uses_not_imported_subclass :
    let tables : List Table :=
      [⟨"p", [⟨"s", .enum, none, none, some ["a"], false, none⟩], none⟩,
        ⟨"c", [⟨"n", .int, none, none, none, false, none⟩], none⟩]
    let file : ClassFile :=
      ⟨"C", some "P", [], none, [⟨"n", "number", none⟩], [⟨"s", "S"⟩, ⟨"n", "number"⟩], ["s"],
        [⟨"n", "number", "undefined", "", false⟩]⟩
    ("C.ts", file) ∈ classFiles (.ofTables tables) tables [⟨"c", "p"⟩] ∧
      "S" ∈ (EnumCatalog.ofTables tables).enums.map (·.name) ∧
      ∃ table parent, ClassOf (.ofTables tables) tables table parent file ∧
        (file.Uses "S" ∧ "S" ∉ file.imports ↔
          (∃ p ∈ parent, ∃ column ∈ p.enumColumns,
            (EnumCatalog.ofTables tables).typeName column = "S") ∧
          ∀ column ∈ table.enumColumns, (EnumCatalog.ofTables tables).typeName column ≠ "S") := by
  intro tables file
  have hmem : ("C.ts", file) ∈ classFiles (.ofTables tables) tables [⟨"c", "p"⟩] := by
    decide +kernel
  have hname : "S" ∈ (EnumCatalog.ofTables tables).enums.map (·.name) := by
    decide +kernel
  obtain ⟨table, parent, hclass, hall⟩ := uses_not_imported_iff hmem
  exact ⟨hmem, hname, table, parent, hclass, (hall "S" hname).1⟩

/-- Not every class file imports all enums that it uses. -/
theorem not_forall_uses_imported :
    ¬ ∀ (tables : List Table) (relations : List Relation) (path : String) (file : ClassFile),
      (path, file) ∈ classFiles (.ofTables tables) tables relations →
        ∀ name ∈ (EnumCatalog.ofTables tables).enums.map (·.name),
          file.Uses name → name ∈ file.imports := by
  intro h
  have himported := h
    [⟨"p", [⟨"s", .enum, none, none, some ["a"], false, none⟩], none⟩,
      ⟨"c", [⟨"n", .int, none, none, none, false, none⟩], none⟩]
    [⟨"c", "p"⟩] "C.ts"
    ⟨"C", some "P", [], none, [⟨"n", "number", none⟩], [⟨"s", "S"⟩, ⟨"n", "number"⟩], ["s"],
      [⟨"n", "number", "undefined", "", false⟩]⟩
    (by decide +kernel) "S" (by decide +kernel)
    (.inr (.inl ⟨⟨"s", "S"⟩, List.mem_cons_self, rfl⟩))
  exact absurd himported List.not_mem_nil

end TableScribe.Code
