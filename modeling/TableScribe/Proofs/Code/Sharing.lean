import Mathlib.Data.List.Nodup
import TableScribe.Proofs.Code.Imports
import TableScribe.Proofs.Lookup

/-!
# What enum columns and values share

Columns with the same values share an enum, and the values of an enum go by members in capitals with
underscores for spaces. Both are decided by texts that are made from the values, and so by a little
more or a little less than the values.

1. Columns are compared by their sorted lists of values, in which repeated values are left. So a
   column is typed by the name of its `leader`, the first column that has the same values equally
   often (`typeName_eq`), and `typeName_eq_iff` says which columns share an enum.
2. Different values may go by one member, namely if they are spelled alike (`enumMember_eq_iff`).
   `memberNames_nodup_iff` says when the members of an enum, and those shown as defaults, are
   ambiguous. The names are those that the text of the enum declares
   (`EnumDefinition.memberNames_eq_of_render`).
-/

namespace TableScribe.Code

open EnumCatalog (enumColumns)

/-! ## Columns that share an enum -/

/-- The columns list the same values, in any order and however often. -/
def SameValues (one other : Column) : Prop :=
  ∀ value, value ∈ one.values.getD [] ↔ value ∈ other.values.getD []

/-- The first enum column of the tables that lists the values of this one, each as often, in any
order. -/
def leader (tables : List Table) (column : Column) : Column :=
  ((enumColumns tables).find? fun c =>
    decide ((column.values.getD []).Perm (c.values.getD []))).getD column

theorem valueKey_eq_iff {one other : Column} :
    valueKey one = valueKey other ↔ (one.values.getD []).Perm (other.values.getD []) := by
  constructor
  · intro h
    calc (one.values.getD []).Perm (valueKey one) := (sortTexts_perm _).symm
      List.Perm _ (other.values.getD []) := h ▸ sortTexts_perm _
  · intro h
    refine List.Perm.eq_of_pairwise (fun a b _ _ => String.le_antisymm) (pairwise_sortTexts _)
      (pairwise_sortTexts _) ?_
    exact (sortTexts_perm _).trans (h.trans (sortTexts_perm _).symm)

/-- One more column names its values only if they have no name. -/
theorem lookup_addName (names : List (List String × String)) (column : Column) (key : List String) :
    (EnumCatalog.addName names column).lookup key =
      (names.lookup key).or (if key = valueKey column then some (enumName column) else none) := by
  unfold EnumCatalog.addName
  split
  · rename_i hseen
    by_cases hkey : key = valueKey column
    · obtain ⟨pair, hmem, hpair⟩ := List.any_eq_true.1 hseen
      have hsome : (names.lookup key).isSome = true :=
        List.lookup_isSome_iff.2 ⟨pair, hmem, by rw [hkey, eq_of_beq hpair]; exact beq_self_eq_true _⟩
      obtain ⟨name, hname⟩ := Option.isSome_iff_exists.1 hsome
      rw [hname, Option.some_or]
    · rw [if_neg hkey, Option.or_none]
  · rw [List.lookup_append, lookup_cons_eq_if, List.lookup_nil]

/-- A list of values is called by the first column that has it. -/
theorem lookup_foldl_addName (columns : List Column) (names : List (List String × String))
    (key : List String) :
    (columns.foldl EnumCatalog.addName names).lookup key =
      (names.lookup key).or ((columns.find? fun c => decide (key = valueKey c)).map enumName) := by
  induction columns generalizing names with
  | nil => simp
  | cons column rest ih =>
    rw [List.foldl_cons, ih, lookup_addName, Option.or_assoc, List.find?_cons]
    by_cases hkey : key = valueKey column
    · simp [hkey]
    · simp [hkey]

section Leader

variable {tables : List Table} {one other column : Column}

/-- A column is typed by the enum that its leader asks for. -/
theorem typeName_eq (tables : List Table) (column : Column) :
    (EnumCatalog.ofTables tables).typeName column = enumName (leader tables column) := by
  have hlookup := lookup_foldl_addName (enumColumns tables) [] (valueKey column)
  have hsame : (fun c => decide (valueKey column = valueKey c)) =
      fun c => decide ((column.values.getD []).Perm (c.values.getD [])) :=
    funext fun c => decide_eq_decide.2 valueKey_eq_iff
  rw [List.lookup_nil, Option.none_or, hsame] at hlookup
  unfold EnumCatalog.typeName leader
  rw [show (EnumCatalog.ofTables tables).names = (enumColumns tables).foldl EnumCatalog.addName []
    from rfl, hlookup]
  cases (enumColumns tables).find? _ <;> rfl

/-- A column of the tables has a leader among them. -/
theorem find?_leader (h : column ∈ enumColumns tables) :
    ((enumColumns tables).find? fun c =>
      decide ((column.values.getD []).Perm (c.values.getD []))) = some (leader tables column) := by
  unfold leader
  cases hfind : (enumColumns tables).find? _ with
  | none =>
    have hnone := List.find?_eq_none.1 hfind column h
    exact absurd (decide_eq_true (List.Perm.refl _)) hnone
  | some first => rfl

theorem leader_eq_iff (h1 : one ∈ enumColumns tables) (h2 : other ∈ enumColumns tables) :
    leader tables one = leader tables other ↔
      (one.values.getD []).Perm (other.values.getD []) := by
  have hone := find?_leader h1
  have hother := find?_leader h2
  constructor
  · intro h
    rw [h] at hone
    have hperm1 := List.find?_some hone
    have hperm2 := List.find?_some hother
    rw [decide_eq_true_eq] at hperm1 hperm2
    exact hperm1.trans hperm2.symm
  · intro h
    have hsame : (fun c : Column => decide ((one.values.getD []).Perm (c.values.getD []))) =
        fun c => decide ((other.values.getD []).Perm (c.values.getD [])) :=
      funext fun c => decide_eq_decide.2 ⟨h.symm.trans, h.trans⟩
    rw [hsame, hother] at hone
    exact (Option.some.inj hone).symm

/-- Two enum columns share an enum exactly if their leaders ask for the same name. They have one
leader exactly if they list the same values equally often; so columns that list the same values and
none of them twice share an enum. -/
theorem typeName_eq_iff (h1 : one ∈ enumColumns tables) (h2 : other ∈ enumColumns tables) :
    ((EnumCatalog.ofTables tables).typeName one = (EnumCatalog.ofTables tables).typeName other ↔
        enumName (leader tables one) = enumName (leader tables other)) ∧
      (leader tables one = leader tables other ↔
        (one.values.getD []).Perm (other.values.getD [])) ∧
      (SameValues one other → (one.values.getD []).Nodup → (other.values.getD []).Nodup →
        (EnumCatalog.ofTables tables).typeName one =
          (EnumCatalog.ofTables tables).typeName other) := by
  refine ⟨?_, leader_eq_iff h1 h2, fun hsame hone hother => ?_⟩
  · rw [typeName_eq, typeName_eq]
  · have hperm := (List.perm_ext_iff_of_nodup hone hother).2 hsame
    rw [typeName_eq, typeName_eq, (leader_eq_iff h1 h2).2 hperm]

end Leader

/-- The second column called `s` in some case leads the columns that list `x` and `y` once, and so
these share an enum with the first, which lists `x` twice. -/
theorem typeName_eq_iff_repeated :
    let twice : Column := ⟨"s", .enum, none, none, some ["x", "x", "y"], false, none⟩
    let first : Column := ⟨"S", .enum, none, none, some ["y", "x"], false, none⟩
    let once : Column := ⟨"t", .enum, none, none, some ["x", "y"], false, none⟩
    let tables : List Table := [⟨"a", [twice], none⟩, ⟨"b", [first, once], none⟩]
    twice ∈ enumColumns tables ∧ once ∈ enumColumns tables ∧
      leader tables twice = twice ∧ leader tables once = first ∧
      (EnumCatalog.ofTables tables).typeName twice = (EnumCatalog.ofTables tables).typeName once := by
  intro twice first once tables
  have h1 : twice ∈ enumColumns tables := by decide +kernel
  have h2 : once ∈ enumColumns tables := by decide +kernel
  refine ⟨h1, h2, by decide +kernel, by decide +kernel, ?_⟩
  exact (typeName_eq_iff h1 h2).1.2 (by decide +kernel)

/-- Not all columns that list the same values share an enum: a value may be repeated in one. -/
theorem not_forall_typeName_eq :
    ¬ ∀ tables, ∀ one ∈ enumColumns tables, ∀ other ∈ enumColumns tables, SameValues one other →
      (EnumCatalog.ofTables tables).typeName one =
        (EnumCatalog.ofTables tables).typeName other := by
  intro h
  have heq := h
    [⟨"a", [⟨"s", .enum, none, none, some ["x", "x", "y"], false, none⟩], none⟩,
      ⟨"b", [⟨"t", .enum, none, none, some ["x", "y"], false, none⟩], none⟩]
    ⟨"s", .enum, none, none, some ["x", "x", "y"], false, none⟩ (by decide +kernel)
    ⟨"t", .enum, none, none, some ["x", "y"], false, none⟩ (by decide +kernel)
    (by intro value; simp)
  exact absurd heq (by decide +kernel)

/-! ## Values that share a member -/

/-- The values read the same in capitals, but perhaps for spaces and underscores. -/
def SpelledAlike (one other : String) : Prop :=
  List.Forall₂ (fun c d => c = d ∨ (c = ' ' ∨ c = '_') ∧ (d = ' ' ∨ d = '_'))
    (Text.upperText one.toList) (Text.upperText other.toList)

theorem enumMember_eq_iff {one other : String} :
    enumMember one = enumMember other ↔ SpelledAlike one other := by
  have hletter : ∀ c d : Char, (if c = ' ' then '_' else c) = (if d = ' ' then '_' else d) ↔
      c = d ∨ (c = ' ' ∨ c = '_') ∧ (d = ' ' ∨ d = '_') := by
    intro c d
    by_cases hc : c = ' ' <;> by_cases hd : d = ' ' <;> grind
  unfold enumMember SpelledAlike
  rw [String.ofList_inj, ← List.forall₂_eq_eq_eq, List.forall₂_map_left_iff,
    List.forall₂_map_right_iff]
  simp only [hletter]

/-- The names of the members that an enum declares, in order. -/
def EnumDefinition.memberNames (definition : EnumDefinition) : List String :=
  definition.values.map enumMember

/-- However the text of the declaration is read as the lines of members, each with a name up to the
space in front of the equals sign, these are the names. -/
theorem EnumDefinition.memberNames_eq_of_render {definition : EnumDefinition}
    {members : List (String × String)} (hspace : ∀ member ∈ members, ' ' ∉ member.1.toList)
    (h : definition.render = enumText definition.name members) :
    members.map (·.1) = definition.memberNames := by
  rw [(definition.render_eq_enumText_iff hspace).1 h, List.map_map]
  rfl

/-- The enum declares one member of that name, and declares it for the value. -/
def EnumDefinition.StandsOnlyFor (definition : EnumDefinition) (member value : String) : Prop :=
  ∀ literal, literal ∈ definition.values ∧ enumMember literal = member ↔ literal = value

/-- The value is one of a column that is typed by the enum of that name. -/
def Offers (tables : List Table) (name value : String) : Prop :=
  ∃ column ∈ enumColumns tables, (EnumCatalog.ofTables tables).typeName column = name ∧
    value ∈ column.values.getD []

section Members

variable {tables : List Table} {definition : EnumDefinition}

theorem mem_values_iff (h : definition ∈ (EnumCatalog.ofTables tables).enums) {value : String} :
    value ∈ definition.values ↔ Offers tables definition.name value := by
  refine Iff.trans ?_ EnumCatalog.lists_ofTables
  refine ⟨fun hvalue => ⟨definition, h, rfl, hvalue⟩, ?_⟩
  rintro ⟨found, hfound, hname, hvalue⟩
  rwa [← EnumCatalog.eq_of_name_eq (EnumCatalog.nodup_enums tables) hfound h hname]

/-- Each value of an enum is listed once, so two members of a name are for different values. -/
theorem nodup_memberNames_iff (h : definition ∈ (EnumCatalog.ofTables tables).enums) :
    definition.memberNames.Nodup ↔
      ∀ one other, Offers tables definition.name one → Offers tables definition.name other →
        SpelledAlike one other → one = other := by
  have hnodup : definition.values.Nodup := by
    rw [EnumCatalog.enums_ofTables] at h
    obtain ⟨collected, -, rfl⟩ := List.mem_map.1 h
    exact (pairwise_dropRepeats (pairwise_sortTexts _)).imp fun hlt => Std.ne_of_lt hlt
  unfold EnumDefinition.memberNames
  rw [List.nodup_map_iff_inj_on hnodup]
  simp only [mem_values_iff h, enumMember_eq_iff]
  exact ⟨fun hall one other hone hother => hall one hone other hother,
    fun hall one hone other hother => hall one other hone hother⟩

theorem standsOnlyFor_iff (h : definition ∈ (EnumCatalog.ofTables tables).enums) {value : String} :
    definition.StandsOnlyFor (enumMember value) value ↔
      Offers tables definition.name value ∧
        ∀ other, Offers tables definition.name other → SpelledAlike other value →
          other = value := by
  unfold EnumDefinition.StandsOnlyFor
  simp only [mem_values_iff h, enumMember_eq_iff]
  constructor
  · intro hall
    exact ⟨((hall value).2 rfl).1, fun other hother halike => (hall other).1 ⟨hother, halike⟩⟩
  · rintro ⟨hvalue, hall⟩ literal
    refine ⟨fun hliteral => hall literal hliteral.1 hliteral.2, ?_⟩
    rintro rfl
    exact ⟨hvalue, enumMember_eq_iff.1 rfl⟩

/-- An entry that is typed by an enum describes an enum column. -/
theorem exists_column_of_entry (h : definition ∈ (EnumCatalog.ofTables tables).enums)
    {relations : List Relation} {path : String} {file : ClassFile}
    (hfile : (path, file) ∈ classFiles (.ofTables tables) tables relations) {entry : ColumnEntry}
    (hentry : entry ∈ file.entries) (htype : entry.type = definition.name) :
    ∃ column ∈ enumColumns tables,
      (EnumCatalog.ofTables tables).typeName column = definition.name ∧
        entry = .ofColumn (.ofTables tables) column := by
  obtain ⟨table, parent, hclass⟩ := (putInPlace_of_mem hfile).classOf
  rw [hclass.entries_eq] at hentry
  obtain ⟨column, hcolumn, rfl⟩ := List.mem_map.1 hentry
  obtain ⟨henum, hcalled⟩ := (valueType_eq_iff (List.mem_map_of_mem h)).1 htype
  exact ⟨column, EnumCatalog.mem_enumColumns hclass.mem_tables
    (Table.mem_enumColumns.2 ⟨hcolumn, henum⟩), hcalled, rfl⟩

/-- The members of an enum have different names exactly if no two values of the columns that it types
are spelled alike. A default that is shown for such a column stands for the value that it was made
from, and for no other, exactly if some such column has this value and none has another one that is
spelled alike. In the class files, these are all the entries that the enum types. -/
theorem memberNames_nodup_iff (h : definition ∈ (EnumCatalog.ofTables tables).enums) :
    (definition.memberNames.Nodup ↔
        ∀ one other, Offers tables definition.name one → Offers tables definition.name other →
          SpelledAlike one other → one = other) ∧
      (∀ column ∈ enumColumns tables,
        (EnumCatalog.ofTables tables).typeName column = definition.name →
        ∀ value, column.default.or (column.values.getD []).head? = some value →
          (ColumnEntry.ofColumn (.ofTables tables) column).defaultExpression =
              definition.name ++ "." ++ enumMember value ∧
            (definition.StandsOnlyFor (enumMember value) value ↔
              Offers tables definition.name value ∧
                ∀ other, Offers tables definition.name other → SpelledAlike other value →
                  other = value)) ∧
      ∀ relations path file, (path, file) ∈ classFiles (.ofTables tables) tables relations →
        ∀ entry ∈ file.entries, entry.type = definition.name →
          ∃ column ∈ enumColumns tables,
            (EnumCatalog.ofTables tables).typeName column = definition.name ∧
              entry = .ofColumn (.ofTables tables) column := by
  refine ⟨nodup_memberNames_iff h, fun column hcolumn hcalled value hvalue => ?_,
    fun relations path file hfile entry => exists_column_of_entry h hfile⟩
  obtain ⟨table, -, hlisted⟩ := List.mem_flatMap.1 hcolumn
  refine ⟨?_, standsOnlyFor_iff h⟩
  rw [← hcalled]
  exact defaultExpression_of_enum (Table.mem_enumColumns.1 hlisted).2 hvalue

end Members

/-- Two tables have values that are spelled alike, and one of these is shown as a default. The other
default stands for its value only. -/
theorem memberNames_nodup_iff_merged :
    let one : Column := ⟨"s", .enum, none, some "done", some ["in review", "done"], false, none⟩
    let other : Column := ⟨"s", .enum, none, none, some ["IN_review", "open"], false, none⟩
    let tables : List Table := [⟨"a", [one], none⟩, ⟨"b", [other], none⟩]
    let definition : EnumDefinition := ⟨"S", ["IN_review", "done", "in review", "open"]⟩
    definition ∈ (EnumCatalog.ofTables tables).enums ∧ ¬ definition.memberNames.Nodup ∧
      (ColumnEntry.ofColumn (.ofTables tables) one).defaultExpression = "S.DONE" ∧
      definition.StandsOnlyFor "DONE" "done" ∧
      (ColumnEntry.ofColumn (.ofTables tables) other).defaultExpression = "S.IN_REVIEW" ∧
      ¬ definition.StandsOnlyFor "IN_REVIEW" "IN_review" := by
  intro one other tables definition
  have h : definition ∈ (EnumCatalog.ofTables tables).enums := by decide +kernel
  have hone : one ∈ enumColumns tables := by decide +kernel
  have hother : other ∈ enumColumns tables := by decide +kernel
  have hcalled : ∀ column ∈ [one, other],
      (EnumCatalog.ofTables tables).typeName column = "S" := by decide +kernel
  obtain ⟨hnodup, hdefault, -⟩ := memberNames_nodup_iff h
  obtain ⟨htext1, honly1⟩ := hdefault one hone (hcalled one (by simp)) "done" rfl
  obtain ⟨htext2, honly2⟩ := hdefault other hother (hcalled other (by simp)) "IN_review" rfl
  have hdone : Offers tables "S" "done" := ⟨one, hone, hcalled one (by simp), by decide⟩
  have hspaced : Offers tables "S" "in review" := ⟨one, hone, hcalled one (by simp), by decide⟩
  have hscored : Offers tables "S" "IN_review" := ⟨other, hother, hcalled other (by simp), by decide⟩
  have halike : SpelledAlike "in review" "IN_review" := enumMember_eq_iff.1 (by decide +kernel)
  refine ⟨h, fun hall => ?_, htext1.trans (by decide +kernel), ?_,
    htext2.trans (by decide +kernel), fun hall => ?_⟩
  · exact absurd (hnodup.1 hall _ _ hspaced hscored halike) (by decide)
  · rw [show "DONE" = enumMember "done" by decide +kernel]
    refine honly1.2 ⟨hdone, fun value hvalue hspelled => ?_⟩
    have hother : ∀ value ∈ definition.values, enumMember value = enumMember "done" →
        value = "done" := by decide +kernel
    exact hother value ((mem_values_iff h).2 hvalue) (enumMember_eq_iff.2 hspelled)
  · rw [show "IN_REVIEW" = enumMember "IN_review" by decide +kernel] at hall
    exact absurd ((honly2.1 hall).2 _ hspaced halike) (by decide)

/-- The members of an enum need not have different names: values differ that are spelled alike. -/
theorem not_forall_memberNames_nodup :
    ¬ ∀ tables, ∀ definition ∈ (EnumCatalog.ofTables tables).enums,
      definition.memberNames.Nodup := by
  intro h
  have hnodup := h
    [⟨"t", [⟨"s", .enum, none, some "in_review", some ["in review", "in_review"], false, none⟩],
      none⟩] ⟨"S", ["in review", "in_review"]⟩ (by decide +kernel)
  exact absurd hnodup (by decide +kernel)

end TableScribe.Code
