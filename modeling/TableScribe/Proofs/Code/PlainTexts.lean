import TableScribe.Proofs.Code.Elements
import TableScribe.Proofs.Code.References
import TableScribe.Proofs.Code.Sharing
import TableScribe.Proofs.Text.CaseImages
import TableScribe.Proofs.Text.Words

/-!
# Plain texts

What a class file is made of besides the texts of its table are names, and these are plain: none of
the characters with a meaning of their own in code is in them.

1. `IsPlain`: a text without such marks. A word is plain, and stays so when it becomes the name of a
   class or of an enum, since letters have no marks for their other case.
2. `IsCode` and `IsOneLine`: texts that can stand in code, or on one line. A plain text is both.
3. `NamedPlainly`: the names that a table has in its class. They are plain if those of all tables
   are words (`namedPlainly_of_words`), since an enum may be named after the column of another one.
-/

namespace TableScribe.Code

open EnumCatalog (enumColumns)
open Text (Avoids IsGap IsOneWord)

/-! ## Texts without marks -/

/-- The characters that end a line, or begin, end or escape something in code. -/
def marks : List Char :=
  ['\n', '\r', '"', '\x27', '/', '\\', '\x60', '\u2028', '\u2029']

/-- A text without any of the marks. -/
def IsPlain (text : String) : Prop :=
  ∀ mark ∈ marks, mark ∉ text.toList

/-- The marks are in no word, have no other letter case and are the other case of nothing. -/
theorem marks_apart :
    IsGap marks ∧ marks.map Text.upper = marks.map ([·]) ∧
      Avoids marks Text.upperShifts Text.upperSequences ∧
      Avoids marks Text.lowerShifts Text.lowerSequences := by
  decide +kernel

theorem isPlain_ofList {text : List Char} (h : marks.all (!text.contains ·) = true) :
    IsPlain (String.ofList text) := by
  unfold IsPlain
  rw [String.toList_ofList]
  simpa using h

theorem isPlain_of_isOneWord {text : String} (h : IsOneWord text) : IsPlain text :=
  fun mark hmem => h.not_mem (marks_apart.1 mark hmem)

/-- Marks have no other letter case, and nothing else has a mark for one. -/
theorem mem_upperText_iff {text : List Char} {mark : Char} (h : mark ∈ marks) :
    mark ∈ Text.upperText text ↔ mark ∈ text := by
  obtain ⟨-, hself, havoids, -⟩ := marks_apart
  unfold Text.upperText
  rw [List.mem_flatMap]
  constructor
  · rintro ⟨c, hc, hmem⟩
    rwa [Text.eq_of_mem_mapCase havoids h hmem]
  · intro hmem
    exact ⟨mark, hmem, by rw [List.map_inj_left.1 hself mark h]; exact List.mem_cons_self⟩

theorem isPlain_className {table : String} (h : IsPlain table) : IsPlain (className table) := by
  intro mark hmark hmem
  obtain ⟨-, -, hupper, hlower⟩ := marks_apart
  unfold className at hmem
  cases htable : table.toList with
  | nil =>
    rw [htable] at hmem
    exact absurd hmem (by simp)
  | cons first rest =>
    rw [htable] at hmem
    dsimp only at hmem
    rw [String.toList_ofList, List.mem_append, List.mem_flatMap] at hmem
    refine h mark hmark ?_
    rw [htable]
    rcases hmem with hfirst | ⟨c, hc, hrest⟩
    · rw [Text.eq_of_mem_mapCase hupper hmark hfirst]
      exact List.mem_cons_self
    · rw [Text.eq_of_mem_mapCase hlower hmark hrest]
      exact List.mem_cons_of_mem first hc

theorem isPlain_enumName {column : Column} (h : IsPlain column.name) :
    IsPlain (enumName column) := by
  intro mark hmark
  unfold enumName
  rw [String.toList_ofList, mem_upperText_iff hmark]
  exact h mark hmark

/-! ## Code and lines -/

/-- A text that can stand in code as it is. -/
def IsCode (text : String) : Prop :=
  ∀ c ∈ text.toList, isSign c = true

/-- A text that can stand on one line. -/
def IsOneLine (text : String) : Prop :=
  ∀ c ∈ text.toList, isLineEnd c = false

theorem isCode_ofList {text : List Char} (h : text.all isSign = true) :
    IsCode (String.ofList text) := by
  unfold IsCode
  rw [String.toList_ofList]
  exact List.all_eq_true.1 h

theorem isCode_empty : IsCode "" :=
  isCode_ofList rfl

theorem isOneLine_ofList {text : List Char} (h : text.all (!isLineEnd ·) = true) :
    IsOneLine (String.ofList text) := by
  unfold IsOneLine
  rw [String.toList_ofList]
  exact fun c hmem => by simpa using List.all_eq_true.1 h c hmem

theorem isOneLine_append {front back : String} :
    IsOneLine (front ++ back) ↔ IsOneLine front ∧ IsOneLine back := by
  unfold IsOneLine
  rw [String.toList_append, List.forall_mem_append]

theorem isCode_append {front back : String} :
    IsCode (front ++ back) ↔ IsCode front ∧ IsCode back := by
  unfold IsCode
  rw [String.toList_append, List.forall_mem_append]

theorem isSign_eq_false_iff {c : Char} :
    isSign c = false ↔ c ∈ ['\x27', '"', '/', '\x60'] := by
  simp [isSign, isQuote]
  tauto

theorem isCode_iff {text : String} :
    IsCode text ↔ ∀ mark ∈ ['\x27', '"', '/', '\x60'], mark ∉ text.toList := by
  constructor
  · intro h mark hmark hmem
    exact absurd (h mark hmem) (by rw [isSign_eq_false_iff.2 hmark]; decide)
  · intro h c hmem
    by_contra hsign
    exact h c (isSign_eq_false_iff.1 (Bool.eq_false_iff.2 hsign)) hmem

theorem IsPlain.isCode {text : String} (h : IsPlain text) : IsCode text := by
  have hmarks : ['\x27', '"', '/', '\x60'] ⊆ marks := by simp [marks]
  exact isCode_iff.2 fun mark hmark => h mark (hmarks hmark)

theorem IsPlain.isOneLine {text : String} (h : IsPlain text) : IsOneLine text := by
  have hmarks : ∀ c, isLineEnd c = true → c ∈ marks := by
    intro c hend
    obtain rfl | rfl | rfl | rfl : c = '\n' ∨ c = '\r' ∨ c = '\u2028' ∨ c = '\u2029' := by
      simpa [isLineEnd] using hend
    all_goals decide
  intro c hmem
  by_contra hend
  exact h c (hmarks c (by simpa using hend)) hmem

/-- A member can stand in code if the value that it stands for can. -/
theorem isCode_enumMember_iff {value : String} : IsCode (enumMember value) ↔ IsCode value := by
  rw [isCode_iff, isCode_iff]
  refine forall₂_congr fun mark hmark => not_congr ?_
  have hother : mark ≠ '_' ∧ mark ≠ ' ' ∧ mark ∈ marks := by
    obtain rfl | rfl | rfl | rfl : mark = '\x27' ∨ mark = '"' ∨ mark = '/' ∨ mark = '\x60' := by
      simpa using hmark
    all_goals decide
  have hupper : mark ∈ Text.upperText value.toList ↔ mark ∈ value.toList :=
    mem_upperText_iff hother.2.2
  rw [← hupper]
  unfold enumMember
  rw [String.toList_ofList, List.mem_map]
  constructor
  · rintro ⟨c, hmem, heq⟩
    split_ifs at heq with hspace
    · exact absurd heq.symm hother.1
    · rwa [← heq]
  · intro hmem
    exact ⟨mark, hmem, if_neg hother.2.1⟩

/-! ## Names in a class file -/

/-- The names that a table has in its class are plain. -/
structure NamedPlainly (catalog : EnumCatalog) (table : Table) : Prop where
  className : IsPlain (className table.name)
  name : ∀ column ∈ table.columns, IsPlain column.name
  type : ∀ column ∈ table.columns, IsPlain (valueType catalog column)

theorem isPlain_typeName {tables : List Table} {column : Column}
    (hwords : ∀ table ∈ tables, ∀ column ∈ table.columns, IsPlain column.name)
    (h : IsPlain column.name) : IsPlain ((EnumCatalog.ofTables tables).typeName column) := by
  rw [typeName_eq]
  refine isPlain_enumName ?_
  unfold leader
  cases hfind : (enumColumns tables).find? _ with
  | none => exact h
  | some other =>
    obtain ⟨table, htable, hmem⟩ := List.mem_flatMap.1 (List.mem_of_find?_eq_some hfind)
    exact hwords table htable other (Table.mem_enumColumns.1 hmem).1

theorem namedPlainly_of_words {tables : List Table} {table : Table} (ht : table ∈ tables)
    (hwords : ∀ table ∈ tables, IsOneWord table.name ∧
      ∀ column ∈ table.columns, IsOneWord column.name) :
    NamedPlainly (.ofTables tables) table := by
  have hcolumns : ∀ table ∈ tables, ∀ column ∈ table.columns, IsPlain column.name :=
    fun table ht column hmem => isPlain_of_isOneWord ((hwords table ht).2 column hmem)
  refine ⟨isPlain_className (isPlain_of_isOneWord (hwords table ht).1), hcolumns table ht,
    fun column hmem => ?_⟩
  have htype := isPlain_typeName hcolumns (hcolumns table ht column hmem)
  unfold valueType
  cases column.type with
  | enum => exact htype
  | _ => exact isPlain_ofList (by decide)

end TableScribe.Code
