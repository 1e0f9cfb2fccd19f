import TableScribe.Proofs.Code.ClassElements
import TableScribe.Proofs.Code.ClassFiles
import TableScribe.Proofs.Code.PlainTexts
import TableScribe.Proofs.Lexical.Cuts
import TableScribe.Proofs.Statement.Defaults

/-!
# Texts stay in their places

The comments and the defaults of a table are arbitrary texts, and its class file has them in
comments, in literals and as code. In a literal only backslashes and the delimiter are escaped, and
elsewhere nothing is, so a line feed or the end of a comment in such a text breaks out of its place.

1. `Enclosed`: the texts of a table do not. The elements of a class file are safe if and only if the
   texts of its table are enclosed (`ClassFile.safe_elements_iff`), with one lemma for each part of
   the file.
2. `ClassFile.reads_iff`: so the file reads back as these elements exactly then.
3. `Tame`: besides, what is shown as it is for a column of numbers is a number.

`contained_iff_tame` states this for all class files, and says where such a default comes from.
-/

namespace TableScribe.Code

open Pattern (IsInteger IsReal)
open Text (IsOneWord)

/-! ## Safe parts -/

section Safe

variable {text : String}

theorem safe_code : (∀ element ∈ code text, element.Safe) ↔ IsCode text := by
  unfold code
  rw [List.forall_mem_map]
  rfl

theorem safe_single : (∀ element ∈ single text, element.Safe) ↔ IsOneLine text := by
  have hquote : isQuote '\x27' = true := by decide
  unfold single
  rw [List.forall_mem_singleton]
  exact and_iff_right hquote

theorem safe_double : (∀ element ∈ double text, element.Safe) ↔ IsOneLine text := by
  have hquote : isQuote '"' = true := by decide
  unfold double
  rw [List.forall_mem_singleton]
  exact and_iff_right hquote

theorem safe_flatMap {α : Type} {items : List α} {elements : α → List Element} :
    (∀ element ∈ items.flatMap elements, element.Safe) ↔
      ∀ item ∈ items, ∀ element ∈ elements item, element.Safe := by
  simp only [List.mem_flatMap]
  grind

theorem safe_intercalate {separator : List Element} {groups : List (List Element)}
    (hs : ∀ element ∈ separator, element.Safe) :
    (∀ element ∈ separator.intercalate groups, element.Safe) ↔
      ∀ group ∈ groups, ∀ element ∈ group, element.Safe := by
  induction groups with
  | nil => simp
  | cons group rest ih =>
    cases rest with
    | nil => simp
    | cons next rest =>
      rw [List.intercalate_cons_cons, List.forall_mem_append, List.forall_mem_append, ih,
        and_iff_left hs]
      exact (List.forall_mem_cons (p := fun group => ∀ element ∈ group, Element.Safe element)).symm

theorem isCode_join {separator : String} {texts : List String} (hs : IsCode separator)
    (h : ∀ text ∈ texts, IsCode text) : IsCode (Text.join separator texts) :=
  Text.forall_mem_join hs h

end Safe

/-! ## Texts that stay in their places -/

/-- What the default of a column is shown as in code, up to the type in front of a member. -/
def codeDefault? (column : Column) : Option String :=
  match column.type with
  | .enum => column.default.or (column.values.bind (·.head?))
  | .int | .integer | .real | .boolean => column.default
  | _ => none

/-- The texts of a table stay in their places in its class: a comment or a quoted text has nothing
that ends it early, and what is shown as code has nothing that begins a comment or a literal. -/
structure Enclosed (table : Table) : Prop where
  tableComment : ∀ comment, table.comment = some comment → ¬ ClosesComment comment.toList
  comment : ∀ column ∈ table.columns, ∀ comment, column.comment = some comment → IsOneLine comment
  quoted : ∀ column ∈ table.columns, ∀ text, quotedDefault? column = some text → IsOneLine text
  code : ∀ column ∈ table.columns, ∀ text, codeDefault? column = some text → IsCode text

namespace ClassFile

variable {catalog : EnumCatalog} {table : Table} {own : List Column} {parent : Option Table}

theorem safe_enumImportElements (h : NamedPlainly catalog table) :
    ∀ element ∈ enumImportElements (ofTable catalog table own parent).imports, element.Safe := by
  have himports : ∀ name ∈ (ofTable catalog table own parent).imports, IsCode name := by
    intro name hmem
    obtain ⟨column, hcolumn, rfl⟩ := List.mem_map.1 (mem_sortTexts.1 (mem_dropRepeats.1 hmem))
    obtain ⟨hcolumn, henum⟩ := Table.mem_enumColumns.1 hcolumn
    have htype := h.type column hcolumn
    rw [valueType_of_enum henum] at htype
    exact htype.isCode
  unfold enumImportElements
  split
  · simp
  · simp only [List.forall_mem_append, safe_code, safe_double, safe_flatMap, isCode_append]
    refine ⟨⟨⟨⟨isCode_ofList (by decide), fun name hmem => ⟨⟨isCode_ofList (by decide),
      himports name hmem⟩, isCode_ofList (by decide)⟩⟩, isCode_ofList (by decide)⟩, ?_⟩,
      isCode_ofList (by decide)⟩
    exact isOneLine_ofList (by decide)

theorem isCode_headLine (own : List Column) (h : NamedPlainly catalog table)
    (hparent : ∀ p ∈ parent, NamedPlainly catalog p) :
    IsCode (ofTable catalog table own parent).headLine := by
  unfold headLine
  cases parent with
  | none =>
    exact isCode_append.2 ⟨isCode_append.2 ⟨isCode_ofList (by decide), h.className.isCode⟩,
      isCode_ofList (by decide)⟩
  | some p =>
    have hp := (hparent p rfl).className.isCode
    simp only [ofTable, Option.map_some, isCode_append]
    exact ⟨⟨⟨⟨isCode_ofList (by decide), h.className.isCode⟩, isCode_ofList (by decide)⟩, hp⟩,
      isCode_ofList (by decide)⟩

theorem isCode_constructorText (h : NamedPlainly catalog table) (hown : own ⊆ table.columns)
    (hparent : ∀ p ∈ parent, NamedPlainly catalog p) :
    IsCode (ofTable catalog table own parent).constructorText := by
  have hinherited : ∀ column ∈ (parent.map (·.columns)).getD [],
      IsCode column.name ∧ IsCode (valueType catalog column) := by
    intro column hmem
    cases parent with
    | none => exact absurd hmem (by simp)
    | some p =>
      have hp := hparent p rfl
      exact ⟨(hp.name column hmem).isCode, (hp.type column hmem).isCode⟩
  have howned : ∀ column ∈ own, IsCode column.name ∧ IsCode (valueType catalog column) :=
    fun column hmem => ⟨(h.name column (hown hmem)).isCode, (h.type column (hown hmem)).isCode⟩
  have hseparator : IsCode ", " := isCode_ofList (by decide)
  have hparameters : ∀ text ∈ (ofTable catalog table own parent).parameters.map parameterText,
      IsCode text := by
    intro text hmem
    obtain ⟨parameter, hparameter, rfl⟩ := List.mem_map.1 hmem
    obtain ⟨column, hcolumn, rfl⟩ := List.mem_map.1 hparameter
    have hnames : IsCode column.name ∧ IsCode (valueType catalog column) :=
      (List.mem_append.1 hcolumn).elim (hinherited column) (howned column)
    exact isCode_append.2 ⟨isCode_append.2 ⟨hnames.1, isCode_ofList (by decide)⟩, hnames.2⟩
  have hsuper : IsCode (ofTable catalog table own parent).superCall := by
    unfold superCall
    split
    · exact isCode_empty
    · have hnames : ∀ text ∈ (ofTable catalog table own parent).handedOn, IsCode text := by
        intro text hmem
        obtain ⟨column, hcolumn, rfl⟩ := List.mem_map.1 hmem
        exact (hinherited column hcolumn).1
      exact isCode_append.2 ⟨isCode_append.2 ⟨isCode_ofList (by decide),
        isCode_join hseparator hnames⟩, isCode_ofList (by decide)⟩
  have hassignments : ∀ text ∈ (ofTable catalog table own parent).properties.map
      fun p => assignment p.name, IsCode text := by
    intro text hmem
    obtain ⟨property, hproperty, rfl⟩ := List.mem_map.1 hmem
    obtain ⟨column, hcolumn, rfl⟩ := List.mem_map.1 hproperty
    have hname := (howned column hcolumn).1
    simp only [assignment, Property.ofColumn, isCode_append]
    exact ⟨⟨⟨⟨isCode_ofList (by decide), hname⟩, isCode_ofList (by decide)⟩, hname⟩,
      isCode_ofList (by decide)⟩
  unfold constructorText
  simp only [isCode_append]
  exact ⟨⟨⟨⟨⟨isCode_ofList (by decide), isCode_join hseparator hparameters⟩,
    isCode_ofList (by decide)⟩, hsuper⟩, isCode_join isCode_empty hassignments⟩,
    isCode_ofList (by decide)⟩

theorem safe_parentImportElements {name : String} (h : IsPlain name) :
    ∀ element ∈ parentImportElements name, element.Safe := by
  unfold parentImportElements
  simp only [List.forall_mem_append, safe_code, safe_single, isCode_append, isOneLine_append]
  exact ⟨⟨⟨⟨isCode_ofList (by decide), h.isCode⟩, isCode_ofList (by decide)⟩,
    isOneLine_ofList (by decide), h.isOneLine⟩, isCode_ofList (by decide)⟩

/-- The comment of a table stays in its place if it does not close the comment that it is put in. -/
theorem safe_commentElements {comment : String} :
    (∀ element ∈ commentElements comment, element.Safe) ↔ ¬ ClosesComment comment.toList := by
  have hsign : Element.Safe (.sign '\n') := by
    unfold Element.Safe
    decide
  have htext : ("* " ++ comment ++ " ").toList = '*' :: ' ' :: (comment.toList ++ [' ']) := by
    simp
  unfold commentElements
  rw [List.forall_mem_cons, List.forall_mem_singleton, and_iff_left hsign]
  refine not_congr ?_
  rw [htext]
  unfold ClosesComment
  rw [List.infix_cons_iff, List.infix_cons_iff, or_iff_right (by simp), or_iff_right (by simp)]
  exact closesComment_concat.trans (or_iff_left fun hslash => absurd hslash.2 (by decide))

/-- The comment of a column stays in its place if it is on one line. -/
theorem safe_propertyElements {property : Property} (hname : IsCode property.name)
    (htype : IsCode property.type) :
    (∀ element ∈ propertyElements property, element.Safe) ↔
      ∀ comment, property.comment = some comment → IsOneLine comment := by
  have hdeclaration : IsCode ("  " ++ property.name ++ ": " ++ property.type ++ ";") := by
    simp only [isCode_append]
    exact ⟨⟨⟨⟨isCode_ofList (by decide), hname⟩, isCode_ofList (by decide)⟩, htype⟩,
      isCode_ofList (by decide)⟩
  unfold propertyElements
  rw [List.forall_mem_append, safe_code, and_iff_right hdeclaration]
  cases property.comment with
  | none =>
    dsimp only
    rw [safe_code]
    exact iff_of_true (isCode_ofList (by decide)) (by simp)
  | some comment =>
    have hblanks : IsCode "  " := isCode_ofList (by decide)
    have hspace : IsOneLine " " := isOneLine_ofList (by decide)
    have hend : isLineEnd '\n' = true := by decide
    dsimp only
    rw [List.forall_mem_append, safe_code, and_iff_right hblanks, List.forall_mem_singleton]
    simp only [Option.some.injEq, forall_eq']
    exact (and_iff_left hend).trans (isOneLine_append.trans (and_iff_right hspace))

theorem isCode_undefined : IsCode "undefined" :=
  isCode_ofList (by decide)

/-- What a default is shown as in code depends on one text of the column. -/
theorem isCode_defaultExpression_iff {column : Column} (htype : IsCode (valueType catalog column))
    (hquoted : quotedDefault? column = none) :
    IsCode (defaultExpression catalog column) ↔
      ∀ text, codeDefault? column = some text → IsCode text := by
  unfold quotedDefault? at hquoted
  unfold valueType at htype
  unfold defaultExpression codeDefault?
  cases hcolumn : column.type with
  | varchar | text | timestamp =>
    rw [hcolumn] at hquoted
    have hnone : column.default = none := by simpa using hquoted
    dsimp only
    rw [hnone]
    exact iff_of_true isCode_undefined (by simp)
  | int | integer | real | boolean =>
    dsimp only
    cases column.default with
    | none => exact iff_of_true isCode_undefined (by simp)
    | some text => simp
  | enum =>
    rw [hcolumn] at htype
    have hdot : IsCode "." := isCode_ofList (by decide)
    dsimp only
    cases column.default.or (column.values.bind (·.head?)) with
    | none => exact iff_of_true isCode_undefined (by simp)
    | some value =>
      simp only [isCode_append, isCode_enumMember_iff, Option.some.injEq, forall_eq']
      exact and_iff_right ⟨htype, hdot⟩

theorem codeDefault?_of_quoted {column : Column} {text : String}
    (h : quotedDefault? column = some text) : codeDefault? column = none := by
  unfold quotedDefault? at h
  unfold codeDefault?
  cases hcolumn : column.type <;> simp [hcolumn] at h ⊢

theorem safe_defaultElements {column : Column} (htype : IsCode (valueType catalog column)) :
    (∀ element ∈ defaultElements catalog column, element.Safe) ↔
      (∀ text, quotedDefault? column = some text → IsOneLine text) ∧
        ∀ text, codeDefault? column = some text → IsCode text := by
  unfold defaultElements
  split
  · rename_i text hquoted
    rw [safe_double, hquoted, codeDefault?_of_quoted hquoted]
    simp
  · rename_i hquoted
    rw [safe_code, isCode_defaultExpression_iff htype hquoted, hquoted]
    simp

theorem safe_memberElements (name : String) {value : List Element} (hname : IsOneLine name) :
    (∀ element ∈ memberElements name value, element.Safe) ↔ ∀ element ∈ value, element.Safe := by
  unfold memberElements
  simp only [List.forall_mem_append, safe_single, safe_code]
  exact and_iff_right ⟨hname, isCode_ofList (by decide)⟩

theorem safe_entryElements {column : Column} (hname : IsPlain column.name)
    (htype : IsPlain (valueType catalog column)) :
    (∀ element ∈ entryElements catalog column, element.Safe) ↔
      (∀ comment, column.comment = some comment → IsOneLine comment) ∧
      (∀ text, quotedDefault? column = some text → IsOneLine text) ∧
        ∀ text, codeDefault? column = some text → IsCode text := by
  have hcomma : IsCode ", " := isCode_ofList (by decide)
  have hopening : IsCode "        \x7b " := isCode_ofList (by decide)
  have hclosing : IsCode " \x7d," := isCode_ofList (by decide)
  have hmark : ∀ element ∈ (if column.autoIncrement then
      code ", " ++ memberElements "auto_increase" (single "AUTO_INCREMENT") else []),
      element.Safe := by
    split
    · rw [List.forall_mem_append, safe_code,
        safe_memberElements "auto_increase" (isOneLine_ofList (by decide)), safe_single]
      exact ⟨hcomma, isOneLine_ofList (by decide)⟩
    · simp
  have hcomment : IsOneLine (column.comment.getD "") ↔
      ∀ comment, column.comment = some comment → IsOneLine comment := by
    cases column.comment with
    | none => exact iff_of_true (isOneLine_ofList (by decide)) (by simp)
    | some comment => simp
  unfold entryElements
  simp only [List.forall_mem_append, safe_code, safe_single,
    safe_memberElements "name" (isOneLine_ofList (by decide)),
    safe_memberElements "type" (isOneLine_ofList (by decide)),
    safe_memberElements "default" (isOneLine_ofList (by decide)),
    safe_memberElements "comment" (isOneLine_ofList (by decide)),
    safe_defaultElements htype.isCode, hcomment]
  constructor
  · rintro ⟨⟨⟨⟨⟨-, hquoted, hcode⟩, -⟩, hcomments⟩, -⟩, -⟩
    exact ⟨hcomments, hquoted, hcode⟩
  · rintro ⟨hcomments, hquoted, hcode⟩
    exact ⟨⟨⟨⟨⟨⟨⟨⟨⟨hopening, hname.isOneLine⟩, hcomma⟩, htype.isOneLine⟩, hcomma⟩, hquoted,
      hcode⟩, hcomma⟩, hcomments⟩, hmark⟩, hclosing⟩

theorem safe_metadataElements (h : NamedPlainly catalog table) :
    (∀ element ∈ metadataElements catalog table, element.Safe) ↔
      ∀ column ∈ table.columns, ∀ element ∈ entryElements catalog column, element.Safe := by
  have hseparator : ∀ element ∈ code "\n", element.Safe :=
    safe_code.2 (isCode_ofList (by decide))
  unfold metadataElements
  simp only [List.forall_mem_append, safe_code, safe_single, safe_intercalate hseparator,
    List.forall_mem_map, safe_memberElements "class_name" (isOneLine_ofList (by decide)),
    safe_memberElements "fields" (isOneLine_ofList (by decide))]
  constructor
  · rintro ⟨⟨-, ⟨-, hentries⟩, -⟩, -⟩
    exact hentries
  · intro hentries
    exact ⟨⟨⟨⟨isCode_ofList (by decide), h.className.isOneLine⟩, isCode_ofList (by decide)⟩,
      ⟨isCode_ofList (by decide), hentries⟩, isCode_ofList (by decide)⟩,
      isCode_ofList (by decide)⟩

/-- All elements of a class file are safe if and only if the texts of its table are tame. -/
theorem safe_elements_iff (h : NamedPlainly catalog table) (hown : own ⊆ table.columns)
    (hparent : ∀ p ∈ parent, NamedPlainly catalog p) :
    (∀ element ∈ elements catalog table own parent, element.Safe) ↔ Enclosed table := by
  have hnewline : IsCode "\n" := isCode_ofList (by decide)
  have hhead := isCode_append.2 ⟨isCode_headLine own h hparent, hnewline⟩
  have hconstructor := isCode_append.2 ⟨isCode_constructorText h hown hparent, hnewline⟩
  have hparents : ∀ name ∈ (ofTable catalog table own parent).parent.toList,
      ∀ element ∈ parentImportElements name, element.Safe := by
    intro name hmem
    obtain ⟨p, hp, rfl⟩ : ∃ p ∈ parent, className p.name = name := by simpa [ofTable] using hmem
    exact safe_parentImportElements (hparent p hp).className
  have hproperties : (∀ property ∈ (ofTable catalog table own parent).properties,
      ∀ element ∈ propertyElements property, element.Safe) ↔
        ∀ column ∈ own, ∀ comment, column.comment = some comment → IsOneLine comment := by
    unfold ofTable
    rw [List.forall_mem_map]
    exact forall₂_congr fun column hmem => safe_propertyElements
      (h.name column (hown hmem)).isCode (h.type column (hown hmem)).isCode
  have hentries := safe_metadataElements h
  rw [forall₂_congr fun column hmem => safe_entryElements (h.name column hmem) (h.type column hmem)]
    at hentries
  unfold elements
  simp only [List.forall_mem_append, safe_flatMap, safe_code, safe_commentElements, hproperties,
    hentries]
  constructor
  · rintro ⟨⟨⟨⟨⟨⟨-, hcomment⟩, -⟩, -⟩, -⟩, hcolumns⟩, -⟩
    exact ⟨fun comment hsome => hcomment comment (by simpa [ofTable] using hsome),
      fun column hmem => (hcolumns column hmem).1, fun column hmem => (hcolumns column hmem).2.1,
      fun column hmem => (hcolumns column hmem).2.2⟩
  · intro henclosed
    refine ⟨⟨⟨⟨⟨⟨⟨safe_enumImportElements h, hparents⟩, fun comment hmem => ?_⟩, hhead⟩,
      fun column hmem => henclosed.comment column (hown hmem)⟩, hconstructor⟩, fun column hmem =>
      ⟨henclosed.comment column hmem, henclosed.quoted column hmem, henclosed.code column hmem⟩⟩,
      isCode_ofList (by decide)⟩
    exact henclosed.tableComment comment (by simpa [ofTable] using hmem)

/-- A class file reads back as its elements if and only if the texts of its table are enclosed. -/
theorem reads_iff (h : NamedPlainly catalog table) (hown : own ⊆ table.columns)
    (hparent : ∀ p ∈ parent, NamedPlainly catalog p) :
    elementsOf (ofTable catalog table own parent).render.toList =
        some (elements catalog table own parent) ↔ Enclosed table := by
  have hmarks : '\\' ∈ marks ∧ '\x27' ∈ marks := by decide
  have hwritten : written (elements catalog table own parent) = _ := written_elements fun p hp =>
    ⟨(hparent p hp).className _ hmarks.1, (hparent p hp).className _ hmarks.2⟩
  rw [← hwritten, written, String.toList_ofList, elementsOf_flatMap_write_iff]
  exact safe_elements_iff h hown hparent

end ClassFile

/-! ## Numbers -/

/-- One or more of the digits from 0 to 9. -/
def IsDigits (text : List Char) : Prop :=
  text ≠ [] ∧ ∀ c ∈ text, c.isDigit = true

/-- Digits that begin with a zero only if they are nothing else, perhaps with a minus sign. -/
def IsWhole (text : List Char) : Prop :=
  ∃ sign digits, text = sign ++ digits ∧ (sign = [] ∨ sign = ['-']) ∧ IsDigits digits ∧
    (digits.head? = some '0' → digits = ['0'])

/-- A number as code has it, whole or with a fraction. -/
def IsNumeral (text : List Char) : Prop :=
  IsWhole text ∨
    ∃ whole fraction, text = whole ++ '.' :: fraction ∧ IsWhole whole ∧ IsDigits fraction

/-- A number, or the word for no value at all. -/
def IsValue (text : String) : Prop :=
  text = "undefined" ∨ IsNumeral text.toList

/-- A number has no digits but those from 0 to 9, and no zero in front of its first digit. -/
structure IsPlainNumber (text : List Char) : Prop where
  digits : ∀ c ∈ text, Text.isDigit c = true → c.isDigit = true
  zero : ∀ digit rest, Text.isDigit digit = true →
    text ≠ '0' :: digit :: rest ∧ text ≠ '-' :: '0' :: digit :: rest

theorem isWhole_of_isInteger {text more : List Char} (h : IsInteger text)
    (hp : IsPlainNumber (text ++ more)) : IsWhole text := by
  obtain ⟨sign, digits, rfl, hsign, hne, hall⟩ := h
  refine ⟨sign, digits, rfl, hsign, ⟨hne, fun c hmem => ?_⟩, fun hzero => ?_⟩
  · exact hp.digits c (by simp [hmem]) (hall c hmem)
  · obtain ⟨rest, rfl⟩ := List.head?_eq_some_iff.1 hzero
    cases rest with
    | nil => rfl
    | cons digit rest =>
      have hno := hp.zero digit (rest ++ more) (hall digit (by simp))
      rcases hsign with rfl | rfl
      · exact absurd rfl hno.1
      · exact absurd rfl hno.2

/-- A plain number of a statement is one in code. -/
theorem isNumeral_of_number {text : List Char} (h : IsInteger text ∨ IsReal text)
    (hp : IsPlainNumber text) : IsNumeral text := by
  rcases h with h | ⟨whole, fraction, rfl, hwhole, hne, hall⟩
  · exact .inl (isWhole_of_isInteger h (by rwa [List.append_nil]))
  · exact .inr ⟨whole, fraction, rfl, isWhole_of_isInteger hwhole hp, hne,
      fun c hmem => hp.digits c (by simp [hmem]) (hall c hmem)⟩

/-- What a token gives as a default is a value, unless it is a string, the current time, or a number
that is not plain. -/
theorem isValue_of_stated {token : Token} {text : String} (hl : token.IsLexeme)
    (h : token.statedValue? = some text) :
    token.defaultText = text ∧ (IsValue text ∨ token.kind = .stringLiteral ∨
      token.kind = .keyword .currentTimestamp ∨ ¬ IsPlainNumber token.lexeme.toList) := by
  unfold Token.statedValue? at h
  split at h
  · rename_i hvalue
    rw [Option.some.injEq] at h
    refine ⟨h, ?_⟩
    rw [← h]
    have hnumber (hk : token.kind = .integerLiteral ∨ token.kind = .realLiteral) :
        IsValue token.defaultText ∨ ¬ IsPlainNumber token.lexeme.toList := by
      have htext : token.defaultText = token.lexeme := by
        unfold Token.defaultText Token.isKeyword
        rw [if_neg (by rcases hk with hk | hk <;> simp [hk])]
        exact Token.unquoted_of_plain (by rcases hk with hk | hk <;> rw [hk] <;> rfl)
      rw [or_iff_not_imp_right, not_not, htext]
      exact fun hp => .inr (isNumeral_of_number (hl.number hk) hp)
    cases hk : token.kind with
    | stringLiteral => exact .inr (.inl rfl)
    | realLiteral => exact (hnumber (.inr hk)).imp_right fun hp => .inr (.inr hp)
    | integerLiteral => exact (hnumber (.inl hk)).imp_right fun hp => .inr (.inr hp)
    | keyword word =>
      rw [hk] at hvalue
      cases word with
      | currentTimestamp => exact .inr (.inr (.inl rfl))
      | _ => exact absurd hvalue (by decide)
    | _ =>
      rw [hk] at hvalue
      exact absurd hvalue (by decide)
  · exact absurd h (by simp)

/-- The default of a column of this type is shown as it is. -/
def showsBare : ColumnType → Bool
  | .int | .integer | .real | .boolean => true
  | _ => false

theorem defaultExpression_of_showsBare {column : Column} (h : showsBare column.type = true)
    (catalog : EnumCatalog) :
    defaultExpression catalog column = column.default.getD "undefined" := by
  unfold defaultExpression
  cases hcolumn : column.type <;> simp [hcolumn, showsBare] at h ⊢

/-! ## Class files -/

/-- The texts of a table are enclosed, and a default that is shown as it is, is a value. -/
structure Tame (table : Table) : Prop extends Enclosed table where
  bare : ∀ column ∈ table.columns, showsBare column.type = true →
    ∀ text, column.default = some text → IsValue text

/-- The text of a class file has the texts of its table in their places: it is read as the elements
that were meant, so that every comment ends where the writer ends it and every literal stands for
the text it was made of, and a default that is shown as it is, is a value. -/
structure Contained (catalog : EnumCatalog) (table : Table) (own : List Column)
    (parent : Option Table) (text : String) : Prop where
  reads : elementsOf text.toList = some (ClassFile.elements catalog table own parent)
  bare : ∀ column ∈ table.columns, showsBare column.type = true →
    IsValue (defaultExpression catalog column)

theorem contained_render_iff {catalog : EnumCatalog} {table : Table} {own : List Column}
    {parent : Option Table} (h : NamedPlainly catalog table) (hown : own ⊆ table.columns)
    (hparent : ∀ p ∈ parent, NamedPlainly catalog p) :
    Contained catalog table own parent (ClassFile.ofTable catalog table own parent).render ↔
      Tame table := by
  have hreads := ClassFile.reads_iff h hown hparent
  constructor
  · intro hcontained
    refine ⟨hreads.1 hcontained.reads, fun column hmem hbare text htext => ?_⟩
    have hshown := hcontained.bare column hmem hbare
    rwa [defaultExpression_of_showsBare hbare, htext] at hshown
  · intro htame
    refine ⟨hreads.2 htame.toEnclosed, fun column hmem hbare => ?_⟩
    rw [defaultExpression_of_showsBare hbare]
    cases htext : column.default with
    | none => exact .inl rfl
    | some text => exact htame.bare column hmem hbare text htext

/-- If all names of tables and columns are words, then every class file is the class of a table, and

1. it has the texts of the table in their places if and only if these are tame;
2. if a statement defines the table, then what a column of numbers shows for its default is a value,
   unless the statement gives as that default a string, the current time, or a number with other
   digits or with a zero in front. -/
theorem contained_iff_tame {tables : List Table} {relations : List Relation} {path : String}
    {file : ClassFile}
    (hwords : ∀ table ∈ tables, IsOneWord table.name ∧
      ∀ column ∈ table.columns, IsOneWord column.name)
    (hfile : (path, file) ∈ classFiles (.ofTables tables) tables relations) :
    ∃ table ∈ tables, ∃ own parent, own ⊆ table.columns ∧
      file = .ofTable (.ofTables tables) table own parent ∧
      (Contained (.ofTables tables) table own parent file.render ↔ Tame table) ∧
      ∀ strictness statement, parseStatement strictness statement = .ok table →
        ∃ tokens, scan statement = .ok tokens ∧
          ∀ column ∈ table.columns, showsBare column.type = true →
            IsValue (defaultExpression (.ofTables tables) column) ∨
              ∃ token ∈ tokens,
                token.defaultText = defaultExpression (.ofTables tables) column ∧
                (token.kind = .stringLiteral ∨ token.kind = .keyword .currentTimestamp ∨
                  ¬ IsPlainNumber token.lexeme.toList) := by
  obtain ⟨table, parent, hclass⟩ := (putInPlace_of_mem hfile).classOf
  obtain ⟨htable, hparent, own, rfl, hown⟩ := hclass.exists_own
  refine ⟨table, htable, own, parent, hown, rfl, ?_, fun strictness statement hparse => ?_⟩
  · exact contained_render_iff (namedPlainly_of_words htable hwords) hown fun p hp =>
      namedPlainly_of_words (hparent p hp).1 hwords
  · obtain ⟨tokens, hscan, hgiven⟩ := defaults_of_parseStatement hparse
    refine ⟨tokens, hscan, fun column hmem hbare => ?_⟩
    rw [defaultExpression_of_showsBare hbare]
    cases htext : column.default with
    | none => exact .inl (.inl rfl)
    | some text =>
      obtain ⟨token, htoken, hstated⟩ := hgiven column hmem text htext
      obtain ⟨hshown, hvalue⟩ := isValue_of_stated (isLexeme_of_scan hscan token htoken) hstated
      exact hvalue.imp_right fun hother => ⟨token, htoken, hshown, hother⟩

/-- Slashes, a quote, a backslash and the beginning of a comment, all of which stay in place. -/
theorem contained_iff_tame_marks :
    let statement :=
      "CREATE TABLE t (n INT DEFAULT -5 COMMENT '//', s TEXT DEFAULT '\"\\') COMMENT '/*'"
    let marked : Table :=
      ⟨"t", [⟨"n", .int, none, some "-5", none, false, some "//"⟩,
        ⟨"s", .text, none, some "\"\\", none, false, none⟩], some "/*"⟩
    let tables : List Table := [marked]
    let file := ClassFile.ofTable (.ofTables tables) marked marked.columns none
    (∀ table ∈ tables, IsOneWord table.name ∧ ∀ column ∈ table.columns, IsOneWord column.name) ∧
      ("T.ts", file) ∈ classFiles (.ofTables tables) tables [] ∧
      parseStatement .strict statement = .ok marked ∧
      (∃ own parent, Contained (.ofTables tables) marked own parent file.render) ∧
      ∃ tokens, scan statement = .ok tokens ∧
        ∀ column ∈ marked.columns, showsBare column.type = true →
          IsValue (defaultExpression (.ofTables tables) column) ∨
            ∃ token ∈ tokens, token.defaultText = defaultExpression (.ofTables tables) column ∧
              (token.kind = .stringLiteral ∨ token.kind = .keyword .currentTimestamp ∨
                ¬ IsPlainNumber token.lexeme.toList) := by
  intro statement marked tables file
  have hwords : ∀ table ∈ tables,
      IsOneWord table.name ∧ ∀ column ∈ table.columns, IsOneWord column.name := by
    decide
  have hfile : ("T.ts", file) ∈ classFiles (.ofTables tables) tables [] := by
    decide
  have htame : Tame marked := by
    have hnumber : IsValue "-5" :=
      .inr (.inl ⟨['-'], ['5'], by decide, .inr rfl, ⟨by decide, by simp⟩, by decide⟩)
    have hclosed : ¬ ClosesComment "/*".toList := by
      unfold ClosesComment
      decide
    have hcomment : IsOneLine "//" := isOneLine_ofList (by decide)
    have hquoted : IsOneLine "\"\\" := isOneLine_ofList (by decide)
    have hcode : IsCode "-5" := isCode_ofList (by decide)
    refine ⟨⟨?_, ?_, ?_, ?_⟩, ?_⟩
    · simpa [marked] using hclosed
    · simpa [marked] using hcomment
    · simpa [marked, quotedDefault?] using hquoted
    · simpa [marked, codeDefault?] using hcode
    · simpa [marked, showsBare] using hnumber
  have hscan : scan statement = .ok
      [⟨.keyword .create, "CREATE", 0, 6⟩, ⟨.keyword .table, "TABLE", 7, 12⟩, ⟨.name, "t", 13, 14⟩,
        ⟨.leftParen, "(", 15, 16⟩, ⟨.name, "n", 16, 17⟩, ⟨.keyword .int, "INT", 18, 21⟩,
        ⟨.keyword .default, "DEFAULT", 22, 29⟩, ⟨.integerLiteral, "-5", 30, 32⟩,
        ⟨.keyword .comment, "COMMENT", 33, 40⟩, ⟨.stringLiteral, "'//'", 41, 45⟩,
        ⟨.comma, ",", 45, 46⟩, ⟨.name, "s", 47, 48⟩, ⟨.keyword .text, "TEXT", 49, 53⟩,
        ⟨.keyword .default, "DEFAULT", 54, 61⟩, ⟨.stringLiteral, "'\"\\'", 62, 66⟩,
        ⟨.rightParen, ")", 66, 67⟩, ⟨.keyword .comment, "COMMENT", 68, 75⟩,
        ⟨.stringLiteral, "'/*'", 76, 80⟩] :=
    scan_eq_ok_of_toOption (by decide +kernel)
  have hparse : parseStatement .strict statement = .ok marked := by
    unfold parseStatement
    rw [hscan]
    rfl
  obtain ⟨found, hfound, own, parent, -, -, hcontained, hgiven⟩ := contained_iff_tame hwords hfile
  obtain rfl := List.mem_singleton.1 hfound
  exact ⟨hwords, hfile, hparse, ⟨own, parent, hcontained.2 htame⟩, hgiven _ _ hparse⟩

/-- A default on two lines is not one literal. -/
theorem not_forall_contained :
    ¬ ∀ (statement : String) (table : Table), parseStatement .strict statement = .ok table →
      IsOneWord table.name → (∀ column ∈ table.columns, IsOneWord column.name) →
      Contained (.ofTables [table]) table table.columns none
        (ClassFile.ofTable (.ofTables [table]) table table.columns none).render := by
  intro h
  let column : Column := ⟨"a", .text, none, some "x\ny", none, false, none⟩
  have hscan : scan "CREATE TABLE t (a TEXT DEFAULT 'x\ny');" = .ok
      [⟨.keyword .create, "CREATE", 0, 6⟩, ⟨.keyword .table, "TABLE", 7, 12⟩, ⟨.name, "t", 13, 14⟩,
        ⟨.leftParen, "(", 15, 16⟩, ⟨.name, "a", 16, 17⟩, ⟨.keyword .text, "TEXT", 18, 22⟩,
        ⟨.keyword .default, "DEFAULT", 23, 30⟩, ⟨.stringLiteral, "'x\ny'", 31, 36⟩,
        ⟨.rightParen, ")", 36, 37⟩, ⟨.semicolon, ";", 37, 38⟩] :=
    scan_eq_ok_of_toOption (by decide +kernel)
  have hparse : parseStatement .strict "CREATE TABLE t (a TEXT DEFAULT 'x\ny');" =
      .ok ⟨"t", [column], none⟩ := by
    unfold parseStatement
    rw [hscan]
    rfl
  have hname : IsOneWord "t" := by decide
  have hcolumns : ∀ other ∈ [column], IsOneWord other.name := by decide
  have hplain : NamedPlainly (.ofTables [⟨"t", [column], none⟩]) ⟨"t", [column], none⟩ :=
    namedPlainly_of_words List.mem_cons_self (List.forall_mem_singleton.2 ⟨hname, hcolumns⟩)
  have htame := (contained_render_iff hplain (List.Subset.refl _) (by simp)).1
    (h _ _ hparse hname hcolumns)
  exact absurd (htame.quoted column List.mem_cons_self "x\ny" rfl '\n' (by decide)) (by decide)

end TableScribe.Code
