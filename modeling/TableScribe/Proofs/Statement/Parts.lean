import TableScribe.Proofs.Statement.Readers
import TableScribe.Proofs.Statement.Walks

/-!
# The parts of a statement

`Parts` is a statement taken apart: the words `CREATE TABLE`, a header, a column list and options,
each with the evidence that its reader takes exactly these tokens.

1. `exists_parts_of_strict`: what a strict reading accepts comes apart in this way.
2. `Parts.parseTokens_eq_ok`: a statement put together from parts is read, strictly if nothing
   stands around it, and leniently also between other tokens.
-/

namespace TableScribe

open ColumnWalk

/-- The tokens of a statement, part by part, with the name and the columns that they give. -/
structure Parts where
  create : Token
  word : Token
  header : List Token
  list : List Token
  options : List Token
  name : String
  columns : List Column
  create_kind : create.kind = .keyword .create
  word_kind : word.kind = .keyword .table
  header_says : Header header name
  list_starts : startsList list = true
  list_closes : Closes {} list columns
  options_end : EndsStatement options

def Parts.tokens (parts : Parts) : List Token :=
  parts.create :: parts.word :: (parts.header ++ (parts.list ++ parts.options))

/-! ## Stages of the reading -/

theorem startsList_append {list rest : List Token} (h : startsList list = true) :
    startsList (list ++ rest) = true := by
  cases list with
  | nil => exact absurd h (by simp [startsList])
  | cons token list => exact h

theorem noDot_of_startsList {tokens : List Token} (h : startsList tokens = true) :
    NoDot tokens := by
  rintro next after rfl hd
  simp [startsList, hd] at h

theorem readBody_outcome {strictness : Strictness} {name : String} {cursor : Cursor}
    {columns : List Column} {comment : Option String} (hs : startsList cursor.rest = true)
    (hl : (readColumnList cursor).outcome = .ok columns)
    (ho : (readTableOptions strictness (readColumnList cursor).cursor).outcome = .ok comment) :
    (readBody strictness name cursor).outcome = .ok ⟨name, columns, comment⟩ := by
  unfold readBody
  rw [if_pos hs]
  dsimp only
  rw [hl]
  dsimp only
  rw [ho]

/-- A body that is read has a column list and options, or leniently neither. -/
theorem readBody_inv {strictness : Strictness} {name : String} {cursor : Cursor} {table : Table}
    (h : (readBody strictness name cursor).outcome = .ok table) :
    (startsList cursor.rest = true ∧ table.name = name ∧
        (readColumnList cursor).outcome = .ok table.columns ∧
        (readTableOptions strictness (readColumnList cursor).cursor).outcome = .ok table.comment) ∨
      (strictness = .lenient ∧ table = { name }) := by
  unfold readBody at h
  split at h
  · rename_i hs
    dsimp only at h
    split at h
    · exact absurd h (by simp)
    · rename_i columns hl
      split at h
      · exact absurd h (by simp)
      · rename_i comment ho
        injection h with h
        subst h
        exact .inl ⟨hs, rfl, hl, ho⟩
  · cases strictness with
    | strict => exact absurd h (by simp)
    | lenient =>
      injection h with h
      exact .inr ⟨rfl, h.symm⟩

theorem readBody_strict_inv {name : String} {cursor : Cursor} {table : Table}
    (h : (readBody .strict name cursor).outcome = .ok table) :
    startsList cursor.rest = true ∧ table.name = name ∧
      (readColumnList cursor).outcome = .ok table.columns ∧
      (readTableOptions .strict (readColumnList cursor).cursor).outcome = .ok table.comment :=
  (readBody_inv h).resolve_right fun hlenient => absurd hlenient.1 (by simp)

theorem readCreateTable_outcome {strictness : Strictness} {cursor : Cursor} {name : String}
    (hne : cursor.rest ≠ []) (h1 : (readStart strictness cursor).outcome = .ok ())
    (h2 : (readTableName (readStart strictness cursor).cursor).outcome = .ok name) :
    (readCreateTable strictness cursor).outcome =
      (readBody strictness name (readTableName (readStart strictness cursor).cursor).cursor).outcome
      := by
  unfold readCreateTable
  rw [if_neg fun h => hne h.2]
  dsimp only
  rw [h1]
  dsimp only
  rw [h2]

theorem readCreateTable_inv {strictness : Strictness} {cursor : Cursor} {table : Table}
    (h : (readCreateTable strictness cursor).outcome = .ok table) :
    (readStart strictness cursor).outcome = .ok () ∧
      ∃ name, (readTableName (readStart strictness cursor).cursor).outcome = .ok name ∧
        (readBody strictness name
          (readTableName (readStart strictness cursor).cursor).cursor).outcome = .ok table := by
  unfold readCreateTable at h
  split at h
  · exact absurd h (by simp)
  · dsimp only at h
    split at h
    · exact absurd h (by simp)
    · rename_i h1
      split at h
      · exact absurd h (by simp)
      · rename_i name h2
        exact ⟨h1, name, h2, h⟩

/-! ## Taking a statement apart -/

/-- A statement that a strict reading accepts consists of parts, and the table says what they
say. -/
theorem exists_parts_of_strict {tokens : List Token} {table : Table}
    (h : parseTokens .strict tokens = .ok table) :
    ∃ parts : Parts, parts.tokens = tokens ∧ parts.name = table.name ∧
      parts.columns = table.columns ∧ TableComment parts.options table.comment := by
  obtain ⟨hstart, name, hname, hbody⟩ := readCreateTable_inv h
  obtain ⟨create, word, hopen, hc, hw⟩ := rest_of_readOpening hstart
  obtain ⟨header, hheader, hh, -⟩ := header_of_readTableName hname
  obtain ⟨hs, rfl, hlist, hoptions⟩ := readBody_strict_inv hbody
  obtain ⟨list, hl, hcl⟩ := (readColumnList_ok_iff hs).1 ⟨hlist, rfl⟩
  obtain ⟨ho, hcomment⟩ := endsStatement_of_readTableOptions hoptions
  have hsl : startsList list = true := by
    cases hcl with
    | last _ => rw [hl] at hs; exact hs
    | cons _ _ => rw [hl] at hs; exact hs
  refine ⟨⟨create, word, header, list, _, table.name, table.columns, hc, hw, hh, hsl, hcl, ho⟩,
    ?_, rfl, rfl, hcomment⟩
  show create :: word :: (header ++ (list ++ _)) = tokens
  rw [← hl, ← hheader]
  exact hopen.symm

/-! ## Putting a statement together -/

/-- What may stand before a statement: nothing, or in a lenient reading tokens that do not open a
statement themselves. -/
def MayPrecede (strictness : Strictness) (before : List Token) : Prop :=
  before = [] ∨ (strictness = .lenient ∧ LacksOpening before)

/-- What may follow the options of a statement: nothing, or in a lenient reading anything once a
semicolon has ended them. -/
def MayFollow (strictness : Strictness) (options after : List Token) : Prop :=
  after = [] ∨ (strictness = .lenient ∧ EndsInSemicolon options)

theorem readStart_of_mayPrecede {strictness : Strictness} {before rest : List Token}
    {create word : Token} {cursor : Cursor} (hb : MayPrecede strictness before)
    (hc : create.kind = .keyword .create) (hw : word.kind = .keyword .table)
    (hr : cursor.rest = before ++ create :: word :: rest) :
    (readStart strictness cursor).outcome = .ok () ∧
      (readStart strictness cursor).cursor.rest = rest := by
  cases strictness with
  | strict =>
    rcases hb with rfl | ⟨hno, -⟩
    · exact readOpening_of_rest hr hc hw
    · exact absurd hno (by simp)
  | lenient =>
    have hlacks : LacksOpening before := by
      rcases hb with rfl | ⟨-, hlacks⟩
      · exact .nil
      · exact hlacks
    show (seekOpening cursor cursor.rest 0 []).outcome = _ ∧
      (seekOpening cursor cursor.rest 0 []).cursor.rest = _
    rw [hr]
    exact seekOpening_append hlacks hc hw cursor 0 []

/-- The reading of a statement comes down to that of its body. -/
theorem Parts.parseTokens_eq_readBody (parts : Parts) {strictness : Strictness}
    {before : List Token} (hb : MayPrecede strictness before) (after : List Token) :
    ∃ cursor : Cursor, cursor.rest = parts.list ++ (parts.options ++ after) ∧
      parseTokens strictness (before ++ (parts.tokens ++ after)) =
        (readBody strictness parts.name cursor).outcome := by
  have hall : (Cursor.ofTokens (before ++ (parts.tokens ++ after))).rest = before ++
      parts.create :: parts.word ::
        (parts.header ++ (parts.list ++ (parts.options ++ after))) := by
    simp [Parts.tokens, Cursor.ofTokens]
  obtain ⟨h1, hr1⟩ := readStart_of_mayPrecede hb parts.create_kind parts.word_kind hall
  have hs : startsList (parts.list ++ (parts.options ++ after)) = true :=
    startsList_append parts.list_starts
  have hname := readTableName_of_header parts.header_says (noDot_of_startsList hs) hr1
  have h2 := congrArg Reading.outcome hname
  refine ⟨_, congrArg (·.cursor.rest) hname, ?_⟩
  unfold parseTokens
  refine readCreateTable_outcome ?_ h1 h2
  rw [hall]
  exact List.append_ne_nil_of_right_ne_nil _ (List.cons_ne_nil _ _)

/-- A statement put together from parts is read as what they say. -/
theorem Parts.parseTokens_eq_ok (parts : Parts) :
    ∃ comment, TableComment parts.options comment ∧
      ∀ (strictness : Strictness) (before after : List Token), MayPrecede strictness before →
        MayFollow strictness parts.options after →
        parseTokens strictness (before ++ (parts.tokens ++ after)) =
          .ok ⟨parts.name, parts.columns, comment⟩ := by
  obtain ⟨comment, hcomment, hoptions⟩ := readTableOptions_of_endsStatement parts.options_end
  refine ⟨comment, hcomment, fun strictness before after hb ha => ?_⟩
  obtain ⟨cursor, hr, heq⟩ := parts.parseTokens_eq_readBody hb after
  have hs : startsList cursor.rest = true := hr ▸ startsList_append parts.list_starts
  obtain ⟨hlist, hrest⟩ := (readColumnList_ok_iff hs).2 ⟨parts.list, hr, parts.list_closes⟩
  rw [heq]
  exact readBody_outcome hs hlist (hoptions strictness _ after hrest ha)

/-- A strict reading refuses what follows the semicolon of a statement. -/
theorem Parts.parseTokens_strict_append (parts : Parts) {after : List Token}
    (hs : EndsInSemicolon parts.options) (ha : after ≠ []) :
    ∃ found position, parseTokens .strict (parts.tokens ++ after) =
      .error (.unexpectedToken .statementEnd found position) := by
  have hb : MayPrecede .strict [] := .inl rfl
  obtain ⟨cursor, hr, heq⟩ := parts.parseTokens_eq_readBody hb after
  have hsl : startsList cursor.rest = true := hr ▸ startsList_append parts.list_starts
  obtain ⟨hlist, hrest⟩ := (readColumnList_ok_iff hsl).2 ⟨parts.list, hr, parts.list_closes⟩
  obtain ⟨found, position, hbad⟩ :=
    readTableOptions_strict_append parts.options_end hs ha hrest
  refine ⟨found, position, ?_⟩
  rw [List.nil_append] at heq
  rw [heq]
  unfold readBody
  rw [if_pos hsl]
  dsimp only
  rw [hlist]
  dsimp only
  rw [hbad]

end TableScribe
