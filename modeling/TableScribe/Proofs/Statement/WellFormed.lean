import TableScribe.Proofs.Lexical.Cuts
import TableScribe.Proofs.Statement.Causes
import TableScribe.Proofs.Statement.Parts

/-!
# The columns of a table are well formed

`ColumnDraft.build` drops what does not go with the type of a column, but by itself it would let an
`enum` without values pass and a `varchar` with any length. That neither occurs is an invariant of
the reading.

1. `ColumnDraft.Coherent`: a draft has only lengths that are digits, and values if it is an `enum`.
   Every way in which the reader changes a draft keeps this, in whatever order they follow one
   another, and a coherent draft builds a well-formed column.
2. `ColumnWalk.Coherent`: so are the draft and the finished columns of a walk; a step keeps it
   (`ColumnWalk.Coherent.step`), and so does a run (`ColumnWalk.Coherent.closes`).

`wellFormed_of_parseStatement` states what follows for every table that a statement defines.
-/

namespace TableScribe

/-! ## Columns -/

/-- One or more decimal digits, of any script, and nothing else. -/
def IsDigitRun (text : String) : Prop :=
  text ≠ "" ∧ ∀ c ∈ text.toList, Text.isDigit c = true

/-- A column has a name, a length only if it is a `varchar`, values exactly if it is an `enum`, and
no empty comment. -/
structure Column.WellFormed (column : Column) : Prop where
  name : column.name ≠ ""
  length : ∀ length, column.length = some length → column.type = .varchar ∧ IsDigitRun length
  values : column.values.isSome = true ↔ column.type = .enum
  comment : column.comment ≠ some ""

theorem nonEmpty_ne_some_empty (text : String) : nonEmpty text ≠ some "" := by
  intro h
  obtain ⟨rfl, hne⟩ := nonEmpty_eq_some.1 h
  exact hne rfl

theorem bind_nonEmpty_ne_some_empty (text : Option String) : text.bind nonEmpty ≠ some "" := by
  cases text with
  | none => simp
  | some text => exact nonEmpty_ne_some_empty text

namespace ColumnDraft

/-- The length of the draft, if it has one, is a run of digits, and as an `enum` it has values. -/
structure Coherent (draft : ColumnDraft) : Prop where
  length : ∀ length, draft.length = some length → IsDigitRun length
  values : draft.type = some .enum → draft.values.isSome = true

/-- What a finished column has of its draft. -/
theorem build_spec {draft : ColumnDraft} {column : Column} (h : draft.build = some column) :
    draft.type = some column.type ∧
      column.length = (if column.type = .varchar then draft.length.bind nonEmpty else none) ∧
      column.values = (if column.type = .enum then draft.values else none) ∧
      column.comment = draft.comment.bind nonEmpty := by
  unfold build at h
  split at h
  · rename_i name type hname htype
    rw [Option.some.injEq] at h
    subst h
    exact ⟨htype, rfl, rfl, rfl⟩
  · exact absurd h (by simp)

theorem coherent_empty : ({} : ColumnDraft).Coherent :=
  ⟨by simp, by simp⟩

namespace Coherent

variable {draft : ColumnDraft}

theorem setName (h : draft.Coherent) (name : String) : (draft.setName name).Coherent :=
  ⟨h.length, h.values⟩

theorem setDefault (h : draft.Coherent) (text : String) : (draft.setDefault text).Coherent :=
  ⟨h.length, h.values⟩

theorem setAutoIncrement (h : draft.Coherent) : draft.setAutoIncrement.Coherent :=
  ⟨h.length, h.values⟩

theorem setComment (h : draft.Coherent) (comment : String) : (draft.setComment comment).Coherent :=
  ⟨h.length, h.values⟩

theorem setValues (h : draft.Coherent) (values : List String) : (draft.setValues values).Coherent :=
  ⟨h.length, fun _ => rfl⟩

theorem setLength (h : draft.Coherent) {length : String} (hl : IsDigitRun length) :
    (draft.setLength length).Coherent := by
  refine ⟨fun found hfound => ?_, h.values⟩
  obtain rfl : length = found := by simpa [ColumnDraft.setLength] using hfound
  exact hl

/-- No key word by itself makes a column an `enum`. -/
theorem setType (h : draft.Coherent) {word : Keyword} {type : ColumnType}
    (ht : word.columnType? = some type) : (draft.setType type).Coherent := by
  refine ⟨h.length, fun henum => ?_⟩
  obtain rfl : type = .enum := by simpa [ColumnDraft.setType] using henum
  cases word <;> simp [Keyword.columnType?] at ht

theorem build (h : draft.Coherent) {column : Column} (hb : draft.build = some column) :
    column.WellFormed := by
  obtain ⟨htype, hlength, hvalues, hcomment⟩ := build_spec hb
  refine ⟨(name_of_build hb).2, fun length hl => ?_, ?_, ?_⟩
  · rw [hlength] at hl
    split at hl
    · rename_i hvarchar
      obtain ⟨text, htext, hkept⟩ := Option.bind_eq_some_iff.1 hl
      obtain ⟨rfl, -⟩ := nonEmpty_eq_some.1 hkept
      exact ⟨hvarchar, h.length _ htext⟩
    · exact absurd hl (by simp)
  · rw [hvalues]
    split
    · rename_i henum
      exact ⟨fun _ => henum, fun _ => h.values (by rw [htype, henum])⟩
    · rename_i hother
      exact ⟨fun hsome => absurd hsome (by simp), fun henum => absurd henum hother⟩
  · rw [hcomment]
    exact bind_nonEmpty_ne_some_empty draft.comment

end Coherent

end ColumnDraft

/-! ## Walks -/

/-- The token gives a length only if it is a run of digits. -/
def Token.HasDigits (token : Token) : Prop :=
  token.kind = .length → IsDigitRun token.unquoted

/-- The lexemes of the kind `length` are digits between parentheses. -/
theorem Token.IsLexeme.hasDigits {token : Token} (h : token.IsLexeme) : token.HasDigits := by
  intro hk
  obtain ⟨p, hp, hlexeme⟩ := h
  rw [hk] at hp
  have hlength : ∀ p ∈ Pattern.table, p.kind? = some .length → p = .length := by decide
  obtain rfl := hlength p hlexeme.starts.1 hp
  generalize htext : token.lexeme.toList = text at hlexeme
  cases hlexeme with
  | @length digits hne hall =>
    have hsays : token.Says (String.ofList digits) := by
      refine .enclosed (by rw [hk]; rfl) ?_
      rw [htext, String.toList_ofList]
    rw [Token.says_iff.1 hsays]
    refine ⟨?_, ?_⟩
    · rwa [Ne, String.ofList_eq_empty_iff]
    · rwa [String.toList_ofList]

namespace ColumnWalk

/-- The current draft is coherent and the finished columns are well formed. -/
structure Coherent (walk : ColumnWalk) : Prop where
  draft : ∀ draft, walk.draft = some draft → draft.Coherent
  columns : ∀ column ∈ walk.columns, column.WellFormed

theorem coherent_empty : ({} : ColumnWalk).Coherent :=
  ⟨by simp, by simp⟩

namespace Coherent

variable {walk : ColumnWalk}

theorem updateDraft (h : walk.Coherent) {change : ColumnDraft → ColumnDraft}
    (hc : ∀ draft : ColumnDraft, draft.Coherent → (change draft).Coherent) :
    (walk.updateDraft change).Coherent := by
  refine ⟨fun draft hdraft => ?_, h.columns⟩
  obtain ⟨old, hold, rfl⟩ := Option.map_eq_some_iff.1 hdraft
  exact hc old (h.draft old hold)

theorem openAt (h : walk.Coherent) (position : Nat) : (walk.openAt position).Coherent :=
  ⟨h.draft, h.columns⟩

theorem await (h : walk.Coherent) (awaiting : Awaiting) :
    ({ walk with awaiting } : ColumnWalk).Coherent :=
  ⟨h.draft, h.columns⟩

theorem name (h : walk.Coherent) (name : String) : (walk.name name).Coherent := by
  refine ⟨fun draft hdraft => ?_, h.columns⟩
  obtain rfl : (walk.draft.getD {}).setName name = draft := by
    simpa [ColumnWalk.name] using hdraft
  refine ColumnDraft.Coherent.setName ?_ name
  cases hw : walk.draft with
  | none => exact ColumnDraft.coherent_empty
  | some old => exact h.draft old hw

theorem finishColumn (h : walk.Coherent) : walk.finishColumn.Coherent := by
  refine ⟨fun draft hdraft => absurd hdraft (by simp [ColumnWalk.finishColumn]), ?_⟩
  intro column hmem
  rcases List.mem_append.1 hmem with hold | hnew
  · exact h.columns column hold
  · obtain ⟨draft, hdraft, hbuild⟩ := Option.bind_eq_some_iff.1 (Option.mem_toList.1 hnew)
    exact (h.draft draft hdraft).build hbuild

theorem keyword (h : walk.Coherent) (token : Token) (word : Keyword) :
    (walk.keyword token word).Coherent := by
  unfold ColumnWalk.keyword
  split
  · exact h.await .valueList
  · exact h.await .default
  · exact h.await .comment
  · exact h.updateDraft fun _ hd => hd.setAutoIncrement
  · split
    · exact h.updateDraft fun _ hd => hd.setDefault _
    · exact h
  · split
    · rename_i htype
      exact h.updateDraft fun _ hd => hd.setType htype
    · exact h

theorem defaultValue (h : walk.Coherent) (token : Token) : (walk.defaultValue token).Coherent := by
  unfold ColumnWalk.defaultValue
  split
  · exact h.updateDraft fun _ hd => hd.setDefault _
  · split
    · exact h.openAt token.start
    · exact h

end Coherent

/-- What a step leaves is coherent: the walk, or where the list ends, its columns. -/
def Step.Coherent : Step → Prop
  | .more walk _ => walk.Coherent
  | .closed columns _ => ∀ column ∈ columns, column.WellFormed
  | .failed _ => True
  | .refused _ => True

theorem Coherent.item {walk : ColumnWalk} (h : walk.Coherent) {token : Token}
    (ht : token.HasDigits) : (walk.item token).Coherent := by
  unfold ColumnWalk.item
  cases hk : token.kind with
  | leftParen => exact h.openAt token.start
  | rightParen =>
    dsimp only
    split
    · exact trivial
    · exact h.finishColumn.columns
    · exact ⟨h.draft, h.columns⟩
  | name =>
    dsimp only
    split
    · exact h.name token.unquoted
    · exact h
  | quotedName =>
    dsimp only
    split
    · exact h.name token.unquoted
    · exact h
  | length =>
    refine h.updateDraft fun draft hd => ?_
    split
    · exact hd.setLength (ht hk)
    · exact hd
  | realLiteral =>
    dsimp only
    split
    · exact h.updateDraft fun _ hd => hd.setDefault _
    · exact h
  | integerLiteral =>
    dsimp only
    split
    · exact h.updateDraft fun _ hd => hd.setDefault _
    · exact h
  | comma =>
    dsimp only
    split
    · exact h.finishColumn
    · exact h
  | keyword word => exact h.keyword token word
  | _ => exact h

theorem Coherent.step {walk : ColumnWalk} (h : walk.Coherent) {token : Token}
    (ht : token.HasDigits) : (walk.step token).Coherent := by
  unfold ColumnWalk.step
  cases walk.awaiting with
  | item => exact h.item ht
  | default => exact (h.await .item).defaultValue token
  | comment =>
    dsimp only
    split
    · exact (h.await .item).updateDraft fun _ hd => hd.setComment _
    · exact (h.await .item).item ht
  | valueList =>
    dsimp only
    split
    · exact h.await _
    · exact trivial
  | values scan =>
    dsimp only
    split
    · exact h.await _
    · exact (h.await .item).updateDraft fun _ hd => hd.setValues _

/-- The columns of a list that is read to its end are well formed. -/
theorem Coherent.closes {walk : ColumnWalk} {list : List Token} {columns : List Column}
    (h : walk.Coherent) (hc : Closes walk list columns) (ht : ∀ token ∈ list, token.HasDigits) :
    ∀ column ∈ columns, column.WellFormed := by
  induction hc with
  | @last walk token columns events hs =>
    have hstep := h.step (ht token List.mem_cons_self)
    rwa [hs] at hstep
  | @cons walk next token list columns events hs _ ih =>
    have hstep := h.step (ht token List.mem_cons_self)
    rw [hs] at hstep
    exact ih hstep fun other hmem => ht other (List.mem_cons_of_mem token hmem)

end ColumnWalk

/-! ## Statements -/

theorem comment_of_readOptions {cursor : Cursor} {state : OptionState} {given found : Option String}
    {tokens : List Token} {count : Nat} {events : List Event} (hg : given ≠ some "")
    (h : (readOptions cursor state given tokens count events).outcome = .ok found) :
    found ≠ some "" := by
  fun_induction readOptions cursor state given tokens count events with
  | case1 state comment count events =>
    injection h with h
    rwa [← h]
  | case2 state comment token rest count events he ih => exact ih hg h
  | case3 state comment token rest count events he hs ih =>
    exact ih (nonEmpty_ne_some_empty token.unquoted) h
  | case4 state comment token rest count events he hs hk =>
    injection h with h
    rwa [← h]
  | case5 state comment token rest count events he hs hk hc ih => exact ih hg h
  | case6 state comment token rest count events he hs hk hc ih => exact ih hg h

theorem comment_of_readTableOptions {strictness : Strictness} {cursor : Cursor}
    {comment : Option String} (h : (readTableOptions strictness cursor).outcome = .ok comment) :
    comment ≠ some "" := by
  unfold readTableOptions at h
  dsimp only at h
  split at h
  · exact absurd h (by simp)
  · exact comment_of_readOptions (by simp) h

theorem wellFormed_of_parseTokens {strictness : Strictness} {tokens : List Token} {table : Table}
    (ht : ∀ token ∈ tokens, token.HasDigits) (h : parseTokens strictness tokens = .ok table) :
    (∀ column ∈ table.columns, column.WellFormed) ∧ table.comment ≠ some "" := by
  obtain ⟨hstart, name, hname, hbody⟩ := readCreateTable_inv h
  rcases readBody_inv hbody with ⟨hs, -, hlist, hoptions⟩ | ⟨-, rfl⟩
  · refine ⟨?_, comment_of_readTableOptions hoptions⟩
    obtain ⟨list, hl, hcloses⟩ := (readColumnList_ok_iff hs).1 ⟨hlist, rfl⟩
    refine ColumnWalk.coherent_empty.closes hcloses fun token hmem => ht token ?_
    obtain ⟨read, hbehind, -⟩ := behind_of_readTableName hstart hname
    rw [hbehind.split, hl]
    exact List.mem_append_right read (List.mem_append_left _ hmem)
  · exact ⟨by simp, by simp⟩

/-- Every table that a statement defines has well-formed columns only, and no empty comment. -/
theorem wellFormed_of_parseStatement {strictness : Strictness} {statement : String} {table : Table}
    (h : parseStatement strictness statement = .ok table) :
    (∀ column ∈ table.columns, column.WellFormed) ∧ table.comment ≠ some "" := by
  unfold parseStatement at h
  cases hs : scan statement with
  | error fault =>
    rw [hs] at h
    exact absurd h (by simp)
  | ok tokens =>
    rw [hs] at h
    exact wellFormed_of_parseTokens (fun token hmem => (isLexeme_of_scan hs token hmem).hasDigits) h

/-- Here a length is followed by values, and so the column has lost it. -/
theorem wellFormed_of_parseStatement_retyped :
    ∃ table, parseStatement .strict "CREATE TABLE t (a VARCHAR(9) ENUM('x'), b VARCHAR(9))" =
        .ok table ∧
      table.columns.map (fun column => (column.type, column.length, column.values)) =
        [(.enum, none, some ["x"]), (.varchar, some "9", none)] ∧
      (∀ column ∈ table.columns, column.WellFormed) ∧ table.comment ≠ some "" := by
  have hscan : scan "CREATE TABLE t (a VARCHAR(9) ENUM('x'), b VARCHAR(9))" = .ok
      [⟨.keyword .create, "CREATE", 0, 6⟩, ⟨.keyword .table, "TABLE", 7, 12⟩, ⟨.name, "t", 13, 14⟩,
        ⟨.leftParen, "(", 15, 16⟩, ⟨.name, "a", 16, 17⟩, ⟨.keyword .varchar, "VARCHAR", 18, 25⟩,
        ⟨.length, "(9)", 25, 28⟩, ⟨.keyword .enum, "ENUM", 29, 33⟩, ⟨.leftParen, "(", 33, 34⟩,
        ⟨.stringLiteral, "'x'", 34, 37⟩, ⟨.rightParen, ")", 37, 38⟩, ⟨.comma, ",", 38, 39⟩,
        ⟨.name, "b", 40, 41⟩, ⟨.keyword .varchar, "VARCHAR", 42, 49⟩, ⟨.length, "(9)", 49, 52⟩,
        ⟨.rightParen, ")", 52, 53⟩] :=
    scan_eq_ok_of_toOption (by decide +kernel)
  have hparse : parseStatement .strict "CREATE TABLE t (a VARCHAR(9) ENUM('x'), b VARCHAR(9))" =
      .ok ⟨"t", [{ name := "a", type := .enum, values := some ["x"] },
        { name := "b", type := .varchar, length := some "9" }], none⟩ := by
    unfold parseStatement
    rw [hscan]
    rfl
  exact ⟨_, hparse, rfl, wellFormed_of_parseStatement hparse⟩

end TableScribe
