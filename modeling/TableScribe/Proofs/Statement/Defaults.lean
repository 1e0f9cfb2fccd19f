import TableScribe.Proofs.Statement.Causes
import TableScribe.Proofs.Statement.DefaultClause
import TableScribe.Proofs.Statement.Parts

/-!
# Where the defaults of columns come from

Whatever a statement looks like, its columns have no default that none of its tokens gives.

1. `takes_or_finishes`: a step that goes on takes along what its token states, or finishes a column.
2. `ColumnWalk.Draws`: every default of the draft and of the finished columns is a given one. A step
   keeps this (`ColumnWalk.Draws.step`), and so does a run (`ColumnWalk.Draws.closes`).

`defaults_of_parseStatement` states what follows for the tables that statements define.
-/

namespace TableScribe

open Pattern (IsInteger IsReal Lexeme)

/-! ## Defaults and attributes -/

/-- A default that a token states by itself it also states behind `DEFAULT`. -/
theorem statedValue?_of_bareValue? {token : Token} {text : String}
    (h : token.bareValue? = some text) : token.statedValue? = some text := by
  unfold Token.bareValue? at h
  unfold Token.statedValue?
  split at h
  · rename_i hinline
    rw [if_pos (Bool.and_eq_true_iff.1 hinline).1]
    exact h
  · exact absurd h (by simp)

/-- Whatever a walk waits for, only a default value states a default. -/
theorem statedValue?_of_stated {awaiting : Awaiting} {topLevel : Bool} {token : Token}
    {text : String} (h : (awaiting.stated topLevel token).bind Attribute.default? = some text) :
    token.statedValue? = some text := by
  have hattribute : (token.attribute? topLevel).bind Attribute.default? = some text →
      token.statedValue? = some text := by
    intro h
    rw [default?_attribute?] at h
    split at h
    · exact statedValue?_of_bareValue? h
    · exact absurd h (by simp)
  cases awaiting with
  | item => exact hattribute h
  | default => exact (Facet.default.value topLevel token).symm.trans h
  | comment =>
    by_cases hk : token.kind = .stringLiteral
    · rw [(Awaiting.comment_string topLevel hk).1] at h
      exact absurd h (by simp [Attribute.default?])
    · rw [(Awaiting.comment_other topLevel hk).1] at h
      exact hattribute h
  | valueList => exact absurd h (by simp [Awaiting.stated])
  | values scan =>
    cases hs : scan.step token with
    | more next =>
      rw [(Awaiting.values_more topLevel hs).1] at h
      exact absurd h (by simp)
    | closed found =>
      rw [(Awaiting.values_closed topLevel hs).1] at h
      exact absurd h (by simp [Attribute.default?])

/-- The default of a draft is the one that was stated last, or the one that it had. -/
theorem default_of_apply {stated : Attribute} {draft : Option ColumnDraft} {last : ColumnDraft}
    {text : String} (h : stated.apply draft = some last) (ht : last.default = some text) :
    stated.default? = some text ∨ ∃ old, draft = some old ∧ old.default = some text := by
  cases draft with
  | none =>
    -- Nothing but a name makes a draft of none, and that draft has no default.
    cases stated with
    | name name =>
      rw [← Option.some.inj h] at ht
      exact absurd ht (by simp [ColumnDraft.setName])
    | _ => exact absurd h (by simp [Attribute.apply])
  | some old =>
    rw [(Attribute.parts_of_apply h).2] at ht
    exact (Option.or_eq_some_iff.1 ht).imp_right fun hold => ⟨old, rfl, hold.2⟩

/-- A column has the default of its draft. -/
theorem default_of_build {draft : ColumnDraft} {column : Column}
    (h : draft.build = some column) : column.default = draft.default := by
  unfold ColumnDraft.build at h
  split at h
  · rw [← Option.some.inj h]
  · exact absurd h (by simp)

/-! ## Steps -/

namespace ColumnWalk

section Steps

variable {walk next : ColumnWalk} {token : Token} {columns : List Column} {events : List Event}

theorem item_comma (hk : token.kind = .comma) (ht : walk.isTopLevel = true) :
    walk.item token = .more walk.finishColumn walk.droppedDraft := by
  unfold item
  rw [hk]
  exact if_pos ht

/-- A step that goes on takes along what its token states, or finishes the column. -/
theorem takes_or_finishes (h : walk.step token = .more next events) :
    walk.Takes token next ∨ next.draft = none ∧ next.columns = walk.finishColumn.columns := by
  by_cases hcomma : token.kind = .comma ∧ walk.isTopLevel = true
  · obtain ⟨hk, ht⟩ := hcomma
    cases ha : walk.awaiting with
    | item =>
      rw [step_item ha, item_comma hk ht, Step.more.injEq] at h
      rw [← h.1]
      exact .inr ⟨rfl, rfl⟩
    | default =>
      rw [step_default ha, Step.more.injEq] at h
      rw [← h.1]
      exact .inl (takes_default ha)
    | comment =>
      have hitem : ({ walk with awaiting := .item } : ColumnWalk).item token = _ :=
        item_comma hk ht
      rw [step_no_comment ha (by simp [hk]), hitem, Step.more.injEq] at h
      rw [← h.1]
      exact .inr ⟨rfl, rfl⟩
    | valueList => exact .inl (takes_valueList ha h)
    | values scan => exact .inl (takes_values ha h)
  · exact .inl (takes_of_step (fun hk => Bool.eq_false_iff.2 fun ht => hcomma ⟨hk, ht⟩) h)

theorem columns_of_item_closed (walk : ColumnWalk) (awaiting : Awaiting)
    (h : ({ walk with awaiting } : ColumnWalk).item token = .closed columns events) :
    columns = walk.finishColumn.columns := by
  have hk := kind_of_item_closed h
  unfold item at h
  rw [hk] at h
  dsimp only at h
  split at h
  · exact absurd h (by simp)
  · rw [Step.closed.injEq] at h
    exact h.1.symm
  · exact absurd h (by simp)

/-- The parenthesis that closes a list finishes the column. -/
theorem columns_of_closed (h : walk.step token = .closed columns events) :
    columns = walk.finishColumn.columns := by
  unfold step at h
  split at h
  · exact columns_of_item_closed walk walk.awaiting h
  · exact absurd h (by simp)
  · dsimp only at h
    split at h
    · exact absurd h (by simp)
    · exact columns_of_item_closed walk .item h
  · split at h <;> exact absurd h (by simp)
  · split at h <;> exact absurd h (by simp)

end Steps

/-! ## Walks -/

/-- Every default of the draft and of the finished columns is one of the given. -/
structure Draws (walk : ColumnWalk) (given : String → Prop) : Prop where
  draft : ∀ draft, walk.draft = some draft → ∀ text, draft.default = some text → given text
  columns : ∀ column ∈ walk.columns, ∀ text, column.default = some text → given text

namespace Draws

variable {walk next : ColumnWalk} {given : String → Prop} {token : Token}

theorem empty : ({} : ColumnWalk).Draws given :=
  ⟨by simp, by simp⟩

/-- A finished column has the default of its draft. -/
theorem finishColumn (h : walk.Draws given) : walk.finishColumn.Draws given := by
  refine ⟨fun draft hdraft => absurd hdraft (by simp [ColumnWalk.finishColumn]), ?_⟩
  intro column hmem text htext
  rcases List.mem_append.1 hmem with hold | hnew
  · exact h.columns column hold text htext
  · obtain ⟨draft, hdraft, hbuild⟩ := Option.bind_eq_some_iff.1 (Option.mem_toList.1 hnew)
    refine h.draft draft hdraft text ?_
    rwa [← default_of_build hbuild]

theorem takes (h : walk.Draws given) (ht : ∀ text, token.statedValue? = some text → given text)
    (hn : walk.Takes token next) : next.Draws given := by
  refine ⟨fun draft hdraft text htext => ?_, hn.columns ▸ h.columns⟩
  rw [hn.draft] at hdraft
  cases hstated : walk.awaiting.stated walk.isTopLevel token with
  | none =>
    rw [hstated] at hdraft
    exact h.draft draft hdraft text htext
  | some stated =>
    rw [hstated] at hdraft
    rcases default_of_apply hdraft htext with hnew | ⟨old, hold, hkept⟩
    · exact ht text (statedValue?_of_stated (by rw [hstated]; exact hnew))
    · exact h.draft old hold text hkept

theorem step (h : walk.Draws given) (ht : ∀ text, token.statedValue? = some text → given text)
    {events : List Event} (hn : walk.step token = .more next events) : next.Draws given := by
  rcases takes_or_finishes hn with htakes | ⟨hdraft, hcolumns⟩
  · exact h.takes ht htakes
  · exact ⟨fun draft hsome => absurd (hdraft.symm.trans hsome) (by simp),
      hcolumns ▸ h.finishColumn.columns⟩

/-- The defaults of a list that is read to its end are given by its tokens. -/
theorem closes (h : walk.Draws given) {list : List Token} {columns : List Column}
    (hc : Closes walk list columns)
    (ht : ∀ token ∈ list, ∀ text, token.statedValue? = some text → given text) :
    ∀ column ∈ columns, ∀ text, column.default = some text → given text := by
  induction hc with
  | last hs =>
    rw [columns_of_closed hs]
    exact h.finishColumn.columns
  | @cons walk next token list columns events hs _ ih =>
    exact ih (h.step (ht token List.mem_cons_self) hs) fun other hmem =>
      ht other (List.mem_cons_of_mem token hmem)

end Draws

end ColumnWalk

/-! ## Statements -/

theorem defaults_of_parseTokens {strictness : Strictness} {tokens : List Token} {table : Table}
    (h : parseTokens strictness tokens = .ok table) :
    ∀ column ∈ table.columns, ∀ text, column.default = some text →
      ∃ token ∈ tokens, token.statedValue? = some text := by
  obtain ⟨hstart, name, hname, hbody⟩ := readCreateTable_inv h
  rcases readBody_inv hbody with ⟨hs, -, hlist, -⟩ | ⟨-, rfl⟩
  · obtain ⟨list, hl, hcloses⟩ := (readColumnList_ok_iff hs).1 ⟨hlist, rfl⟩
    refine ColumnWalk.Draws.empty.closes hcloses fun token hmem text htext => ⟨token, ?_, htext⟩
    obtain ⟨read, hbehind, -⟩ := behind_of_readTableName hstart hname
    rw [hbehind.split, hl]
    exact List.mem_append_right read (List.mem_append_left _ hmem)
  · simp

/-- The lexemes of the two kinds of numbers. -/
theorem Token.IsLexeme.number {token : Token} (h : token.IsLexeme)
    (hk : token.kind = .integerLiteral ∨ token.kind = .realLiteral) :
    IsInteger token.lexeme.toList ∨ IsReal token.lexeme.toList := by
  have hpatterns : ∀ p ∈ Pattern.table,
      (p.kind? = some .integerLiteral → p = .integer) ∧
        (p.kind? = some .realLiteral → p = .real) := by
    decide
  obtain ⟨p, hp, hlexeme⟩ := h
  obtain ⟨hinteger, hreal⟩ := hpatterns p hlexeme.starts.1
  generalize token.lexeme.toList = text at hlexeme ⊢
  rcases hk with hk | hk
  · obtain rfl := hinteger (hk ▸ hp)
    cases hlexeme with
    | integer h => exact .inl h
  · obtain rfl := hreal (hk ▸ hp)
    cases hlexeme with
    | real h => exact .inr h

/-- Every default in a table that a statement defines is one that a token of the statement gives. -/
theorem defaults_of_parseStatement {strictness : Strictness} {statement : String} {table : Table}
    (h : parseStatement strictness statement = .ok table) :
    ∃ tokens, scan statement = .ok tokens ∧
      ∀ column ∈ table.columns, ∀ text, column.default = some text →
        ∃ token ∈ tokens, token.statedValue? = some text := by
  unfold parseStatement at h
  cases hs : scan statement with
  | error fault =>
    rw [hs] at h
    exact absurd h (by simp)
  | ok tokens =>
    rw [hs] at h
    exact ⟨tokens, rfl, defaults_of_parseTokens h⟩

end TableScribe
