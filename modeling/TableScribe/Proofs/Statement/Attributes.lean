import TableScribe.Proofs.Statement.Parentheses

/-!
# What tokens state of a column

The draft of a column comes from what its tokens state one after another.

1. `Attribute`: one thing that tokens say of a column, with `Attribute.apply` for what it does to
   the draft.
2. `Awaiting.stated` and `Awaiting.next`: what the next token states and what the walk waits for
   behind it. Both depend on the token and on what the walk waits for; whether the walk is directly
   inside the outer parentheses matters for the first only, and neither depends on the draft or on
   the columns.
3. `takes_of_step`: apart from commas that finish a column, a step does no more to the walk than
   these two say.
-/

namespace TableScribe

/-- One thing that is said of a column. -/
inductive Attribute
  | name (text : String)
  | type (type : ColumnType)
  | length (text : String)
  | default (text : String)
  | values (values : List String)
  | autoIncrement
  | comment (text : String)
  deriving DecidableEq, Repr

/-- What the attribute does to the draft of the current column. A name starts a column where there
is none; a length is for a `VARCHAR` only. -/
def Attribute.apply : Attribute → Option ColumnDraft → Option ColumnDraft
  | .name text, draft => some ((draft.getD {}).setName text)
  | .type found, draft => draft.map (·.setType found)
  | .length text, draft =>
    draft.map fun draft => if draft.type = some .varchar then draft.setLength text else draft
  | .default text, draft => draft.map (·.setDefault text)
  | .values list, draft => draft.map (·.setValues list)
  | .autoIncrement, draft => draft.map (·.setAutoIncrement)
  | .comment text, draft => draft.map (·.setComment text)

def applyAttributes (attributes : List Attribute) (draft : Option ColumnDraft) :
    Option ColumnDraft :=
  attributes.foldl (fun draft stated => stated.apply draft) draft

theorem applyAttributes_append (first second : List Attribute) (draft : Option ColumnDraft) :
    applyAttributes (first ++ second) draft =
      applyAttributes second (applyAttributes first draft) :=
  List.foldl_append

/-- What the token states by itself. Names and bare values count at the top level only. -/
def Token.attribute? (topLevel : Bool) (token : Token) : Option Attribute :=
  match token.kind with
  | .name | .quotedName => if topLevel then some (.name token.unquoted) else none
  | .realLiteral | .integerLiteral | .keyword .currentTimestamp =>
    if topLevel then some (.default token.defaultText) else none
  | .length => some (.length token.unquoted)
  | .keyword .autoIncrement => some .autoIncrement
  | .keyword word => word.columnType?.map .type
  | _ => none

/-- What the token states to a walk that waits for it. -/
def Awaiting.stated (topLevel : Bool) : Awaiting → Token → Option Attribute
  | .item, token => token.attribute? topLevel
  | .default, token =>
    if token.kind.isDefaultValue then some (.default token.defaultText) else none
  | .comment, token =>
    if token.kind = .stringLiteral then some (.comment token.unquoted)
    else token.attribute? topLevel
  | .valueList, _ => none
  | .values scan, token =>
    match scan.step token with
    | .more _ => none
    | .closed found => some (.values found)

/-- What the walk waits for behind the token. -/
def Awaiting.next : Awaiting → Token → Awaiting
  | .item, token => token.awaited
  | .default, _ => .item
  | .comment, token => if token.kind = .stringLiteral then .item else token.awaited
  | .valueList, token => .values { openedAt := token.start }
  | .values scan, token =>
    match scan.step token with
    | .more scan => .values scan
    | .closed _ => .item

namespace Awaiting

variable {token : Token} (topLevel : Bool)

theorem comment_string (hk : token.kind = .stringLiteral) :
    Awaiting.stated topLevel .comment token = some (.comment token.unquoted) ∧
      Awaiting.next .comment token = .item :=
  ⟨if_pos hk, if_pos hk⟩

theorem comment_other (hk : token.kind ≠ .stringLiteral) :
    Awaiting.stated topLevel .comment token = token.attribute? topLevel ∧
      Awaiting.next .comment token = token.awaited :=
  ⟨if_neg hk, if_neg hk⟩

theorem values_more {scan next : ValueScan} (hs : scan.step token = .more next) :
    Awaiting.stated topLevel (.values scan) token = none ∧
      Awaiting.next (.values scan) token = .values next := by
  unfold Awaiting.stated Awaiting.next
  dsimp only
  rw [hs]
  exact ⟨rfl, rfl⟩

theorem values_closed {scan : ValueScan} {found : List String}
    (hs : scan.step token = .closed found) :
    Awaiting.stated topLevel (.values scan) token = some (.values found) ∧
      Awaiting.next (.values scan) token = .item := by
  unfold Awaiting.stated Awaiting.next
  dsimp only
  rw [hs]
  exact ⟨rfl, rfl⟩

end Awaiting

namespace ColumnWalk

/-- The walk `next` is `walk` after it has taken along what the token states. -/
structure Takes (walk : ColumnWalk) (token : Token) (next : ColumnWalk) : Prop where
  awaiting : next.awaiting = walk.awaiting.next token
  columns : next.columns = walk.columns
  draft : next.draft =
    applyAttributes (walk.awaiting.stated walk.isTopLevel token).toList walk.draft

section Takes

variable {walk next : ColumnWalk} {token : Token} {events : List Event}

theorem Takes.of_awaiting {awaiting : Awaiting} {stated : Option Attribute}
    (ha : walk.awaiting = awaiting) (hs : awaiting.stated walk.isTopLevel token = stated)
    (hw : next.awaiting = awaiting.next token) (hc : next.columns = walk.columns)
    (hd : next.draft = applyAttributes stated.toList walk.draft) : walk.Takes token next := by
  subst ha hs
  exact ⟨hw, hc, hd⟩

theorem takes_keyword {word : Keyword} (ha : walk.awaiting = .item)
    (hk : token.kind = .keyword word) : walk.Takes token (walk.keyword token word) := by
  refine .of_awaiting ha rfl ((walk.keyword_spec hk).2 ha) ?_ ?_
  · cases word with
    | currentTimestamp =>
      unfold keyword
      dsimp only
      split <;> rfl
    | _ => rfl
  · show _ = applyAttributes (token.attribute? walk.isTopLevel).toList walk.draft
    unfold Token.attribute?
    rw [hk]
    cases word with
    | currentTimestamp =>
      unfold keyword
      dsimp only
      split <;> rfl
    | _ => rfl

/-- A token that is no key word leaves the walk waiting for another item. -/
theorem Takes.of_item (ha : walk.awaiting = .item) (hk : ∀ word, token.kind ≠ .keyword word)
    (hw : next.awaiting = walk.awaiting) (hc : next.columns = walk.columns)
    (hd : next.draft = applyAttributes (token.attribute? walk.isTopLevel).toList walk.draft) :
    walk.Takes token next := by
  have hawaited : token.awaited = .item := by
    unfold Token.awaited
    split
    · exact absurd ‹_› (hk _)
    · exact absurd ‹_› (hk _)
    · exact absurd ‹_› (hk _)
    · rfl
  exact .of_awaiting ha rfl ((hw.trans ha).trans hawaited.symm) hc hd

theorem takes_item (ha : walk.awaiting = .item)
    (hc : token.kind = .comma → walk.isTopLevel = false)
    (h : walk.item token = .more next events) : walk.Takes token next := by
  unfold item at h
  cases hk : token.kind with
  | keyword word =>
    rw [hk, Step.more.injEq] at h
    rw [← h.1]
    exact takes_keyword ha hk
  | rightParen =>
    rw [hk] at h
    dsimp only at h
    split at h
    · exact absurd h (by simp)
    · exact absurd h (by simp)
    · rw [Step.more.injEq] at h
      rw [← h.1]
      refine .of_item ha (by simp [hk]) rfl rfl ?_
      unfold Token.attribute?
      rw [hk]
      rfl
  | comma =>
    rw [hk, hc hk] at h
    dsimp only at h
    rw [if_neg Bool.false_ne_true, Step.more.injEq] at h
    rw [← h.1]
    refine .of_item ha (by simp [hk]) rfl rfl ?_
    unfold Token.attribute?
    rw [hk]
    rfl
  | name | quotedName | realLiteral | integerLiteral =>
    rw [hk] at h
    dsimp only at h
    -- Directly inside the outer parentheses the token counts, deeper it does not.
    split at h
    all_goals
      rename_i htop
      rw [Step.more.injEq] at h
      rw [← h.1]
      refine .of_item ha (by simp [hk]) rfl rfl ?_
      unfold Token.attribute?
      rw [hk]
      simp only [htop]
      rfl
  | _ =>
    rw [hk, Step.more.injEq] at h
    rw [← h.1]
    refine .of_item ha (by simp [hk]) rfl rfl ?_
    unfold Token.attribute?
    rw [hk]
    rfl

theorem takes_default (ha : walk.awaiting = .default) :
    walk.Takes token (({ walk with awaiting := .item } : ColumnWalk).defaultValue token) := by
  unfold defaultValue
  by_cases hv : token.kind.isDefaultValue = true
  · rw [if_pos hv]
    exact .of_awaiting ha (if_pos hv) rfl rfl rfl
  · rw [if_neg hv]
    split
    · exact .of_awaiting ha (if_neg hv) rfl rfl rfl
    · exact .of_awaiting ha (if_neg hv) rfl rfl rfl

theorem takes_comment (ha : walk.awaiting = .comment)
    (hc : token.kind = .comma → walk.isTopLevel = false)
    (h : walk.step token = .more next events) : walk.Takes token next := by
  by_cases hk : token.kind = .stringLiteral
  · obtain ⟨hstated, hnext⟩ := Awaiting.comment_string walk.isTopLevel hk
    rw [step_comment ha hk, Step.more.injEq] at h
    rw [← h.1]
    exact .of_awaiting ha hstated hnext.symm rfl rfl
  · obtain ⟨hstated, hnext⟩ := Awaiting.comment_other walk.isTopLevel hk
    rw [step_no_comment ha hk] at h
    have hitem : ({ walk with awaiting := .item } : ColumnWalk).Takes token next :=
      takes_item rfl hc h
    exact .of_awaiting ha hstated (hitem.awaiting.trans hnext.symm) hitem.columns hitem.draft

theorem takes_valueList (ha : walk.awaiting = .valueList)
    (h : walk.step token = .more next events) : walk.Takes token next := by
  by_cases hk : token.kind = .leftParen
  · rw [step_valueList ha hk, Step.more.injEq] at h
    rw [← h.1]
    exact .of_awaiting ha rfl rfl rfl rfl
  · rw [step_no_valueList ha hk] at h
    exact absurd h (by simp)

theorem takes_values {scan : ValueScan} (ha : walk.awaiting = .values scan)
    (h : walk.step token = .more next events) : walk.Takes token next := by
  cases hs : scan.step token with
  | more after =>
    obtain ⟨hstated, hnext⟩ := Awaiting.values_more walk.isTopLevel hs
    rw [step_values ha hs, Step.more.injEq] at h
    rw [← h.1]
    exact .of_awaiting ha hstated hnext.symm rfl rfl
  | closed found =>
    obtain ⟨hstated, hnext⟩ := Awaiting.values_closed walk.isTopLevel hs
    rw [step_values_closed ha hs, Step.more.injEq] at h
    rw [← h.1]
    exact .of_awaiting ha hstated hnext.symm rfl rfl

/-- Apart from a comma directly inside the outer parentheses, a step takes along what its token
states and does nothing else to the column and to those before it. -/
theorem takes_of_step (hc : token.kind = .comma → walk.isTopLevel = false)
    (h : walk.step token = .more next events) : walk.Takes token next := by
  cases ha : walk.awaiting with
  | item =>
    rw [step_item ha] at h
    exact takes_item ha hc h
  | default =>
    rw [step_default ha, Step.more.injEq] at h
    rw [← h.1]
    exact takes_default ha
  | comment => exact takes_comment ha hc h
  | valueList => exact takes_valueList ha h
  | values scan => exact takes_values ha h

end Takes

end ColumnWalk

end TableScribe
