import TableScribe.Statement.CreateTable

/-!
# Walks over a column list

`ColumnWalk.step` takes one token. Here its steps are put together:

1. `Runs walk tokens last`: the list goes on after each of the tokens and the walk is `last` then.
2. `Closes walk list columns`: the list goes on up to the last token of `list`, which closes it.

`readColumnList_ok_iff` states the reading of a column list in these terms: no other tokens than
those of a closing run are read, and those that follow do not matter. What carries it is that a walk
inside the outer parentheses stays inside them as long as the list goes on.
-/

namespace TableScribe

/-- What a token that is looked at as an attribute makes the walk wait for. -/
def Token.awaited (token : Token) : Awaiting :=
  match token.kind with
  | .keyword .enum => .valueList
  | .keyword .default => .default
  | .keyword .comment => .comment
  | _ => .item

namespace ColumnWalk

/-- The walk takes the tokens one after another, and the list goes on after each of them. -/
inductive Runs : ColumnWalk → List Token → ColumnWalk → Prop
  | nil {walk : ColumnWalk} : Runs walk [] walk
  | cons {walk next last : ColumnWalk} {token : Token} {tokens : List Token} {events : List Event}
      (h : walk.step token = .more next events) (ht : Runs next tokens last) :
      Runs walk (token :: tokens) last

/-- The walk takes the tokens one after another, and the last of them closes the list. -/
inductive Closes : ColumnWalk → List Token → List Column → Prop
  | last {walk : ColumnWalk} {token : Token} {columns : List Column} {events : List Event}
      (h : walk.step token = .closed columns events) : Closes walk [token] columns
  | cons {walk next : ColumnWalk} {token : Token} {tokens : List Token} {columns : List Column}
      {events : List Event} (h : walk.step token = .more next events)
      (ht : Closes next tokens columns) : Closes walk (token :: tokens) columns

theorem Runs.single {walk next : ColumnWalk} {token : Token} {events : List Event}
    (h : walk.step token = .more next events) : Runs walk [token] next :=
  .cons h .nil

theorem Runs.append {walk middle last : ColumnWalk} {first second : List Token}
    (h1 : Runs walk first middle) (h2 : Runs middle second last) :
    Runs walk (first ++ second) last := by
  induction h1 with
  | nil => exact h2
  | cons h _ ih => exact .cons h (ih h2)

theorem Runs.exists_of_append {walk last : ColumnWalk} {first second : List Token}
    (h : Runs walk (first ++ second) last) :
    ∃ middle, Runs walk first middle ∧ Runs middle second last := by
  induction first generalizing walk with
  | nil => exact ⟨walk, .nil, h⟩
  | cons token first ih =>
    rw [List.cons_append] at h
    cases h with
    | cons hs ht =>
      obtain ⟨middle, hfirst, hsecond⟩ := ih ht
      exact ⟨middle, .cons hs hfirst, hsecond⟩

/-- A walk takes the same tokens in one way only. -/
theorem Runs.unique {walk last other : ColumnWalk} {tokens : List Token}
    (h : Runs walk tokens last) (ho : Runs walk tokens other) : last = other := by
  induction h with
  | nil =>
    cases ho
    rfl
  | cons hs _ ih =>
    cases ho with
    | cons hother ht =>
      rw [hs, Step.more.injEq] at hother
      exact ih (hother.1 ▸ ht)

theorem Runs.closes {walk middle : ColumnWalk} {first second : List Token} {columns : List Column}
    (h1 : Runs walk first middle) (h2 : Closes middle second columns) :
    Closes walk (first ++ second) columns := by
  induction h1 with
  | nil => exact h2
  | cons h _ ih => exact .cons h (ih h2)

/-! ## Steps by what the walk waits for -/

section Steps

variable {walk : ColumnWalk} {token : Token}

theorem step_item (ha : walk.awaiting = .item) : walk.step token = walk.item token := by
  unfold step
  rw [ha]

theorem step_default (ha : walk.awaiting = .default) :
    walk.step token =
      .more (({ walk with awaiting := .item } : ColumnWalk).defaultValue token) [] := by
  unfold step
  rw [ha]

theorem step_comment (ha : walk.awaiting = .comment) (hk : token.kind = .stringLiteral) :
    walk.step token =
      .more (({ walk with awaiting := .item } : ColumnWalk).updateDraft
        (·.setComment token.unquoted)) [] := by
  unfold step
  rw [ha]
  exact if_pos hk

/-- Without a text after it, `COMMENT` is as good as not there. -/
theorem step_no_comment (ha : walk.awaiting = .comment) (hk : token.kind ≠ .stringLiteral) :
    walk.step token = ({ walk with awaiting := .item } : ColumnWalk).item token := by
  unfold step
  rw [ha]
  exact if_neg hk

theorem step_valueList (ha : walk.awaiting = .valueList) (hk : token.kind = .leftParen) :
    walk.step token = .more { walk with awaiting := .values { openedAt := token.start } } [] := by
  unfold step
  rw [ha]
  exact if_pos hk

theorem step_no_valueList (ha : walk.awaiting = .valueList) (hk : token.kind ≠ .leftParen) :
    walk.step token = .refused (.unexpectedToken .valueList token.lexeme token.start) := by
  unfold step
  rw [ha]
  exact if_neg hk

theorem step_values {scan next : ValueScan} (ha : walk.awaiting = .values scan)
    (hs : scan.step token = .more next) :
    walk.step token = .more { walk with awaiting := .values next } [] := by
  unfold step
  rw [ha]
  dsimp only
  rw [hs]

theorem step_values_closed {scan : ValueScan} {values : List String}
    (ha : walk.awaiting = .values scan) (hs : scan.step token = .closed values) :
    walk.step token =
      .more (({ walk with awaiting := .item } : ColumnWalk).updateDraft (·.setValues values))
        [.enumValues values] := by
  unfold step
  rw [ha]
  dsimp only
  rw [hs]

end Steps

/-! ## The outer parentheses stay open -/

theorem keyword_spec (walk : ColumnWalk) {token : Token} {word : Keyword}
    (hk : token.kind = .keyword word) :
    (walk.keyword token word).opened = walk.opened ∧
      (walk.awaiting = .item → (walk.keyword token word).awaiting = token.awaited) := by
  unfold Token.awaited
  rw [hk]
  cases word with
  | enum => exact ⟨rfl, fun _ => rfl⟩
  | default => exact ⟨rfl, fun _ => rfl⟩
  | comment => exact ⟨rfl, fun _ => rfl⟩
  | currentTimestamp =>
    unfold keyword
    dsimp only
    split
    · exact ⟨rfl, id⟩
    · exact ⟨rfl, id⟩
  | _ => exact ⟨rfl, id⟩

/-- A token that is no parenthesis leaves the open parentheses as they are, and only certain key
words make the walk wait. -/
theorem item_of_no_paren (walk : ColumnWalk) {token : Token} (hl : token.kind ≠ .leftParen)
    (hr : token.kind ≠ .rightParen) :
    ∃ next events, walk.item token = .more next events ∧ next.opened = walk.opened ∧
      (walk.awaiting = .item → next.awaiting = token.awaited) := by
  cases hk : token.kind with
  | leftParen => exact absurd hk hl
  | rightParen => exact absurd hk hr
  | keyword word =>
    obtain ⟨hopened, hawaiting⟩ := walk.keyword_spec hk
    exact ⟨_, [], by unfold item; rw [hk], hopened, hawaiting⟩
  | _ =>
    have ha : token.awaited = .item := by unfold Token.awaited; rw [hk]
    unfold item
    rw [hk, ha]
    dsimp only
    try split
    all_goals exact ⟨_, _, rfl, rfl, id⟩

theorem opened_ne_nil_of_item {walk next : ColumnWalk} {token : Token} {events : List Event}
    (h : walk.item token = .more next events) (ho : walk.opened ≠ []) : next.opened ≠ [] := by
  by_cases hl : token.kind = .leftParen
  · unfold item at h
    rw [hl, Step.more.injEq] at h
    rw [← h.1]
    exact List.cons_ne_nil _ _
  by_cases hr : token.kind = .rightParen
  · unfold item at h
    rw [hr] at h
    dsimp only at h
    split at h
    · exact absurd h (by simp)
    · exact absurd h (by simp)
    · rename_i outer hne _
      rw [Step.more.injEq] at h
      rw [← h.1]
      exact hne
  obtain ⟨other, noted, hi, hopened, -⟩ := walk.item_of_no_paren hl hr
  rw [hi, Step.more.injEq] at h
  rw [← h.1, hopened]
  exact ho

theorem opened_ne_nil_of_step {walk next : ColumnWalk} {token : Token} {events : List Event}
    (h : walk.step token = .more next events) (ho : walk.opened ≠ []) : next.opened ≠ [] := by
  unfold step at h
  split at h
  · exact opened_ne_nil_of_item h ho
  · rw [Step.more.injEq] at h
    rw [← h.1]
    unfold defaultValue
    split
    · exact ho
    · split
      · exact List.cons_ne_nil _ _
      · exact ho
  · dsimp only at h
    split at h
    · rw [Step.more.injEq] at h
      rw [← h.1]
      exact ho
    · exact opened_ne_nil_of_item h ho
  · split at h
    · rw [Step.more.injEq] at h
      rw [← h.1]
      exact ho
    · exact absurd h (by simp)
  · split at h
    · rw [Step.more.injEq] at h
      rw [← h.1]
      exact ho
    · rw [Step.more.injEq] at h
      rw [← h.1]
      exact ho

theorem kind_of_item_closed {walk : ColumnWalk} {token : Token} {columns : List Column}
    {events : List Event} (h : walk.item token = .closed columns events) :
    token.kind = .rightParen := by
  by_cases hr : token.kind = .rightParen
  · exact hr
  by_cases hl : token.kind = .leftParen
  · unfold item at h
    rw [hl] at h
    exact absurd h (by simp)
  obtain ⟨next, noted, hi, -⟩ := walk.item_of_no_paren hl hr
  rw [hi] at h
  exact absurd h (by simp)

theorem kind_of_closed {walk : ColumnWalk} {token : Token} {columns : List Column}
    {events : List Event} (h : walk.step token = .closed columns events) :
    token.kind = .rightParen := by
  unfold step at h
  split at h
  · exact kind_of_item_closed h
  · exact absurd h (by simp)
  · dsimp only at h
    split at h
    · exact absurd h (by simp)
    · exact kind_of_item_closed h
  · split at h <;> exact absurd h (by simp)
  · split at h <;> exact absurd h (by simp)

/-- A list is closed by a parenthesis. -/
theorem Closes.getLast {walk : ColumnWalk} {list : List Token} {columns : List Column}
    (h : Closes walk list columns) :
    ∃ inner close, list = inner ++ [close] ∧ close.kind = .rightParen := by
  induction h with
  | last h => exact ⟨[], _, rfl, kind_of_closed h⟩
  | @cons _ _ token _ _ _ _ _ ih =>
    obtain ⟨inner, close, rfl, hk⟩ := ih
    exact ⟨token :: inner, close, rfl, hk⟩

theorem atEnd_ne_ok {walk : ColumnWalk} (ho : walk.opened ≠ []) (finish : Nat)
    (columns : List Column) : walk.atEnd finish ≠ .ok columns := by
  unfold atEnd
  split
  · simp
  · simp
  · split
    · simp
    · exact absurd ‹_› ho

end ColumnWalk

/-! ## The reading of a column list -/

open ColumnWalk

theorem readColumns_of_closes {walk : ColumnWalk} {list : List Token} {columns : List Column}
    (h : Closes walk list columns) (cursor : Cursor) (rest : List Token) (count : Nat)
    (events : List Event) :
    (readColumns cursor walk (list ++ rest) count events).outcome = .ok columns ∧
      (readColumns cursor walk (list ++ rest) count events).cursor.rest = rest := by
  induction h generalizing count events with
  | last h =>
    rw [List.singleton_append, readColumns, h]
    exact ⟨rfl, rfl⟩
  | cons h _ ih =>
    rw [List.cons_append, readColumns, h]
    exact ih _ _

theorem closes_of_readColumns {cursor : Cursor} {walk : ColumnWalk} {tokens : List Token}
    {count : Nat} {events : List Event} {columns : List Column} (ho : walk.opened ≠ [])
    (h : (readColumns cursor walk tokens count events).outcome = .ok columns) :
    ∃ list, tokens = list ++ (readColumns cursor walk tokens count events).cursor.rest ∧
      Closes walk list columns := by
  induction tokens generalizing walk count events with
  | nil =>
    rw [readColumns] at h
    exact absurd h (atEnd_ne_ok ho _ _)
  | cons token rest ih =>
    rw [readColumns] at h ⊢
    cases hs : walk.step token with
    | more next noted =>
      rw [hs] at h
      obtain ⟨list, hl, hc⟩ := ih (opened_ne_nil_of_step hs ho) h
      refine ⟨token :: list, ?_, .cons hs hc⟩
      rw [List.cons_append, ← hl]
    | closed found noted =>
      rw [hs] at h
      injection h with h
      subst h
      exact ⟨[token], rfl, .last hs⟩
    | failed fault =>
      rw [hs] at h
      exact absurd h (by simp)
    | refused fault =>
      rw [hs] at h
      exact absurd h (by simp)

theorem step_start {token : Token} (hk : token.kind = .leftParen) :
    ({} : ColumnWalk).step token = .more { opened := [token.start] } [] := by
  show ({} : ColumnWalk).item token = _
  unfold item
  rw [hk]
  rfl

/-- A column list is read exactly as far as a closing run from its opening parenthesis goes. -/
theorem readColumnList_ok_iff {cursor : Cursor} {columns : List Column} {rest : List Token}
    (hs : startsList cursor.rest = true) :
    ((readColumnList cursor).outcome = .ok columns ∧ (readColumnList cursor).cursor.rest = rest) ↔
      ∃ list, cursor.rest = list ++ rest ∧ Closes {} list columns := by
  unfold readColumnList
  constructor
  · rintro ⟨h, rfl⟩
    cases hr : cursor.rest with
    | nil => rw [hr] at hs; exact absurd hs (by simp [startsList])
    | cons token tokens =>
      rw [hr] at hs h
      have hk : token.kind = .leftParen := by simpa [startsList] using hs
      rw [readColumns, step_start hk] at h ⊢
      obtain ⟨list, hl, hc⟩ := closes_of_readColumns (List.cons_ne_nil _ _) h
      refine ⟨token :: list, ?_, .cons (step_start hk) hc⟩
      rw [List.cons_append, ← hl]
  · rintro ⟨list, hl, hc⟩
    rw [hl]
    exact readColumns_of_closes hc cursor rest 0 []

end TableScribe
