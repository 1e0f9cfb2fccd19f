import TableScribe.Proofs.Statement.Definitions
import TableScribe.Proofs.Statement.Joining

/-!
# A column list segment by segment

Between two commas of a column list, the walk knows nothing of what stood before: a segment gives
the columns that it gives in a list of its own (`readsAs_of_segments`). The segments are any tokens
that can be read alone, whether they define a column or not.

1. Columns that are finished stay in front and have no influence (`step_behind`), and the places of
   parentheses have none either (`Runs.alike`).
2. A list is closed by a parenthesis only where the walk is directly inside the outer ones and can
   take it as an item (`Rests`). A comma in the place of that parenthesis finishes the same column
   and leaves the walk as it is at the beginning of a list.
3. `Yields` is the reading of a segment wherever it stands. It follows from the reading alone
   (`yields_of_alone`) and puts lists together (`closes_of_yields`).
-/

namespace TableScribe

open ColumnWalk

/-! ## Columns that are finished already -/

namespace ColumnWalk

/-- The walk with other columns finished before its own. -/
def behind (walk : ColumnWalk) (before : List Column) : ColumnWalk :=
  { walk with columns := before ++ walk.columns }

/-- The step with other columns finished before it. -/
def Step.behind (before : List Column) : Step → Step
  | .more walk events => .more (walk.behind before) events
  | .closed columns events => .closed (before ++ columns) events
  | .failed fault => .failed fault
  | .refused fault => .refused fault

theorem finishColumn_behind (walk : ColumnWalk) (before : List Column) :
    (walk.behind before).finishColumn = walk.finishColumn.behind before := by
  unfold finishColumn behind
  rw [List.append_assoc]

theorem keyword_behind (walk : ColumnWalk) (before : List Column) (token : Token)
    (word : Keyword) :
    (walk.behind before).keyword token word = (walk.keyword token word).behind before := by
  have htop : (walk.behind before).isTopLevel = walk.isTopLevel := rfl
  cases word with
  | currentTimestamp =>
    unfold keyword
    rw [htop]
    dsimp only
    split <;> rfl
  | _ => rfl

theorem item_behind (walk : ColumnWalk) (before : List Column) (token : Token) :
    (walk.behind before).item token = (walk.item token).behind before := by
  have htop : (walk.behind before).isTopLevel = walk.isTopLevel := rfl
  have hopened : (walk.behind before).opened = walk.opened := rfl
  unfold item
  cases token.kind with
  | rightParen =>
    dsimp only
    rw [hopened, finishColumn_behind]
    split <;> rfl
  | comma =>
    dsimp only
    rw [htop, finishColumn_behind]
    split <;> rfl
  | keyword word =>
    dsimp only
    rw [keyword_behind]
    rfl
  | length => rfl
  | leftParen => rfl
  | _ =>
    dsimp only
    try rw [htop]
    try split
    all_goals rfl

theorem defaultValue_behind (walk : ColumnWalk) (before : List Column) (token : Token) :
    (walk.behind before).defaultValue token = (walk.defaultValue token).behind before := by
  unfold defaultValue
  split
  · rfl
  split <;> rfl

/-- Columns that are finished already stay in front and change nothing else. -/
theorem step_behind (walk : ColumnWalk) (before : List Column) (token : Token) :
    (walk.behind before).step token = (walk.step token).behind before := by
  have hitem := item_behind { walk with awaiting := .item } before token
  have hvalue := defaultValue_behind { walk with awaiting := .item } before token
  unfold step
  rw [show (walk.behind before).awaiting = walk.awaiting from rfl]
  cases walk.awaiting with
  | item => exact item_behind walk before token
  | default => exact congrArg (Step.more · []) hvalue
  | comment =>
    dsimp only
    split
    · rfl
    · exact hitem
  | valueList =>
    dsimp only
    split <;> rfl
  | values scan =>
    dsimp only
    cases scan.step token <;> rfl

theorem Runs.behind {walk last : ColumnWalk} {tokens : List Token} (h : Runs walk tokens last)
    (before : List Column) : Runs (walk.behind before) tokens (last.behind before) := by
  induction h with
  | nil => exact .nil
  | @cons walk next last token tokens events h _ ih =>
    have hstep : (walk.behind before).step token = .more (next.behind before) events := by
      rw [step_behind, h]
      rfl
    exact .cons hstep ih

end ColumnWalk

section Alike

variable {one other : ColumnWalk} (h : WalksAlike one other)

include h in
/-- Walks that are alike go on alike. -/
theorem WalksAlike.more {next : ColumnWalk} {token : Token} {events : List Event}
    (hs : one.step token = .more next events) :
    ∃ again noted, other.step token = .more again noted ∧ WalksAlike next again := by
  have hstep := h.step (rfl : token.content = token.content)
  rw [hs] at hstep
  generalize hother : other.step token = step at hstep
  cases hstep with
  | more hnext => exact ⟨_, _, rfl, hnext⟩

include h in
/-- Walks that are alike close the list alike. -/
theorem WalksAlike.closed {token : Token} {columns : List Column} {events : List Event}
    (hs : one.step token = .closed columns events) :
    ∃ noted, other.step token = .closed columns noted := by
  have hstep := h.step (rfl : token.content = token.content)
  rw [hs] at hstep
  generalize hother : other.step token = step at hstep
  cases hstep with
  | closed => exact ⟨_, rfl⟩

end Alike

theorem ColumnWalk.Runs.alike {one other last : ColumnWalk} {tokens : List Token}
    (h : Runs one tokens last) (hw : WalksAlike one other) :
    ∃ again, Runs other tokens again ∧ WalksAlike last again := by
  induction h generalizing other with
  | nil => exact ⟨other, .nil, hw⟩
  | cons hs _ ih =>
    obtain ⟨next, noted, hother, hnext⟩ := hw.more hs
    obtain ⟨again, hrun, hlast⟩ := ih hnext
    exact ⟨again, .cons hother hrun, hlast⟩

theorem ColumnWalk.Closes.alike {one other : ColumnWalk} {list : List Token}
    {columns : List Column} (h : Closes one list columns) (hw : WalksAlike one other) :
    Closes other list columns := by
  induction h generalizing other with
  | last hs =>
    obtain ⟨noted, hother⟩ := hw.closed hs
    exact .last hother
  | cons hs _ ih =>
    obtain ⟨next, noted, hother, hnext⟩ := hw.more hs
    exact .cons hother (ih hnext)

/-! ## Where a column ends -/

/-- The walk takes a comma or a parenthesis for what it is. -/
def Awaiting.IsReady (awaiting : Awaiting) : Prop :=
  awaiting = .item ∨ awaiting = .comment

/-- The walk is directly inside the outer parentheses and is ready for the end of a column. -/
structure ColumnWalk.Rests (walk : ColumnWalk) : Prop where
  inside : walk.opened.length = 1
  ready : walk.awaiting.IsReady

namespace ColumnWalk

theorem step_ready {walk : ColumnWalk} (h : walk.awaiting.IsReady) {token : Token}
    (hk : token.kind ≠ .stringLiteral) :
    walk.step token = ({ walk with awaiting := .item } : ColumnWalk).item token := by
  rcases h with ha | ha
  · rw [step_item ha, ← ha]
  · exact step_no_comment ha hk

/-- A comma finishes the column and leaves nothing else behind. -/
theorem Rests.comma {walk : ColumnWalk} (h : walk.Rests) {token : Token}
    (hk : token.kind = .comma) :
    ∃ start events,
      walk.step token = .more (within start walk.finishColumn.columns none) events := by
  obtain ⟨start, hopened⟩ := List.length_eq_one_iff.1 h.inside
  have htop : ({ walk with awaiting := .item } : ColumnWalk).isTopLevel = true :=
    decide_eq_true h.inside
  refine ⟨start, walk.droppedDraft, ?_⟩
  rw [step_ready h.ready (by rw [hk]; simp)]
  unfold item
  rw [hk]
  dsimp only
  rw [if_pos htop]
  unfold finishColumn within
  rw [hopened]
  rfl

/-- A parenthesis finishes the column and closes the list. -/
theorem Rests.closing {walk : ColumnWalk} (h : walk.Rests) {token : Token}
    (hk : token.kind = .rightParen) : Closes walk [token] walk.finishColumn.columns := by
  obtain ⟨start, hopened⟩ := List.length_eq_one_iff.1 h.inside
  have hstep : walk.step token = .closed walk.finishColumn.columns walk.droppedDraft := by
    rw [step_ready h.ready (by rw [hk]; simp)]
    unfold item
    rw [hk]
    dsimp only
    rw [hopened]
    rfl
  exact .last hstep

theorem closed_of_item {walk : ColumnWalk} {token : Token} {columns : List Column}
    {events : List Event} (h : walk.item token = .closed columns events) :
    walk.opened.length = 1 ∧ columns = walk.finishColumn.columns := by
  have hk := kind_of_item_closed h
  unfold item at h
  rw [hk] at h
  dsimp only at h
  split at h
  · exact absurd h (by simp)
  · rename_i hopened
    injection h with h
    exact ⟨by rw [hopened]; rfl, h.symm⟩
  · exact absurd h (by simp)

/-- Only a walk that rests lets a list be closed. -/
theorem rests_of_closed {walk : ColumnWalk} {token : Token} {columns : List Column}
    {events : List Event} (h : walk.step token = .closed columns events) :
    walk.Rests ∧ columns = walk.finishColumn.columns := by
  cases ha : walk.awaiting with
  | item =>
    rw [step_item ha] at h
    obtain ⟨hopened, hcolumns⟩ := closed_of_item h
    exact ⟨⟨hopened, .inl ha⟩, hcolumns⟩
  | comment =>
    rw [step_no_comment ha (by rw [kind_of_closed h]; simp)] at h
    obtain ⟨hopened, hcolumns⟩ := closed_of_item h
    exact ⟨⟨hopened, .inr ha⟩, hcolumns⟩
  | default =>
    rw [step_default ha] at h
    exact absurd h (by simp)
  | valueList =>
    rw [step_no_valueList ha (by rw [kind_of_closed h]; simp)] at h
    exact absurd h (by simp)
  | values scan =>
    unfold ColumnWalk.step at h
    rw [ha] at h
    dsimp only at h
    split at h <;> exact absurd h (by simp)

/-- The last token of a closing run closes the list. -/
theorem Closes.concat {walk : ColumnWalk} {tokens : List Token} {closing : Token}
    {columns : List Column} (h : Closes walk (tokens ++ [closing]) columns) :
    ∃ last, Runs walk tokens last ∧ last.Rests ∧ columns = last.finishColumn.columns := by
  induction tokens generalizing walk with
  | nil =>
    cases h with
    | last h => exact ⟨walk, .nil, rests_of_closed h⟩
    | cons _ ht => nomatch ht
  | cons token tokens ih =>
    rw [List.cons_append] at h
    generalize hrest : tokens ++ [closing] = rest at h
    cases h with
    | last _ => exact absurd hrest (List.append_ne_nil_of_right_ne_nil _ (List.cons_ne_nil _ _))
    | cons h ht =>
      subst hrest
      obtain ⟨last, hrun, hrests⟩ := ih ht
      exact ⟨last, .cons h hrun, hrests⟩

end ColumnWalk

theorem WalksAlike.rests {one other : ColumnWalk} (h : WalksAlike one other) (hr : one.Rests) :
    other.Rests := by
  refine ⟨h.opened ▸ hr.inside, ?_⟩
  have ha := h.awaiting
  generalize other.awaiting = waiting at ha ⊢
  rcases hr.ready with hone | hone
  · rw [hone] at ha
    cases ha
    exact .inl rfl
  · rw [hone] at ha
    cases ha
    exact .inr rfl

/-! ## Segments -/

/-- Wherever it stands directly inside the outer parentheses, from the beginning of a column on, the
segment adds these columns once the last of them is finished. -/
def Yields (columns : List Column) (segment : List Token) : Prop :=
  ∀ start before, ∃ last, Runs (within start before none) segment last ∧ last.Rests ∧
    last.finishColumn.columns = before ++ columns

/-- The token list is read as a column list of these columns, up to its last token. -/
structure ReadsAs (list : List Token) (columns : List Column) : Prop where
  outcome : (readColumnList (.ofTokens list)).outcome = .ok columns
  rest : (readColumnList (.ofTokens list)).cursor.rest = []
  index : (readColumnList (.ofTokens list)).cursor.index = list.length

/-- The segment is read as these columns where it is a column list by itself, between parentheses of
its own. -/
def Alone (columns : List Column) (segment : List Token) : Prop :=
  ∃ opening closing : Token, opening.kind = .leftParen ∧ closing.kind = .rightParen ∧
    ReadsAs (opening :: (segment ++ [closing])) columns

/-- A closing run moves the cursor behind its last token. -/
theorem index_of_closes {walk : ColumnWalk} {list : List Token} {columns : List Column}
    (h : Closes walk list columns) (cursor : Cursor) (rest : List Token) (count : Nat)
    (events : List Event) :
    (readColumns cursor walk (list ++ rest) count events).cursor.index =
      cursor.index + (count + list.length) := by
  induction h generalizing count events with
  | last h =>
    rw [List.singleton_append, readColumns, h]
    rfl
  | @cons walk next token tokens columns noted h _ ih =>
    rw [List.cons_append, readColumns, h]
    dsimp only
    rw [ih, List.length_cons]
    omega

/-- What stands between two parentheses is read as the columns with which the second one closes the
list. -/
theorem readsAs_iff_closes {opening : Token} (hk : opening.kind = .leftParen)
    {list : List Token} {columns : List Column} :
    ReadsAs (opening :: list) columns ↔ Closes { opened := [opening.start] } list columns := by
  have hs : startsList (Cursor.ofTokens (opening :: list)).rest = true := decide_eq_true hk
  have hstart := step_start hk
  constructor
  · rintro ⟨houtcome, hrest, -⟩
    obtain ⟨read, hl, hc⟩ := (readColumnList_ok_iff hs).1 ⟨houtcome, hrest⟩
    rw [List.append_nil] at hl
    have hread : read = opening :: list := hl.symm
    rw [hread] at hc
    cases hc with
    | last h =>
      rw [hstart] at h
      exact absurd h (by simp)
    | cons h ht =>
      rw [hstart, Step.more.injEq] at h
      rw [h.1]
      exact ht
  · intro h
    have hc : Closes {} (opening :: list) columns := .cons hstart h
    obtain ⟨houtcome, hrest⟩ := (readColumnList_ok_iff hs).2 ⟨_, (List.append_nil _).symm, hc⟩
    refine ⟨houtcome, hrest, ?_⟩
    have hindex := index_of_closes hc (.ofTokens (opening :: list)) [] 0 []
    rw [List.append_nil, Nat.zero_add] at hindex
    exact hindex.trans (Nat.zero_add _)

/-- The reading of a segment alone is its reading anywhere. -/
theorem yields_of_alone {columns : List Column} {segment : List Token}
    (h : Alone columns segment) : Yields columns segment := by
  obtain ⟨opening, closing, ho, -, hreads⟩ := h
  obtain ⟨last, hrun, hrests, rfl⟩ := ((readsAs_iff_closes ho).1 hreads).concat
  intro start before
  have halike : WalksAlike (ColumnWalk.behind { opened := [opening.start] } before)
      (within start before none) := ⟨rfl, rfl, List.append_nil before, .item⟩
  obtain ⟨again, hagain, hlast⟩ := (hrun.behind before).alike halike
  refine ⟨again, hagain, hlast.rests ⟨hrests.inside, hrests.ready⟩, ?_⟩
  rw [← hlast.finishColumn.columns, finishColumn_behind]
  rfl

/-- Segments with commas in between close the list with their columns in order. -/
theorem closes_of_yields {parts : List (List Column)} {list : List Token} {closing : Token}
    (h : Listed Yields parts list) (hk : closing.kind = .rightParen) (start : Nat)
    (before : List Column) :
    Closes (within start before none) (list ++ [closing]) (before ++ parts.flatten) := by
  induction h generalizing start before with
  | nil => exact step_closing start before none hk
  | @single columns segment h =>
    obtain ⟨last, hrun, hrests, hcolumns⟩ := h start before
    rw [List.flatten_cons, List.flatten_nil, List.append_nil, ← hcolumns]
    exact hrun.closes (hrests.closing hk)
  | @cons columns next others segment rest comma h hc _ ih =>
    obtain ⟨last, hrun, hrests, hcolumns⟩ := h start before
    obtain ⟨again, events, hcomma⟩ := hrests.comma hc
    have hrest := ih again last.finishColumn.columns
    rw [List.flatten_cons, List.append_assoc, ← List.append_assoc before, ← hcolumns]
    exact hrun.closes (.cons hcomma hrest)

/-- Segments that can be read alone are read together as the columns of each of them, in their
order. -/
theorem readsAs_of_segments {parts : List (List Column)} {list : List Token}
    {opening closing : Token} (h : Listed Alone parts list) (ho : opening.kind = .leftParen)
    (hc : closing.kind = .rightParen) :
    ReadsAs (opening :: (list ++ [closing])) parts.flatten := by
  have hyields : Listed Yields parts list := by
    have hmap := h.map id fun _ _ halone => yields_of_alone halone
    rwa [List.map_id] at hmap
  exact (readsAs_iff_closes ho).2 (closes_of_yields hyields hc opening.start [])

/-- `a INT COMMENT` -/
def pendingComment : List Token :=
  [⟨.name, "a", 1, 2⟩, ⟨.keyword .int, "INT", 3, 6⟩, ⟨.keyword .comment, "COMMENT", 7, 14⟩]

/-- `'x' b TEXT` -/
def straySegment : List Token :=
  [⟨.stringLiteral, "'x'", 16, 19⟩, ⟨.name, "b", 20, 21⟩, ⟨.keyword .text, "TEXT", 22, 26⟩]

/-- A comment that waits for its text at the end of a column does not take one from the next. -/
theorem readsAs_of_pending_comment :
    ReadsAs
      (⟨.leftParen, "(", 0, 1⟩ ::
        ((pendingComment ++ ⟨.comma, ",", 14, 15⟩ :: straySegment) ++ [⟨.rightParen, ")", 26, 27⟩]))
      [{ name := "a", type := .int }, { name := "b", type := .text }] := by
  have hfirst : Alone [{ name := "a", type := .int }] pendingComment :=
    ⟨⟨.leftParen, "(", 0, 1⟩, ⟨.rightParen, ")", 14, 15⟩, rfl, rfl, rfl, rfl, rfl⟩
  have hsecond : Alone [{ name := "b", type := .text }] straySegment :=
    ⟨⟨.leftParen, "(", 15, 16⟩, ⟨.rightParen, ")", 26, 27⟩, rfl, rfl, rfl, rfl, rfl⟩
  exact readsAs_of_segments (.cons hfirst rfl (.single hsecond)) rfl rfl

end TableScribe
