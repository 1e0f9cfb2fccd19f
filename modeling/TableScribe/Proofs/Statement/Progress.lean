import TableScribe.Proofs.Statement.Faults
import TableScribe.Proofs.Statement.Outcomes

/-!
# The cursor moves forward

The readers of a table name, a value list and a column list share a cursor, and each of them can be
called wherever it stands, also where another one has failed.

1. `calls`: the readers are called in any order, each where the one before left the cursor.
2. `Portion.Moves`: what one call does to the cursor. It never goes back and never beyond the
   tokens; a reading that succeeds has read something, unless it is of a column list at the very
   end; and a fault that leaves a parenthesis open has used up the tokens.
3. `ColumnListRead`: what comes of reading a column list, beside what comes of reading the others.
   A token that is at fault never leaves a parenthesis open (`leavesOpen_of_step`); only the end of
   the tokens does.

A call moves the cursor so wherever it stands among the tokens (`Portion.exists_moves`), and a run
of calls does it all along (`calls_move_forward`).
-/

namespace TableScribe

open ColumnWalk

/-! ## Calls -/

/-- What a reader can be called for. -/
inductive Portion
  | tableName
  | valueList
  | columnList
  deriving DecidableEq, Repr

abbrev Portion.Content : Portion → Type
  | tableName => String
  | valueList => List String
  | columnList => List Column

def Portion.read : (portion : Portion) → Cursor → Reading portion.Content
  | tableName => readTableName
  | valueList => readValueList
  | columnList => readColumnList

/-- A call of the reader of a portion where the cursor stands. -/
structure Call where
  portion : Portion
  start : Cursor
  deriving DecidableEq, Repr

def Call.reading (call : Call) : Reading call.portion.Content :=
  call.portion.read call.start

/-- Calls of readers one after another. Each begins where the one before has left the cursor,
whether that one succeeded or failed. -/
def calls (cursor : Cursor) : List Portion → List Call
  | [] => []
  | portion :: rest => ⟨portion, cursor⟩ :: calls (portion.read cursor).cursor rest

/-- The fault says that a parenthesis is left open. -/
def Fault.leavesOpen : Fault → Bool
  | unmatchedOpening _ | unmatchedInValues _ => true
  | _ => false

/-- The reading of a portion takes the cursor from behind `index` of the tokens to behind `last`. -/
structure Portion.Moves (portion : Portion) (tokens : List Token) (index last : Nat) : Prop where
  cursor : (portion.read (.ofIndex tokens index)).cursor = .ofIndex tokens last
  forward : index ≤ last
  inRange : last ≤ tokens.length
  /-- A success has read something; only a column list may be nothing at the end of the tokens. -/
  progress : ∀ content, (portion.read (.ofIndex tokens index)).outcome = .ok content →
    (portion = .columnList → index < tokens.length) → index < last
  exhausted : ∀ fault, (portion.read (.ofIndex tokens index)).outcome = .error fault →
    fault.leavesOpen = true → last = tokens.length

section Moves

variable {portion : Portion} {tokens : List Token} {index last : Nat}

theorem Portion.Moves.of_ok {content : portion.Content}
    (h : (portion.read (.ofIndex tokens index)).Gives tokens (.ok content) last)
    (hforward : index ≤ last) (hrange : last ≤ tokens.length)
    (hprogress : (portion = .columnList → index < tokens.length) → index < last) :
    portion.Moves tokens index last where
  cursor := h.cursor
  forward := hforward
  inRange := hrange
  progress _ _ := hprogress
  exhausted fault hfault := absurd (h.outcome.symm.trans hfault) (by simp)

theorem Portion.Moves.of_error {fault : Fault}
    (h : (portion.read (.ofIndex tokens index)).Gives tokens (.error fault) last)
    (hforward : index ≤ last) (hrange : last ≤ tokens.length)
    (hexhausted : fault.leavesOpen = true → last = tokens.length) :
    portion.Moves tokens index last where
  cursor := h.cursor
  forward := hforward
  inRange := hrange
  progress content hcontent := absurd (h.outcome.symm.trans hcontent) (by simp)
  exhausted other hother := by
    obtain rfl : fault = other := Except.error.inj (h.outcome.symm.trans hother)
    exact hexhausted

/-- What is left behind a place among the tokens reaches to their end. -/
theorem length_of_drop {front rest : List Token} (h : tokens.drop index = front ++ rest)
    (hindex : index ≤ tokens.length) : index + front.length + rest.length = tokens.length := by
  have hlength := congrArg List.length h
  rw [List.length_drop, List.length_append] at hlength
  omega

end Moves

/-! ## Table names and value lists -/

section Places

variable {tokens : List Token} {index last : Nat}

theorem Header.length_pos {header : List Token} {name : String} (h : Header header name) :
    0 < header.length := by
  obtain ⟨condition, segments, rfl, -, hsegments⟩ := h
  obtain ⟨token, rest, rfl, -⟩ := hsegments.ne_nil
  rw [List.length_append, List.length_cons]
  omega

theorem TableNameRead.moves {outcome : Except Fault String}
    (h : TableNameRead tokens index outcome last) (hindex : index ≤ tokens.length) :
    Portion.tableName.Moves tokens index last := by
  have hgives := h.gives
  cases h with
  | @named header rest name hdrop hheader =>
    have hlength := length_of_drop hdrop hindex
    have hpos := hheader.length_pos
    exact .of_ok hgives (by omega) (by omega) fun _ => by omega
  | incomplete => exact .of_error hgives (Nat.le_refl index) hindex (by simp [Fault.leavesOpen])
  | @noName condition qualifiers rest token hdrop =>
    rw [← List.append_assoc] at hdrop
    have hlength := length_of_drop hdrop hindex
    rw [List.length_append] at hlength
    exact .of_error hgives (by omega) (by omega) (by simp [Fault.leavesOpen])
  | @ended condition qualifiers hdrop =>
    rw [← List.append_nil (condition ++ qualifiers)] at hdrop
    have hlength := length_of_drop hdrop hindex
    rw [List.length_append] at hlength
    exact .of_error hgives (by omega) (by omega) (by simp [Fault.leavesOpen])

theorem Matched.length_pos {list : List Token} (h : Matched list) : 0 < list.length := by
  obtain ⟨opening, inner, rfl, -⟩ := matched_iff.1 h
  exact Nat.zero_lt_succ _

theorem ValueListRead.moves {outcome : Except Fault (List String)}
    (h : ValueListRead tokens index outcome last) (hindex : index ≤ tokens.length) :
    Portion.valueList.Moves tokens index last := by
  have hgives := h.gives
  cases h with
  | @matched list rest hdrop hmatched =>
    have hlength := length_of_drop hdrop hindex
    have hpos := hmatched.length_pos
    exact .of_ok hgives (by omega) (by omega) fun _ => by omega
  | unmatched => exact .of_error hgives hindex (Nat.le_refl _) fun _ => rfl
  | unexpectedToken =>
    exact .of_error hgives (Nat.le_refl index) hindex (by simp [Fault.leavesOpen])
  | unexpectedEnd =>
    exact .of_error hgives (Nat.le_refl index) hindex (by simp [Fault.leavesOpen])

end Places

/-! ## Column lists -/

namespace ColumnWalk

variable {walk : ColumnWalk} {token : Token} {fault : Fault}

theorem leavesOpen_of_item
    (h : walk.item token = .failed fault ∨ walk.item token = .refused fault) :
    fault.leavesOpen = false := by
  rcases walk.item_cases token with ⟨next, events, hi, -⟩ | ⟨columns, events, hi⟩ | ⟨-, hi⟩
  · rw [hi] at h
    exact absurd h (by simp)
  · rw [hi] at h
    exact absurd h (by simp)
  · rw [hi] at h
    obtain rfl : Fault.unmatchedClosing token.start = fault := by simpa using h
    rfl

/-- A token that is at fault does not leave a parenthesis open: it closes one that is not open, or
a value list should have begun with it. -/
theorem leavesOpen_of_step
    (h : walk.step token = .failed fault ∨ walk.step token = .refused fault) :
    fault.leavesOpen = false := by
  cases ha : walk.awaiting with
  | item => exact leavesOpen_of_item (step_item ha ▸ h)
  | default =>
    rw [step_default ha] at h
    exact absurd h (by simp)
  | comment =>
    by_cases hk : token.kind = .stringLiteral
    · rw [step_comment ha hk] at h
      exact absurd h (by simp)
    · exact leavesOpen_of_item (step_no_comment ha hk ▸ h)
  | valueList =>
    by_cases hk : token.kind = .leftParen
    · rw [step_valueList ha hk] at h
      exact absurd h (by simp)
    · rw [step_no_valueList ha hk] at h
      obtain rfl : Fault.unexpectedToken .valueList token.lexeme token.start = fault := by
        simpa using h
      rfl
  | values scan =>
    cases hs : scan.step token with
    | more next =>
      rw [step_values ha hs] at h
      exact absurd h (by simp)
    | closed values =>
      rw [step_values_closed ha hs] at h
      exact absurd h (by simp)

theorem Closes.length_pos {list : List Token} {columns : List Column}
    (h : Closes walk list columns) : 0 < list.length := by
  cases h with
  | last => exact Nat.zero_lt_one
  | cons => exact Nat.zero_lt_succ _

end ColumnWalk

/-- What comes of reading a column list behind the first `index` tokens: a result, and behind how
many tokens the cursor is left. -/
inductive ColumnListRead (tokens : List Token) (index : Nat) :
    Except Fault (List Column) → Nat → Prop
  | closed {list rest : List Token} {columns : List Column}
      (h : tokens.drop index = list ++ rest) (hc : Closes {} list columns) :
      ColumnListRead tokens index (.ok columns) (index + list.length)
  | ended {walk : ColumnWalk} (hr : Runs {} (tokens.drop index) walk) :
      ColumnListRead tokens index (walk.atEnd (Cursor.ofTokens tokens).finish)
        (index + (tokens.drop index).length)
  | failed {front rest : List Token} {token : Token} {walk : ColumnWalk} {fault : Fault}
      (h : tokens.drop index = front ++ [token] ++ rest) (hr : Runs {} front walk)
      (hs : walk.step token = .failed fault) :
      ColumnListRead tokens index (.error fault) (index + (front ++ [token]).length)
  | refused {front rest : List Token} {token : Token} {walk : ColumnWalk} {fault : Fault}
      (h : tokens.drop index = front ++ token :: rest) (hr : Runs {} front walk)
      (hs : walk.step token = .refused fault) :
      ColumnListRead tokens index (.error fault) (index + front.length)

section ColumnList

variable {tokens : List Token} {index last : Nat}

/-- What comes of reading on behind tokens after which the list goes on. -/
theorem gives_of_runs {front rest : List Token} {walk : ColumnWalk}
    (h : tokens.drop index = front ++ rest) (hr : Runs {} front walk) (events : List Event) :
    ∃ outcome last, ColumnListRead tokens index outcome last ∧
      (readColumns (.ofIndex tokens index) walk rest front.length events).Gives tokens outcome
        last := by
  -- Each token that the list goes on after moves from `rest` to `front`.
  induction rest generalizing front walk events with
  | nil =>
    rw [List.append_nil] at h
    refine ⟨_, _, .ended (h ▸ hr), rfl, ?_⟩
    rw [h]
    exact Cursor.moveTo_ofIndex (h.trans (List.append_nil front).symm)
  | cons token rest ih =>
    have hnext : tokens.drop index = front ++ [token] ++ rest := by
      rw [h, List.append_cons]
    have hmove := Cursor.moveTo_ofIndex hnext
    have hlength : (front ++ [token]).length = front.length + 1 := by
      rw [List.length_append, List.length_singleton]
    rw [readColumns]
    cases hs : walk.step token with
    | more next noted =>
      have hread := ih hnext (hr.append (.single hs)) (events ++ noted)
      rw [hlength] at hread
      exact hread
    | closed columns noted =>
      exact ⟨_, _, .closed hnext (hr.closes (.last hs)), rfl, hlength ▸ hmove⟩
    | failed fault => exact ⟨_, _, .failed hnext hr hs, rfl, hlength ▸ hmove⟩
    | refused fault => exact ⟨_, _, .refused h hr hs, rfl, Cursor.moveTo_ofIndex h⟩

theorem exists_columnListRead (tokens : List Token) (index : Nat) :
    ∃ outcome last, ColumnListRead tokens index outcome last ∧
      (readColumnList (.ofIndex tokens index)).Gives tokens outcome last :=
  gives_of_runs (List.nil_append _).symm .nil []

theorem ColumnListRead.moves {outcome : Except Fault (List Column)}
    (h : ColumnListRead tokens index outcome last)
    (hgives : (readColumnList (.ofIndex tokens index)).Gives tokens outcome last)
    (hindex : index ≤ tokens.length) : Portion.columnList.Moves tokens index last := by
  cases h with
  | @closed list rest columns hdrop hcloses =>
    have hlength := length_of_drop hdrop hindex
    have hpos := hcloses.length_pos
    exact .of_ok hgives (by omega) (by omega) fun _ => by omega
  | @ended walk =>
    have hend : index + (tokens.drop index).length = tokens.length := by
      rw [List.length_drop]
      omega
    rw [hend] at hgives ⊢
    cases hwalk : walk.atEnd (Cursor.ofTokens tokens).finish with
    | ok columns => exact .of_ok (hwalk ▸ hgives) hindex (Nat.le_refl _) fun h => h rfl
    | error fault => exact .of_error (hwalk ▸ hgives) hindex (Nat.le_refl _) fun _ => rfl
  | @failed front rest token walk fault hdrop hruns hstep =>
    have hlength := length_of_drop hdrop hindex
    refine .of_error hgives (by omega) (by omega) fun hopen => ?_
    exact absurd hopen (by simp [leavesOpen_of_step (.inl hstep)])
  | @refused front rest token walk fault hdrop hruns hstep =>
    have hlength := length_of_drop hdrop hindex
    refine .of_error hgives (by omega) (by omega) fun hopen => ?_
    exact absurd hopen (by simp [leavesOpen_of_step (.inr hstep)])

end ColumnList

/-! ## Runs of calls -/

/-- Wherever the cursor stands among the tokens, a reading moves it forward. -/
theorem Portion.exists_moves (portion : Portion) {tokens : List Token} {index : Nat}
    (h : index ≤ tokens.length) : ∃ last, portion.Moves tokens index last := by
  cases portion with
  | tableName =>
    obtain ⟨outcome, last, hread⟩ := exists_tableNameRead tokens index
    exact ⟨last, hread.moves h⟩
  | valueList =>
    obtain ⟨outcome, last, hread⟩ := exists_valueListRead tokens index
    exact ⟨last, hread.moves h⟩
  | columnList =>
    obtain ⟨outcome, last, hread, hgives⟩ := exists_columnListRead tokens index
    exact ⟨last, hread.moves hgives h⟩

/-- Whatever readers are called in whatever order, from a place among the tokens on and also after
failures, the cursor never goes back and never leaves the tokens, and each call moves it as its
portion does. The beginning of the tokens is such a place, and so is every place that is reached
from there. -/
theorem calls_move_forward {tokens : List Token} {index : Nat} (h : index ≤ tokens.length)
    (portions : List Portion) :
    (index :: (calls (.ofIndex tokens index) portions).map fun call =>
        call.reading.cursor.index).Pairwise (· ≤ ·) ∧
      ∀ call ∈ calls (.ofIndex tokens index) portions, ∃ start last,
        call.start = .ofIndex tokens start ∧ call.reading.cursor = .ofIndex tokens last ∧
          call.portion.Moves tokens start last := by
  induction portions generalizing index with
  | nil => exact ⟨List.pairwise_singleton _ _, by simp [calls]⟩
  | cons portion rest ih =>
    obtain ⟨last, hmoves⟩ := portion.exists_moves h
    obtain ⟨hsorted, hcalls⟩ := ih hmoves.inRange
    have hlast : (Call.mk portion (.ofIndex tokens index)).reading.cursor = .ofIndex tokens last :=
      hmoves.cursor
    rw [calls, hmoves.cursor]
    refine ⟨?_, fun call hmem => ?_⟩
    · rw [List.map_cons, hlast]
      refine List.pairwise_cons.2 ⟨fun place hmem => ?_, hsorted⟩
      rcases List.mem_cons.1 hmem with rfl | hlater
      · exact hmoves.forward
      · exact Nat.le_trans hmoves.forward ((List.pairwise_cons.1 hsorted).1 place hlater)
    · rcases List.mem_cons.1 hmem with rfl | hlater
      · exact ⟨index, last, rfl, hlast, hmoves⟩
      · exact hcalls call hlater

/-- The tokens of a statement that ends inside its parentheses. -/
def unclosedTokens : List Token :=
  [⟨.keyword .table, "TABLE", 7, 12⟩, ⟨.name, "users", 13, 18⟩, ⟨.leftParen, "(", 19, 20⟩,
    ⟨.stringLiteral, "\x27a\x27", 20, 23⟩, ⟨.leftParen, "(", 24, 25⟩, ⟨.name, "x", 26, 27⟩]

/-- A value list is asked for in front of the table name, and the column list is left open. -/
theorem calls_move_forward_unclosed :
    1 ≤ unclosedTokens.length ∧
      ((calls (.ofIndex unclosedTokens 1) [.valueList, .tableName, .columnList, .valueList]).map
        fun call => call.reading.cursor.index) = [1, 2, 6, 6] ∧
      (readColumnList (.ofIndex unclosedTokens 2)).outcome = .error (.unmatchedOpening 24) ∧
      [1, 1, 2, 6, 6].Pairwise (· ≤ ·) ∧
      ∀ call ∈ calls (.ofIndex unclosedTokens 1) [.valueList, .tableName, .columnList, .valueList],
        ∃ start last, call.start = .ofIndex unclosedTokens start ∧
          call.reading.cursor = .ofIndex unclosedTokens last ∧
          call.portion.Moves unclosedTokens start last := by
  have hstart : 1 ≤ unclosedTokens.length := by decide
  obtain ⟨hsorted, hcalls⟩ := calls_move_forward hstart
    [.valueList, .tableName, .columnList, .valueList]
  exact ⟨hstart, rfl, rfl, hsorted, hcalls⟩

end TableScribe
