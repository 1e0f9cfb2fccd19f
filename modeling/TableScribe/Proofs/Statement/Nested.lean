import Mathlib.Data.List.Basic
import TableScribe.Proofs.Statement.Attributes
import TableScribe.Proofs.Statement.Segments

/-!
# Nested parentheses

Parentheses inside a column list, such as those of `CHECK (…)` or `DECIMAL(…)`, are meant to do no
more than change the depth. `leavesAlone_iff_silent` says of which contents this is true: a balanced
text can stand between nested parentheses without any effect, wherever these are, if and only if it
is `Silent`. A text that names a type, for instance, is not, and so `CHECK (b = CAST(c AS TEXT))`
makes a `TEXT` of the column.

1. `NestedPlace`: the parentheses and what is around them.
2. Deep inside, what tokens state and what the walk waits for depends on the tokens only
   (`statements`, `Awaiting.after`), so that a text acts on every column in the same way
   (`Stays.carries`).
3. Whatever a text states last shows in the column (`Attribute.Shows`), and nothing shows in three
   columns that have nothing in common (`not_shows`).
-/

namespace TableScribe

open ColumnWalk

/-! ## Texts that state nothing -/

/-- Tokens that say something of a column at any depth, alone or with what follows them. -/
def TokenKind.isStatement : TokenKind → Bool
  | .length | .keyword .autoIncrement | .keyword .enum | .keyword .default | .keyword .comment =>
    true
  | .keyword word => word.columnType?.isSome
  | _ => false

/-- The tokens say nothing of a column: no type, no length, no `AUTO_INCREMENT` and no `ENUM`, after
`DEFAULT` something that is no default value, and after `COMMENT` no text. -/
inductive Silent : List Token → Prop
  | nil : Silent []
  | other {token : Token} {rest : List Token} (hk : token.kind.isStatement = false)
      (hr : Silent rest) : Silent (token :: rest)
  | default {word value : Token} {rest : List Token} (hk : word.kind = .keyword .default)
      (hv : value.kind.isDefaultValue = false) (hr : Silent rest) : Silent (word :: value :: rest)
  | comment {word : Token} {rest : List Token} (hk : word.kind = .keyword .comment)
      (hs : ∀ next ∈ rest.head?, next.kind ≠ .stringLiteral) (hr : Silent rest) :
      Silent (word :: rest)

/-! ## What a text states -/

/-- What the tokens state below the top level to a walk that waits for them. -/
def statements : Awaiting → List Token → List Attribute
  | _, [] => []
  | awaiting, token :: rest =>
    (awaiting.stated false token).toList ++ statements (awaiting.next token) rest

/-- What the walk waits for behind the tokens. -/
def Awaiting.after (awaiting : Awaiting) (tokens : List Token) : Awaiting :=
  tokens.foldl Awaiting.next awaiting

theorem no_statement_iff {token : Token} :
    token.kind.isStatement = false ↔ token.attribute? false = none ∧ token.awaited = .item := by
  unfold Token.attribute? Token.awaited
  cases token.kind with
  | keyword word => cases word <;> simp [TokenKind.isStatement, Keyword.columnType?]
  | _ => simp [TokenKind.isStatement]

/-- The tokens state nothing to a walk that waits for them, and the next parenthesis counts. -/
structure Quiet (awaiting : Awaiting) (tokens : List Token) : Prop where
  states : statements awaiting tokens = []
  ready : (awaiting.after tokens).IsReady

theorem quiet_cons {awaiting : Awaiting} {token : Token} {rest : List Token} :
    Quiet awaiting (token :: rest) ↔
      awaiting.stated false token = none ∧ Quiet (awaiting.next token) rest := by
  constructor
  · rintro ⟨hstates, hready⟩
    rw [statements, List.append_eq_nil_iff, Option.toList_eq_nil_iff] at hstates
    exact ⟨hstates.1, hstates.2, hready⟩
  · rintro ⟨hnone, hstates, hready⟩
    refine ⟨?_, hready⟩
    rw [statements, hnone, hstates]
    rfl

theorem quiet_item {token : Token} {rest : List Token} :
    Quiet .item (token :: rest) ↔ token.attribute? false = none ∧ Quiet token.awaited rest :=
  quiet_cons

/-- A value list states its values before the walk is ready for something else. -/
theorem not_quiet_values {scan : ValueScan} {tokens : List Token} :
    ¬ Quiet (.values scan) tokens := by
  induction tokens generalizing scan with
  | nil => exact fun h => absurd h.ready (by simp [Awaiting.after, Awaiting.IsReady])
  | cons token rest ih =>
    rw [quiet_cons]
    rintro ⟨hnone, hrest⟩
    cases hs : scan.step token with
    | more next =>
      rw [(Awaiting.values_more false hs).2] at hrest
      exact ih hrest
    | closed found =>
      rw [(Awaiting.values_closed false hs).1] at hnone
      exact absurd hnone (by simp)

theorem not_quiet_valueList {tokens : List Token} : ¬ Quiet .valueList tokens := by
  cases tokens with
  | nil => exact fun h => absurd h.ready (by simp [Awaiting.after, Awaiting.IsReady])
  | cons token rest => exact fun h => not_quiet_values (quiet_cons.1 h).2

theorem quiet_default {tokens : List Token} :
    Quiet .default tokens ↔ ∃ value rest, tokens = value :: rest ∧
      value.kind.isDefaultValue = false ∧ Quiet .item rest := by
  cases tokens with
  | nil =>
    constructor
    · exact fun h => absurd h.ready (by simp [Awaiting.after, Awaiting.IsReady])
    · rintro ⟨value, rest, hl, -⟩
      exact absurd hl (by simp)
  | cons value rest =>
    have hstated : Awaiting.stated false .default value = none ↔
        value.kind.isDefaultValue = false := by
      unfold Awaiting.stated
      dsimp only
      split <;> simp [*]
    rw [quiet_cons, hstated]
    constructor
    · exact fun h => ⟨value, rest, rfl, h⟩
    · rintro ⟨first, others, hl, h⟩
      rw [List.cons.injEq] at hl
      rw [hl.1, hl.2]
      exact h

theorem quiet_comment {tokens : List Token} :
    Quiet .comment tokens ↔
      (∀ next ∈ tokens.head?, next.kind ≠ .stringLiteral) ∧ Quiet .item tokens := by
  cases tokens with
  | nil => exact ⟨fun _ => ⟨by simp, rfl, .inl rfl⟩, fun _ => ⟨rfl, .inr rfl⟩⟩
  | cons token rest =>
    rw [quiet_cons, quiet_item]
    by_cases hs : token.kind = .stringLiteral
    · rw [(Awaiting.comment_string false hs).1]
      simp [hs]
    · obtain ⟨hstated, hnext⟩ := Awaiting.comment_other false hs
      rw [hstated, hnext]
      simp [hs]

theorem quiet_of_silent {tokens : List Token} (h : Silent tokens) : Quiet .item tokens := by
  induction h with
  | nil => exact ⟨rfl, .inl rfl⟩
  | other hk _ ih =>
    obtain ⟨hnone, hawaited⟩ := no_statement_iff.1 hk
    exact quiet_item.2 ⟨hnone, hawaited ▸ ih⟩
  | @default word value rest hk hv _ ih =>
    have hnone : word.attribute? false = none := by
      unfold Token.attribute?
      rw [hk]
      rfl
    rw [quiet_item, awaited_of_default hk, quiet_default]
    exact ⟨hnone, value, rest, rfl, hv, ih⟩
  | @comment word rest hk hs _ ih =>
    have hnone : word.attribute? false = none := by
      unfold Token.attribute?
      rw [hk]
      rfl
    rw [quiet_item, awaited_of_comment hk, quiet_comment]
    exact ⟨hnone, hs, ih⟩

theorem silent_of_quiet (tokens : List Token) (h : Quiet .item tokens) : Silent tokens := by
  -- By length: behind a `DEFAULT` the recursion skips a token.
  match tokens with
  | [] => exact .nil
  | token :: rest =>
    obtain ⟨hnone, hrest⟩ := quiet_item.1 h
    cases ha : token.awaited with
    | item =>
      rw [ha] at hrest
      exact .other (no_statement_iff.2 ⟨hnone, ha⟩) (silent_of_quiet rest hrest)
    | default =>
      rw [ha, quiet_default] at hrest
      obtain ⟨value, others, rfl, hv, hothers⟩ := hrest
      exact .default (awaited_eq_default ha) hv (silent_of_quiet others hothers)
    | comment =>
      rw [ha, quiet_comment] at hrest
      exact .comment (awaited_eq_comment ha) hrest.1 (silent_of_quiet rest hrest.2)
    | valueList =>
      rw [ha] at hrest
      exact absurd hrest not_quiet_valueList
    | values scan =>
      rw [ha] at hrest
      exact absurd hrest not_quiet_values
termination_by tokens.length

theorem silent_iff_quiet {tokens : List Token} : Silent tokens ↔ Quiet .item tokens :=
  ⟨quiet_of_silent, silent_of_quiet tokens⟩

/-! ## Runs deep inside -/

namespace ColumnWalk

/-- The walk runs over the tokens to `last` and takes along what they state. -/
structure Carries (walk : ColumnWalk) (tokens : List Token) (last : ColumnWalk) : Prop where
  columns : last.columns = walk.columns
  draft : last.draft = applyAttributes (statements walk.awaiting tokens) walk.draft
  awaiting : last.awaiting = walk.awaiting.after tokens
  deep : 2 ≤ last.opened.length
  depth : (last.depth : Int) = walk.depth + balance tokens

theorem Stays.isTopLevel {walk : ColumnWalk} {tokens : List Token} (h : walk.Stays 2 tokens) :
    walk.isTopLevel = false := by
  have := h.deep
  unfold ColumnWalk.isTopLevel
  exact decide_eq_false (by omega)

theorem Stays.carries {walk last : ColumnWalk} {tokens : List Token} (h : walk.Stays 2 tokens)
    (hr : Runs walk tokens last) : walk.Carries tokens last := by
  induction hr with
  | nil => exact ⟨rfl, rfl, rfl, h.deep, by rw [balance_nil, Int.add_zero]⟩
  | @cons walk next last token rest events hstep _ ih =>
    have htop := h.isTopLevel
    have htakes := takes_of_step (fun _ => htop) hstep
    obtain ⟨hnext, hdepth⟩ := h.step (by decide) hstep
    obtain ⟨hcolumns, hdraft, hawaiting, hdeep, hlast⟩ := ih hnext
    refine ⟨hcolumns.trans htakes.columns, ?_, ?_, hdeep, ?_⟩
    · rw [hdraft, htakes.draft, htakes.awaiting, htop, ← applyAttributes_append]
      rfl
    · rw [hawaiting, htakes.awaiting]
      rfl
    · rw [hlast, hdepth, balance_cons, Int.add_assoc]

/-- What is quiet is passed over. -/
theorem Stays.exists_runs {walk : ColumnWalk} {tokens : List Token} (h : walk.Stays 2 tokens)
    (hq : Quiet walk.awaiting tokens) : ∃ last, Runs walk tokens last := by
  induction tokens generalizing walk with
  | nil => exact ⟨walk, .nil⟩
  | cons token rest ih =>
    have hv : walk.awaiting = .valueList → token.kind = .leftParen := by
      intro ha
      rw [ha] at hq
      exact absurd hq not_quiet_valueList
    obtain ⟨next, events, hstep⟩ := h.exists_step (by decide) hv
    have hawaiting := (takes_of_step (fun _ => h.isTopLevel) hstep).awaiting
    obtain ⟨last, hrun⟩ := ih (h.step (by decide) hstep).1 (hawaiting ▸ (quiet_cons.1 hq).2)
    exact ⟨last, .cons hstep hrun⟩

/-! ## Lists that are closed among the tokens -/

/-- Some token of the list closes the column list, with these columns. -/
def ClosesIn (walk : ColumnWalk) (tokens : List Token) (columns : List Column) : Prop :=
  ∃ list rest, tokens = list ++ rest ∧ Closes walk list columns

theorem ClosesIn.step {walk : ColumnWalk} {token : Token} {rest : List Token}
    {columns : List Column} (h : ClosesIn walk (token :: rest) columns) :
    (∃ next events, walk.step token = .more next events ∧ ClosesIn next rest columns) ∨
      ∃ events, walk.step token = .closed columns events := by
  obtain ⟨list, after, hl, hc⟩ := h
  cases hc with
  | last hclosed =>
    rw [List.singleton_append, List.cons.injEq] at hl
    rw [hl.1]
    exact .inr ⟨_, hclosed⟩
  | cons hmore ht =>
    rw [List.cons_append, List.cons.injEq] at hl
    rw [hl.1]
    exact .inl ⟨_, _, hmore, _, after, hl.2, ht⟩

theorem ClosesIn.cons {walk next : ColumnWalk} {token : Token} {rest : List Token}
    {columns : List Column} {events : List Event} (hs : walk.step token = .more next events)
    (h : ClosesIn next rest columns) : ClosesIn walk (token :: rest) columns := by
  obtain ⟨list, after, rfl, hc⟩ := h
  exact ⟨token :: list, after, rfl, .cons hs hc⟩

theorem closesIn_cons {walk next : ColumnWalk} {token : Token} {rest : List Token}
    {columns : List Column} {events : List Event} (hs : walk.step token = .more next events) :
    ClosesIn walk (token :: rest) columns ↔ ClosesIn next rest columns := by
  refine ⟨fun h => ?_, .cons hs⟩
  rcases h.step with ⟨other, noted, hmore, hother⟩ | ⟨noted, hclosed⟩
  · rw [hs, Step.more.injEq] at hmore
    rw [hmore.1]
    exact hother
  · rw [hs] at hclosed
    exact absurd hclosed (by simp)

theorem Runs.closesIn {walk last : ColumnWalk} {tokens : List Token} (h : Runs walk tokens last)
    {rest : List Token} {columns : List Column} :
    ClosesIn walk (tokens ++ rest) columns ↔ ClosesIn last rest columns := by
  induction h with
  | nil => rfl
  | cons hs _ ih => rw [List.cons_append, closesIn_cons hs, ih]

/-- A list that is closed behind tokens that stay deep is not closed by one of them. -/
theorem Stays.exists_runs_of_closesIn {walk : ColumnWalk} {tokens rest : List Token}
    {columns : List Column} (h : walk.Stays 2 tokens)
    (hc : ClosesIn walk (tokens ++ rest) columns) :
    ∃ last, Runs walk tokens last ∧ ClosesIn last rest columns := by
  induction tokens generalizing walk with
  | nil => exact ⟨walk, .nil, hc⟩
  | cons token tokens ih =>
    rw [List.cons_append] at hc
    rcases hc.step with ⟨next, events, hmore, hnext⟩ | ⟨events, hclosed⟩
    · obtain ⟨last, hrun, hlast⟩ := ih (h.step (by decide) hmore).1 hnext
      exact ⟨last, .cons hmore hrun, hlast⟩
    · have hone := (rests_of_closed hclosed).1.inside
      have htwo := h.deep
      omega

end ColumnWalk

theorem ColumnWalk.ClosesIn.alike {one other : ColumnWalk} {tokens : List Token}
    {columns : List Column} (h : ClosesIn one tokens columns) (hw : WalksAlike one other) :
    ClosesIn other tokens columns := by
  obtain ⟨list, rest, rfl, hc⟩ := h
  exact ⟨list, rest, rfl, hc.alike hw⟩

theorem outcome_iff_closesIn {list : List Token} {columns : List Column}
    (hs : startsList list = true) :
    (readColumnList (.ofTokens list)).outcome = .ok columns ↔ ClosesIn {} list columns := by
  have hstarts : startsList (Cursor.ofTokens list).rest = true := hs
  constructor
  · intro h
    obtain ⟨read, hl, hc⟩ := (readColumnList_ok_iff hstarts).1 ⟨h, rfl⟩
    exact ⟨read, _, hl, hc⟩
  · rintro ⟨read, rest, hl, hc⟩
    exact ((readColumnList_ok_iff hstarts).2 ⟨read, hl, hc⟩).1

theorem ColumnWalk.Runs.opened_ne_nil {walk last : ColumnWalk} {tokens : List Token}
    (h : Runs walk tokens last) (ho : walk.opened ≠ []) : last.opened ≠ [] := by
  induction h with
  | nil => exact ho
  | cons hs _ ih => exact ih (opened_ne_nil_of_step hs ho)

/-! ## Places for parentheses -/

/-- A place for nested parentheses directly inside a column list, and not behind an `ENUM`, whose
values they would hold. -/
structure NestedPlace where
  start : Token
  before : List Token
  opening : Token
  closing : Token
  after : List Token
  finish : Token
  start_kind : start.kind = .leftParen
  opening_kind : opening.kind = .leftParen
  closing_kind : closing.kind = .rightParen
  finish_kind : finish.kind = .rightParen
  walk : ColumnWalk
  reached : Runs {} (start :: before) walk
  inside : walk.depth = 1
  no_values : walk.awaiting ≠ .valueList

namespace NestedPlace

/-- The column list with these tokens in the place. -/
def around (place : NestedPlace) (inner : List Token) : List Token :=
  place.start :: (place.before ++
    place.opening :: (inner ++ place.closing :: (place.after ++ [place.finish])))

/-- With these tokens in the place, the list is read as these columns. -/
def Gives (place : NestedPlace) (inner : List Token) (columns : List Column) : Prop :=
  (readColumnList (.ofTokens (place.around inner))).outcome = .ok columns

def nested (place : NestedPlace) : ColumnWalk :=
  { place.walk with opened := place.opening.start :: place.walk.opened, awaiting := .item }

theorem opened_ne_nil (place : NestedPlace) : place.walk.opened ≠ [] := by
  cases place.reached with
  | cons h ht =>
    rw [step_start place.start_kind, Step.more.injEq] at h
    refine ht.opened_ne_nil ?_
    rw [← h.1]
    exact List.cons_ne_nil _ _

/-- Outside a value list and directly inside the outer parentheses, only those are open. -/
theorem depth_awaiting (place : NestedPlace) : place.walk.awaiting.depth = 0 := by
  have hopened := List.length_pos_iff.2 place.opened_ne_nil
  have hinside := place.inside
  unfold ColumnWalk.depth at hinside
  omega

theorem step_opening (place : NestedPlace) :
    place.walk.step place.opening = .more place.nested [] := by
  have hk := place.opening_kind
  have hitem : ({ place.walk with awaiting := .item } : ColumnWalk).item place.opening =
      .more place.nested [] := by
    unfold item
    rw [hk]
    rfl
  cases ha : place.walk.awaiting with
  | item => rw [step_item ha, ← hitem, ← ha]
  | default =>
    rw [step_default ha]
    unfold defaultValue
    rw [hk]
    rfl
  | comment => rw [step_no_comment ha (by rw [hk]; simp), hitem]
  | valueList => exact absurd ha place.no_values
  | values scan =>
    have hdepth := place.depth_awaiting
    rw [ha] at hdepth
    exact absurd hdepth (Nat.succ_ne_zero _)

theorem gives_iff (place : NestedPlace) {inner : List Token} {columns : List Column} :
    place.Gives inner columns ↔ ClosesIn place.nested
      (inner ++ place.closing :: (place.after ++ [place.finish])) columns := by
  have hs : startsList (place.around inner) = true := decide_eq_true place.start_kind
  unfold Gives
  rw [outcome_iff_closesIn hs, ← closesIn_cons place.step_opening]
  exact place.reached.closesIn

theorem opened_nested (place : NestedPlace) :
    ∃ first second, place.nested.opened = [first, second] := by
  have hinside := place.inside
  rw [depth_eq_length place.depth_awaiting] at hinside
  obtain ⟨second, ho⟩ := List.length_eq_one_iff.1 hinside
  exact ⟨place.opening.start, second, by unfold nested; rw [ho]⟩

theorem depth_nested (place : NestedPlace) : place.nested.depth = 2 := by
  obtain ⟨first, second, ho⟩ := place.opened_nested
  unfold ColumnWalk.depth
  rw [ho]
  rfl

theorem stays (place : NestedPlace) {inner : List Token} (hb : Balanced inner)
    (hd : DefaultsKeepOpen inner) : place.nested.Stays 2 inner := by
  obtain ⟨first, second, ho⟩ := place.opened_nested
  refine ⟨Nat.le_of_eq (congrArg List.length ho).symm, ?_,
    fun ha => absurd ha (by simp [nested]), hd⟩
  rw [place.depth_nested]
  exact hb.inside

end NestedPlace

/-! ## Behind the place -/

section Behind

variable {walk : ColumnWalk} {closing : Token} (hk : closing.kind = .rightParen)

include hk in
theorem step_closing_nested {first second : Nat} (ho : walk.opened = [first, second])
    (ha : walk.awaiting.IsReady) :
    walk.step closing = .more { walk with opened := [second], awaiting := .item } [] := by
  rw [step_ready ha (by rw [hk]; simp)]
  unfold item
  rw [hk]
  dsimp only
  rw [ho]

include hk in
/-- Only a walk that is ready lets a closing parenthesis change what is open. -/
theorem isReady_of_closing {next : ColumnWalk} {events : List Event}
    (h : walk.step closing = .more next events) (ho : next.opened ≠ walk.opened) :
    walk.awaiting.IsReady := by
  cases ha : walk.awaiting with
  | item => exact .inl rfl
  | comment => exact .inr rfl
  | default =>
    refine absurd ?_ ho
    rw [step_default ha, Step.more.injEq] at h
    rw [← h.1]
    unfold defaultValue
    rw [hk]
    rfl
  | valueList =>
    rw [step_no_valueList ha (by rw [hk]; simp)] at h
    exact absurd h (by simp)
  | values scan =>
    refine absurd ?_ ho
    cases hs : scan.step closing with
    | more after =>
      rw [step_values ha hs, Step.more.injEq] at h
      rw [← h.1]
    | closed values =>
      rw [step_values_closed ha hs, Step.more.injEq] at h
      rw [← h.1]
      rfl

theorem not_closesIn_nil {columns : List Column} : ¬ ClosesIn walk [] columns := by
  rintro ⟨list, rest, hl, hc⟩
  obtain ⟨inner, close, rfl, -⟩ := hc.getLast
  exact absurd hl (by simp)

include hk in
/-- If two parentheses close the list where two are open, then the first one counts, and the columns
are what the walk has. -/
theorem closesIn_two {finish : Token} {columns : List Column} (ho : walk.opened.length = 2)
    (h : ClosesIn walk [closing, finish] columns) :
    walk.awaiting.IsReady ∧ columns = walk.finishColumn.columns := by
  rcases h.step with ⟨next, events, hmore, hnext⟩ | ⟨events, hclosed⟩
  · rcases hnext.step with ⟨_, _, -, hnil⟩ | ⟨noted, hclosed⟩
    · exact absurd hnil not_closesIn_nil
    obtain ⟨hrests, rfl⟩ := rests_of_closed hclosed
    have hopened : next.opened ≠ walk.opened := by
      intro he
      have hone := hrests.inside
      rw [he] at hone
      omega
    have hready := isReady_of_closing hk hmore hopened
    obtain ⟨first, second, htwo⟩ := List.length_eq_two.1 ho
    rw [step_closing_nested hk htwo hready, Step.more.injEq] at hmore
    refine ⟨hready, ?_⟩
    rw [← hmore.1]
    rfl
  · have hone := (rests_of_closed hclosed).1.inside
    omega

end Behind

namespace NestedPlace

variable (place : NestedPlace) {inner : List Token} (hb : Balanced inner)
  (hd : DefaultsKeepOpen inner)

include hb hd in
theorem length_opened {last : ColumnWalk} (hr : Runs place.nested inner last) :
    last.opened.length = 2 := by
  have hcarries := (place.stays hb hd).carries hr
  have hdeep := hcarries.deep
  have hdepth := hcarries.depth
  rw [hb.closed, place.depth_nested] at hdepth
  unfold ColumnWalk.depth at hdepth
  omega

include hb hd in
/-- What is quiet changes nothing in any place. -/
theorem gives_of_quiet (hq : Quiet .item inner) {columns : List Column}
    (h : place.Gives [] columns) : place.Gives inner columns := by
  obtain ⟨last, hrun⟩ := (place.stays hb hd).exists_runs hq
  have hcarries := (place.stays hb hd).carries hrun
  have hdraft : last.draft = place.nested.draft := by
    rw [hcarries.draft]
    exact congrArg (applyAttributes · place.nested.draft) hq.states
  have hready : last.awaiting.IsReady := by
    rw [hcarries.awaiting]
    exact hq.ready
  obtain ⟨first, second, hnested⟩ := place.opened_nested
  obtain ⟨third, fourth, hlast⟩ := List.length_eq_two.1 (place.length_opened hb hd hrun)
  rw [gives_iff, List.nil_append,
    closesIn_cons (step_closing_nested place.closing_kind hnested (.inl rfl))] at h
  rw [gives_iff, hrun.closesIn]
  refine .cons (step_closing_nested place.closing_kind hlast hready) (h.alike ?_)
  exact ⟨rfl, hdraft.symm, hcarries.columns.symm, .item⟩

include hb hd in
/-- Where nothing follows, the list is read as the columns so far and the one that comes out of the
draft by what the text states. -/
theorem columns_of_gives (ha : place.after = []) {columns : List Column}
    (h : place.Gives inner columns) :
    (Awaiting.item.after inner).IsReady ∧
      columns = place.walk.columns ++
        ((applyAttributes (statements .item inner) place.walk.draft).bind (·.build)).toList := by
  rw [gives_iff, ha] at h
  obtain ⟨last, hrun, hlast⟩ := (place.stays hb hd).exists_runs_of_closesIn h
  have hcarries := (place.stays hb hd).carries hrun
  obtain ⟨hready, rfl⟩ :=
    closesIn_two place.closing_kind (place.length_opened hb hd hrun) hlast
  rw [hcarries.awaiting] at hready
  refine ⟨hready, ?_⟩
  unfold finishColumn
  rw [hcarries.columns, hcarries.draft]
  rfl

end NestedPlace

/-! ## What is stated shows -/

/-- What is to be seen in a column of which the attribute was stated last. -/
def Attribute.Shows : Attribute → Column → Prop
  | .name text, column => column.name = text
  | .type found, column => column.type = found
  | .length text, column => column.type = .varchar → column.length = nonEmpty text
  | .default text, column => column.default = some text
  | .values _, column => column.type = .enum
  | .autoIncrement, column => column.autoIncrement = true
  | .comment text, column => column.comment = nonEmpty text

theorem attributes_of_build {draft : ColumnDraft} {column : Column}
    (h : draft.build = some column) :
    draft.type = some column.type ∧
      (column.type = .varchar → column.length = draft.length.bind nonEmpty) ∧
      column.default = draft.default ∧ column.autoIncrement = draft.autoIncrement ∧
      column.comment = draft.comment.bind nonEmpty := by
  unfold ColumnDraft.build at h
  cases hn : draft.name.bind nonEmpty with
  | none => simp [hn] at h
  | some name =>
    cases ht : draft.type with
    | none => simp [hn, ht] at h
    | some type =>
      simp only [hn, ht, Option.some.injEq] at h
      subst h
      exact ⟨rfl, fun hv => if_pos hv, rfl, rfl, rfl⟩

theorem Attribute.shows_of_build {stated : Attribute} {draft : Option ColumnDraft}
    {last : ColumnDraft} {column : Column} (ha : stated.apply draft = some last)
    (hb : last.build = some column) : stated.Shows column := by
  obtain ⟨htype, hlength, hdefault, hauto, hcomment⟩ := attributes_of_build hb
  obtain ⟨hname, -⟩ := ColumnDraft.name_of_build hb
  cases stated with
  | name text =>
    obtain rfl : _ = last := Option.some.inj ha
    exact (Option.some.inj hname).symm
  | type found =>
    obtain ⟨before, -, rfl⟩ := Option.map_eq_some_iff.1 ha
    exact (Option.some.inj htype).symm
  | length text =>
    obtain ⟨before, -, rfl⟩ := Option.map_eq_some_iff.1 ha
    intro hv
    rw [hlength hv]
    rw [hv] at htype
    by_cases hb : before.type = some .varchar
    · rw [if_pos hb]
      rfl
    · rw [if_neg hb] at htype
      exact absurd htype hb
  | default text =>
    obtain ⟨before, -, rfl⟩ := Option.map_eq_some_iff.1 ha
    exact hdefault
  | values found =>
    obtain ⟨before, -, rfl⟩ := Option.map_eq_some_iff.1 ha
    exact (Option.some.inj htype).symm
  | autoIncrement =>
    obtain ⟨before, -, rfl⟩ := Option.map_eq_some_iff.1 ha
    exact hauto
  | comment text =>
    obtain ⟨before, -, rfl⟩ := Option.map_eq_some_iff.1 ha
    exact hcomment

/-- `a VARCHAR(5) COMMENT 'x'` -/
def firstSource : ColumnSource where
  name := "a"
  type := .sized .varchar "5"
  modifiers := [.comment "x"]

/-- `b VARCHAR(6) COMMENT 'y'` -/
def secondSource : ColumnSource where
  name := "b"
  type := .sized .varchar "6"
  modifiers := [.comment "y"]

/-- `c INT` -/
def thirdSource : ColumnSource where
  name := "c"
  type := .plain .int

theorem firstSource_written :
    firstSource.Written
      (⟨.name, "a", 1, 2⟩ ::
        ([⟨.keyword .varchar, "VARCHAR", 3, 10⟩, ⟨.length, "(5)", 10, 13⟩] ++
          ([⟨.keyword .comment, "COMMENT", 14, 21⟩, ⟨.stringLiteral, "'x'", 22, 25⟩] ++ []))) :=
  .mk rfl (Token.says_iff.2 rfl) (by decide)
    (.sized rfl rfl rfl (Token.says_iff.2 rfl) (by decide))
    (.cons (.comment rfl rfl (Token.says_iff.2 rfl)) .nil)

theorem secondSource_written :
    secondSource.Written
      (⟨.name, "b", 1, 2⟩ ::
        ([⟨.keyword .varchar, "VARCHAR", 3, 10⟩, ⟨.length, "(6)", 10, 13⟩] ++
          ([⟨.keyword .comment, "COMMENT", 14, 21⟩, ⟨.stringLiteral, "'y'", 22, 25⟩] ++ []))) :=
  .mk rfl (Token.says_iff.2 rfl) (by decide)
    (.sized rfl rfl rfl (Token.says_iff.2 rfl) (by decide))
    (.cons (.comment rfl rfl (Token.says_iff.2 rfl)) .nil)

theorem thirdSource_written :
    thirdSource.Written
      (⟨.name, "c", 1, 2⟩ :: ([⟨.keyword .int, "INT", 3, 6⟩] ++ [])) :=
  .mk rfl (Token.says_iff.2 rfl) (by decide) (.plain rfl rfl) .nil

/-- No attribute shows in all of three columns that have nothing in common. -/
theorem not_shows (stated : Attribute) :
    ¬ (stated.Shows firstSource.column ∧ stated.Shows secondSource.column ∧
      stated.Shows thirdSource.column) := by
  rintro ⟨h1, h2, h3⟩
  cases stated with
  | name text => exact absurd (h1.trans h2.symm) (by decide)
  | type found => exact absurd (h1.trans h3.symm) (by decide)
  | length text => exact absurd ((h1 rfl).trans (h2 rfl).symm) (by decide)
  | default text => exact Option.some_ne_none text h1.symm
  | values found =>
    have henum : firstSource.column.type = .enum := h1
    exact absurd henum (by decide)
  | autoIncrement =>
    have hauto : firstSource.column.autoIncrement = true := h1
    exact absurd hauto (by decide)
  | comment text => exact absurd (h1.trans h2.symm) (by decide)

/-! ## The effect of nested parentheses -/

/-- A place behind a definition, at the end of the list. -/
theorem exists_place {source : ColumnSource} {tokens : List Token} (h : source.Written tokens) :
    ∃ place : NestedPlace, place.after = [] ∧ place.walk.columns = [] ∧
      place.Gives [] [source.column] := by
  obtain ⟨last, hb, hrun⟩ := h.runs 0 []
  let place : NestedPlace :=
    { start := ⟨.leftParen, "(", 0, 1⟩, before := tokens, opening := ⟨.leftParen, "(", 0, 1⟩,
      closing := ⟨.rightParen, ")", 0, 1⟩, after := [], finish := ⟨.rightParen, ")", 0, 1⟩,
      start_kind := rfl, opening_kind := rfl, closing_kind := rfl, finish_kind := rfl,
      walk := within 0 [] (some last), reached := .cons (step_start rfl) hrun, inside := rfl,
      no_values := by simp [within] }
  have hclosed : Closes (within 0 [] (some last)) [place.finish] [source.column] := by
    have hclose := step_closing 0 [] (some last) place.finish_kind
    rwa [Option.bind_some, hb] at hclose
  refine ⟨place, rfl, rfl, place.gives_iff.2 ?_⟩
  exact .cons (step_closing_nested place.closing_kind rfl (.inl rfl)) ⟨_, [], rfl, hclosed⟩

/-- In no place do these tokens change what the list is read as. -/
def LeavesAlone (inner : List Token) : Prop :=
  ∀ (place : NestedPlace) (columns : List Column),
    place.Gives [] columns → place.Gives inner columns

section LeavesAlone

variable {inner : List Token} (hb : Balanced inner) (hd : DefaultsKeepOpen inner)
  (h : LeavesAlone inner)

include hb hd h in
/-- A text without effect leaves the walk ready, and what it states last shows in every column. -/
theorem shows_of_leavesAlone {source : ColumnSource} {tokens : List Token}
    (hs : source.Written tokens) :
    (Awaiting.item.after inner).IsReady ∧
      ∀ stated ∈ (statements .item inner).getLast?, stated.Shows source.column := by
  obtain ⟨place, hafter, hcolumns, hgives⟩ := exists_place hs
  obtain ⟨hready, hread⟩ :=
    place.columns_of_gives hb hd hafter (h place [source.column] hgives)
  refine ⟨hready, fun stated hlast => ?_⟩
  obtain ⟨front, hfront⟩ := List.getLast?_eq_some_iff.1 hlast
  rw [hcolumns, List.nil_append, hfront, applyAttributes_append] at hread
  obtain ⟨draft, happly, hbuild⟩ :=
    Option.bind_eq_some_iff.1 (Option.toList_eq_singleton_iff.1 hread.symm)
  exact Attribute.shows_of_build happly hbuild

include hb hd h in
theorem silent_of_leavesAlone : Silent inner := by
  obtain ⟨hready, h1⟩ := shows_of_leavesAlone hb hd h firstSource_written
  obtain ⟨-, h2⟩ := shows_of_leavesAlone hb hd h secondSource_written
  obtain ⟨-, h3⟩ := shows_of_leavesAlone hb hd h thirdSource_written
  refine silent_iff_quiet.2 ⟨?_, hready⟩
  cases hlast : (statements .item inner).getLast? with
  | none => exact List.getLast?_eq_none_iff.1 hlast
  | some stated =>
    exact absurd ⟨h1 stated hlast, h2 stated hlast, h3 stated hlast⟩ (not_shows stated)

end LeavesAlone

/-- A balanced text in which no parenthesis is taken along by a `DEFAULT` has no effect between
nested parentheses, wherever they are, exactly if it says nothing of a column. -/
theorem leavesAlone_iff_silent {inner : List Token} (hb : Balanced inner)
    (hd : DefaultsKeepOpen inner) : LeavesAlone inner ↔ Silent inner :=
  ⟨silent_of_leavesAlone hb hd,
    fun h place _ hgives => place.gives_of_quiet hb hd (silent_iff_quiet.1 h) hgives⟩

/-- `10, 2`, as in `DECIMAL(10, 2)`. -/
def scaleTokens : List Token :=
  [⟨.integerLiteral, "10", 16, 18⟩, ⟨.comma, ",", 18, 19⟩, ⟨.integerLiteral, "2", 20, 21⟩]

theorem leavesAlone_scaleTokens :
    Balanced scaleTokens ∧ DefaultsKeepOpen scaleTokens ∧ LeavesAlone scaleTokens := by
  have hb : Balanced scaleTokens := ⟨by decide, by decide⟩
  have hd : DefaultsKeepOpen scaleTokens := by decide
  exact ⟨hb, hd, (leavesAlone_iff_silent hb hd).2 (.other rfl (.other rfl (.other rfl .nil)))⟩

/-- `b = CAST(c AS TEXT)` -/
def castTokens : List Token :=
  [⟨.name, "b", 14, 15⟩, ⟨.equals, "=", 16, 17⟩, ⟨.name, "CAST", 18, 22⟩,
    ⟨.leftParen, "(", 22, 23⟩, ⟨.name, "c", 23, 24⟩, ⟨.name, "AS", 25, 27⟩,
    ⟨.keyword .text, "TEXT", 28, 32⟩, ⟨.rightParen, ")", 32, 33⟩]

/-- `(a INT CHECK ())` -/
def checkPlace : NestedPlace where
  start := ⟨.leftParen, "(", 0, 1⟩
  before := [⟨.name, "a", 1, 2⟩, ⟨.keyword .int, "INT", 3, 6⟩, ⟨.keyword .check, "CHECK", 7, 12⟩]
  opening := ⟨.leftParen, "(", 13, 14⟩
  closing := ⟨.rightParen, ")", 33, 34⟩
  after := []
  finish := ⟨.rightParen, ")", 34, 35⟩
  start_kind := rfl
  opening_kind := rfl
  closing_kind := rfl
  finish_kind := rfl
  walk := within 0 [] (some { name := some "a", type := some .int })
  reached := .cons rfl (.cons rfl (.cons rfl (.single rfl)))
  inside := rfl
  no_values := by decide

/-- `(a INT CHECK (b = CAST(c AS TEXT)))` gives a column of type `TEXT`. -/
theorem not_forall_leavesAlone :
    ¬ ∀ inner : List Token, Balanced inner → DefaultsKeepOpen inner → LeavesAlone inner := by
  intro h
  have hb : Balanced castTokens := ⟨by decide, by decide⟩
  have hread : checkPlace.Gives castTokens [{ name := "a", type := .int }] :=
    h castTokens hb (by decide) checkPlace _ rfl
  have htext : checkPlace.Gives castTokens [{ name := "a", type := .text }] := rfl
  have heq := Except.ok.inj (hread.symm.trans htext)
  exact absurd heq (by decide)

end TableScribe
