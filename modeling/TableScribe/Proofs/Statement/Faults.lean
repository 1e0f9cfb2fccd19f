import TableScribe.Proofs.Lexical.Layout
import TableScribe.Proofs.Statement.Causes
import TableScribe.Proofs.Statement.Parentheses

/-!
# Faults point at their causes

The walk over a column list remembers byte offsets only, and its faults report them. The invariant
`ColumnWalk.Grounded` says that each of them is the place of a parenthesis that has been read.

1. `ColumnWalk.Grounded.handled`: a token keeps the invariant, closes the list, or is refused where
   a value list should begin. No token is ever found to close a parenthesis that is not open, because
   the outer ones stay open until the list ends.
2. `causedBy_of_readColumns` carries this through a run, `causedBy_of_parseTokens` through a whole
   statement.
3. `parseStatement_faults` adds where the tokens lie in the text (`covers_of_scan`).
-/

namespace TableScribe

/-! ## The column list -/

namespace ColumnWalk

/-- What the walk remembers are the places of parentheses that have been read, and it waits for a
value list only behind `ENUM`. -/
structure Grounded (read : List Token) (walk : ColumnWalk) : Prop where
  inside : walk.opened ≠ []
  opened : ∀ position ∈ walk.opened, OpensAt read position
  values : ∀ scan, walk.awaiting = .values scan → OpensAt read scan.openedAt
  valueList : walk.awaiting = .valueList → EndsIn (fun kind => kind = .keyword .enum) read

theorem opensAt_single {token : Token} (hk : token.kind = .leftParen) :
    OpensAt [token] token.start :=
  ⟨token, List.mem_singleton_self token, hk, rfl⟩

/-- Looked at as an attribute, a token adds at most its own place to the open parentheses, unless it
closes the list or, outside all parentheses, one that is not open. -/
theorem item_cases (walk : ColumnWalk) (token : Token) :
    (∃ next events, walk.item token = .more next events ∧
        (∀ position ∈ next.opened, position ∈ walk.opened ∨ OpensAt [token] position) ∧
        (walk.awaiting = .item → next.awaiting = token.awaited)) ∨
      (∃ columns events, walk.item token = .closed columns events) ∨
      (walk.opened = [] ∧ walk.item token = .failed (.unmatchedClosing token.start)) := by
  by_cases hl : token.kind = .leftParen
  · refine .inl ⟨walk.openAt token.start, [], ?_, fun position hmem => ?_, fun ha => ?_⟩
    · unfold item
      rw [hl]
    · rcases List.mem_cons.1 hmem with rfl | hmem
      · exact .inr (opensAt_single hl)
      · exact .inl hmem
    · unfold Token.awaited
      rw [hl]
      exact ha
  by_cases hr : token.kind = .rightParen
  · unfold item Token.awaited
    rw [hr]
    dsimp only
    split
    · rename_i hnil
      exact .inr (.inr ⟨hnil, rfl⟩)
    · exact .inr (.inl ⟨_, _, rfl⟩)
    · rename_i first outer _ hopened
      refine .inl ⟨_, _, rfl, fun position hmem => ?_, id⟩
      rw [hopened]
      exact .inl (List.mem_cons_of_mem first hmem)
  obtain ⟨next, events, hi, hopened, hawaiting⟩ := walk.item_of_no_paren hl hr
  refine .inl ⟨next, events, hi, fun position hmem => .inl ?_, hawaiting⟩
  rwa [← hopened]

theorem openedAt_of_scan {scan next : ValueScan} {token : Token} (h : scan.step token = .more next) :
    next.openedAt = scan.openedAt := by
  unfold ValueScan.step at h
  split at h
  · split at h
    all_goals
      rw [ValueScan.Step.more.injEq] at h
      rw [← h]
  · rw [ValueScan.Step.more.injEq] at h
    rw [← h]
  · split at h
    · exact absurd h (by simp)
    · rw [ValueScan.Step.more.injEq] at h
      rw [← h]
  · rw [ValueScan.Step.more.injEq] at h
    rw [← h]

theorem awaited_ne_values (token : Token) (scan : ValueScan) : token.awaited ≠ .values scan := by
  unfold Token.awaited
  split <;> simp

namespace Grounded

variable {read : List Token} {walk next : ColumnWalk} {token : Token}

theorem extend (h : walk.Grounded read) (hinside : next.opened ≠ [])
    (hopened : ∀ position ∈ next.opened, position ∈ walk.opened ∨ OpensAt [token] position)
    (hvalues : ∀ scan, next.awaiting = .values scan → OpensAt (read ++ [token]) scan.openedAt)
    (hlist : next.awaiting = .valueList → token.kind = .keyword .enum) :
    next.Grounded (read ++ [token]) := by
  refine ⟨hinside, fun position hmem => ?_, hvalues, fun ha => endsIn_concat (hlist ha) read⟩
  rcases hopened position hmem with hold | hnew
  · exact (h.opened position hold).append_left [token]
  · exact hnew.append_right read

/-- The walk then waits for what the token announces, or for nothing. -/
theorem extend_awaited (h : walk.Grounded read) (hinside : next.opened ≠ [])
    (hopened : ∀ position ∈ next.opened, position ∈ walk.opened ∨ OpensAt [token] position)
    (ha : next.awaiting = .item ∨ next.awaiting = token.awaited) :
    next.Grounded (read ++ [token]) := by
  refine h.extend hinside hopened (fun scan hscan => ?_) fun hlist => ?_
  · rcases ha with ha | ha
    · exact absurd (ha.symm.trans hscan) (by simp)
    · exact absurd (ha.symm.trans hscan) (awaited_ne_values token scan)
  · rcases ha with ha | ha
    · exact absurd (ha.symm.trans hlist) (by simp)
    · exact awaited_eq_valueList (ha.symm.trans hlist)

end Grounded

/-- What a token does to a walk whose memory is grounded: the list goes on or ends, or the token
should have opened a value list. -/
inductive Handled (read : List Token) (walk : ColumnWalk) (token : Token) : Prop
  | more {next : ColumnWalk} {events : List Event} (hs : walk.step token = .more next events)
      (hg : next.Grounded (read ++ [token])) : Handled read walk token
  | closed {columns : List Column} {events : List Event}
      (hs : walk.step token = .closed columns events) : Handled read walk token
  | refused (ha : walk.awaiting = .valueList) (hk : token.kind ≠ .leftParen)
      (hs : walk.step token =
        .refused (.unexpectedToken .valueList token.lexeme token.start)) : Handled read walk token

namespace Grounded

variable {read : List Token} {walk other : ColumnWalk} {token : Token}

/-- A step that looks at the token as an attribute. -/
theorem handled_item (h : walk.Grounded read) (ho : other.opened = walk.opened)
    (ha : other.awaiting = .item) (hs : walk.step token = other.item token) :
    Handled read walk token := by
  rcases other.item_cases token with
    ⟨next, events, hi, hopened, hawaiting⟩ | ⟨columns, events, hi⟩ | ⟨hnil, -⟩
  · rw [hi] at hs
    rw [ho] at hopened
    have hinside := opened_ne_nil_of_step hs h.inside
    exact .more hs (h.extend_awaited hinside hopened (.inr (hawaiting ha)))
  · exact .closed (hs.trans hi)
  · exact absurd (ho.symm.trans hnil) h.inside

/-- The token after `DEFAULT` may open a parenthesis, which then counts like any other. -/
theorem handled_default (h : walk.Grounded read) (ha : walk.awaiting = .default) :
    Handled read walk token := by
  have hs := @step_default walk token ha
  refine .more hs (h.extend_awaited (opened_ne_nil_of_step hs h.inside) ?_ (.inl ?_))
  · intro position hmem
    unfold defaultValue at hmem
    split at hmem
    · exact .inl hmem
    · split at hmem
      · rename_i hl
        rcases List.mem_cons.1 hmem with rfl | hmem
        · exact .inr (opensAt_single hl)
        · exact .inl hmem
      · exact .inl hmem
  · unfold defaultValue
    split
    · rfl
    · split <;> rfl

theorem handled_comment (h : walk.Grounded read) (ha : walk.awaiting = .comment) :
    Handled read walk token := by
  by_cases hk : token.kind = .stringLiteral
  · have hs := step_comment ha hk
    have hinside := opened_ne_nil_of_step hs h.inside
    exact .more hs (h.extend_awaited hinside (fun _ hmem => .inl hmem) (.inl rfl))
  · have hs := step_no_comment ha hk
    exact @handled_item read walk { walk with awaiting := .item } token h rfl rfl hs

theorem handled_valueList (h : walk.Grounded read) (ha : walk.awaiting = .valueList) :
    Handled read walk token := by
  by_cases hk : token.kind = .leftParen
  · have hs := step_valueList ha hk
    have hinside := opened_ne_nil_of_step hs h.inside
    refine .more hs (h.extend hinside (fun _ hmem => .inl hmem) (fun scan hscan => ?_) (by simp))
    injection hscan with hscan
    rw [← hscan]
    exact (opensAt_single hk).append_right read
  · exact .refused ha hk (step_no_valueList ha hk)

theorem handled_values (h : walk.Grounded read) {scan : ValueScan}
    (ha : walk.awaiting = .values scan) : Handled read walk token := by
  cases hscan : scan.step token with
  | more later =>
    have hs := step_values ha hscan
    have hinside := opened_ne_nil_of_step hs h.inside
    refine .more hs (h.extend hinside (fun _ hmem => .inl hmem) (fun found hfound => ?_) (by simp))
    injection hfound with hfound
    rw [← hfound, openedAt_of_scan hscan]
    exact (h.values scan ha).append_left [token]
  | closed values =>
    have hs := step_values_closed ha hscan
    have hinside := opened_ne_nil_of_step hs h.inside
    exact .more hs (h.extend_awaited hinside (fun _ hmem => .inl hmem) (.inl rfl))

theorem handled (h : walk.Grounded read) (token : Token) : Handled read walk token := by
  cases ha : walk.awaiting with
  | item => exact h.handled_item rfl ha (step_item ha)
  | default => exact h.handled_default ha
  | comment => exact h.handled_comment ha
  | valueList => exact h.handled_valueList ha
  | values scan => exact h.handled_values ha

end Grounded

end ColumnWalk

/-! ## Statements -/

open ColumnWalk

variable {strictness : Strictness} {tokens read : List Token} {cursor : Cursor}

/-- At the end of the tokens, what is still open or awaited is at fault. -/
theorem causedBy_of_atEnd {walk : ColumnWalk} (h : walk.Grounded tokens) (hne : tokens ≠ [])
    {fault : Fault} (hf : walk.atEnd (Cursor.ofTokens tokens).finish = .error fault) :
    fault.CausedBy strictness tokens := by
  have hbehind : ({ Cursor.ofTokens tokens with rest := [] } : Cursor).Behind tokens tokens :=
    ⟨(List.append_nil _).symm, rfl⟩
  unfold atEnd at hf
  split at hf
  · rename_i ha
    rw [Except.error.injEq] at hf
    rw [← hf]
    have hdue : Expected.valueList.Due tokens := h.valueList ha
    exact hbehind.unexpected hne hdue (by simp)
  · rename_i scan ha
    rw [Except.error.injEq] at hf
    rw [← hf]
    exact .unmatchedInValues (h.values scan ha)
  · split at hf
    · rename_i position outer hopened
      rw [Except.error.injEq] at hf
      rw [← hf]
      exact .unmatchedOpening (h.opened position (hopened ▸ List.mem_cons_self))
    · exact absurd hf (by simp)

theorem causedBy_of_readColumns {rest : List Token} (hs : tokens = read ++ rest)
    (hf : cursor.finish = (Cursor.ofTokens tokens).finish) (hne : tokens ≠ []) {walk : ColumnWalk}
    (h : walk.Grounded read) {count : Nat} {events : List Event} {fault : Fault}
    (hfault : (readColumns cursor walk rest count events).outcome = .error fault) :
    fault.CausedBy strictness tokens := by
  -- Each token goes from those left to those read, in which the walk stays grounded.
  induction rest generalizing read walk count events with
  | nil =>
    rw [List.append_nil] at hs
    subst hs
    rw [readColumns, hf] at hfault
    exact causedBy_of_atEnd h hne hfault
  | cons token rest ih =>
    rw [readColumns] at hfault
    cases h.handled token with
    | more hstep hnext =>
      rw [hstep] at hfault
      have hread : tokens = (read ++ [token]) ++ rest := by rw [hs, List.append_cons]
      exact ih hread hnext hfault
    | closed hstep =>
      rw [hstep] at hfault
      exact absurd hfault (by simp)
    | refused ha hk hstep =>
      rw [hstep] at hfault
      injection hfault with hfault
      rw [← hfault]
      exact .unexpectedToken hs (h.valueList ha) hk

theorem causedBy_of_readColumnList (h : cursor.Behind tokens read) (hne : tokens ≠ [])
    (hs : startsList cursor.rest = true) {fault : Fault}
    (hfault : (readColumnList cursor).outcome = .error fault) :
    fault.CausedBy strictness tokens := by
  unfold readColumnList at hfault
  cases hr : cursor.rest with
  | nil =>
    rw [hr] at hs
    exact absurd hs (by simp [startsList])
  | cons opening rest =>
    rw [hr] at hs hfault
    have hl : opening.kind = .leftParen := by simpa [startsList] using hs
    rw [readColumns, step_start hl] at hfault
    have hread : tokens = (read ++ [opening]) ++ rest := by
      rw [h.split, hr, List.append_cons]
    refine causedBy_of_readColumns hread h.finish hne ⟨by simp, ?_, by simp, by simp⟩ hfault
    intro position hmem
    rw [List.mem_singleton] at hmem
    rw [hmem]
    exact (opensAt_single hl).append_right read

theorem causedBy_of_readBody (h : cursor.Behind tokens read) (hne : tokens ≠ [])
    (hd : EndsIn (fun kind => kind.isName = true) read) {name : String} {fault : Fault}
    (hfault : (readBody strictness name cursor).outcome = .error fault) :
    fault.CausedBy strictness tokens := by
  unfold readBody at hfault
  split at hfault
  · rename_i hs
    dsimp only at hfault
    cases hlist : (readColumnList cursor).outcome with
    | error found =>
      rw [hlist] at hfault
      injection hfault with hfault
      exact hfault ▸ causedBy_of_readColumnList h hne hs hlist
    | ok columns =>
      rw [hlist] at hfault
      obtain ⟨list, hr, -⟩ := (readColumnList_ok_iff hs).1 ⟨hlist, rfl⟩
      have hread : tokens = (read ++ list) ++ (readColumnList cursor).cursor.rest := by
        rw [h.split, List.append_assoc, ← hr]
      dsimp only at hfault
      cases hoptions : (readTableOptions strictness (readColumnList cursor).cursor).outcome with
      | error found =>
        rw [hoptions] at hfault
        injection hfault with hfault
        exact hfault ▸ causedBy_of_readTableOptions hread hoptions
      | ok comment =>
        rw [hoptions] at hfault
        exact absurd hfault (by simp)
  · rename_i hs
    have hdue : Expected.columnList.Due read := hd
    cases strictness with
    | strict =>
      injection hfault with hfault
      rw [← hfault]
      refine h.unexpected hne hdue fun token htoken hmet => hs ?_
      obtain ⟨rest, hr⟩ := List.head?_eq_some_iff.1 htoken
      rw [hr]
      exact decide_eq_true hmet
    | lenient => exact absurd hfault (by simp)

/-- Whatever fault the tokens of a statement lead to, it has its cause among them. -/
theorem causedBy_of_parseTokens {fault : Fault}
    (hfault : parseTokens strictness tokens = .error fault) :
    fault.CausedBy strictness tokens := by
  unfold parseTokens readCreateTable at hfault
  by_cases hne : tokens = []
  · subst hne
    injection hfault with hfault
    rw [← hfault]
    exact .emptyStatement rfl
  rw [if_neg fun hempty => hne hempty.2] at hfault
  dsimp only at hfault
  have hstart : (readStart strictness (.ofTokens tokens)).Explains strictness tokens _ :=
    readStart_explains (Cursor.behind_ofTokens tokens) hne
  cases hs : (readStart strictness (.ofTokens tokens)).outcome with
  | error found =>
    rw [hs] at hfault
    injection hfault with hfault
    exact hfault ▸ hstart.error hs
  | ok =>
    rw [hs] at hfault
    dsimp only at hfault
    cases hh : (readTableName (readStart strictness (.ofTokens tokens)).cursor).outcome with
    | error found =>
      rw [hh] at hfault
      injection hfault with hfault
      obtain ⟨read, hbehind, htable⟩ := hstart.ok hs
      exact hfault ▸ (readTableName_explains hbehind hne htable).error hh
    | ok name =>
      rw [hh] at hfault
      obtain ⟨read, hbehind, hname⟩ := behind_of_readTableName hs hh
      exact causedBy_of_readBody hbehind hne hname hfault

/-- A search for the opening words fails where they are not. -/
theorem seekOpening_of_lacksOpening {rest : List Token} (h : LacksOpening rest) (count : Nat)
    (events : List Event) :
    (seekOpening cursor rest count events).outcome = .error .missingCreateTable := by
  induction rest generalizing count events with
  | nil => rfl
  | cons token rest ih =>
    rw [seekOpening, if_neg]
    · exact ih h.tail _ _
    · rw [startsCreateTable_cons]
      rintro ⟨hk, second, after, rfl, h2⟩
      exact h [] token second after rfl hk h2

theorem parseTokens_of_lacksOpening (hne : tokens ≠ []) (hl : LacksOpening tokens) :
    parseTokens .lenient tokens = .error .missingCreateTable := by
  have hseek : (readStart .lenient (.ofTokens tokens)).outcome = .error .missingCreateTable :=
    seekOpening_of_lacksOpening hl 0 []
  unfold parseTokens readCreateTable
  rw [if_neg fun hempty => hne hempty.2]
  dsimp only
  rw [hseek]

/-- The fault is a text that nothing matches, or it has a cause among the tokens of the statement,
and each token stands where it says. -/
inductive Fault.PointsAtCause (strictness : Strictness) (statement : String) : Fault → Prop
  | unrecognized {lexeme : String} {position : Nat}
      (hs : scan statement = .error (.unrecognized lexeme position))
      (hl : Stands statement position lexeme) :
      PointsAtCause strictness statement (.unrecognized lexeme position)
  | caused {tokens : List Token} {fault : Fault} (hs : scan statement = .ok tokens)
      (hc : fault.CausedBy strictness tokens)
      (hl : ∀ token ∈ tokens, Stands statement token.start token.lexeme)
      (he : ∀ last ∈ tokens.getLast?, EndsAt statement last.stop) :
      PointsAtCause strictness statement fault

theorem pointsAtCause_of_parseStatement {statement : String} {fault : Fault}
    (h : parseStatement strictness statement = .error fault) :
    fault.PointsAtCause strictness statement := by
  unfold parseStatement at h
  cases hs : scan statement with
  | error found =>
    rw [hs] at h
    injection h with h
    subst h
    obtain ⟨lexeme, cuts, front, back, rfl, hstops⟩ := stopsAt_of_scan hs
    exact .unrecognized hs ⟨hstops.slice.1, _, hstops.slice.2⟩
  | ok tokens =>
    rw [hs] at h
    have hlaid := (covers_of_scan hs).laid
    exact .caused hs (causedBy_of_parseTokens h) hlaid.stands hlaid.endsAt

theorem Fault.PointsAtCause.stands {statement found : String} {position : Nat} {expected : Expected}
    (h : (Fault.unexpectedToken expected found position).PointsAtCause strictness statement) :
    Stands statement position found := by
  cases h with
  | caused hs hc hl =>
    cases hc with
    | unexpectedToken h => exact hl _ (by rw [h]; simp)

theorem Fault.PointsAtCause.endsAt {statement : String} {position : Nat} {expected : Expected}
    (h : (Fault.unexpectedEnd expected position).PointsAtCause strictness statement) :
    EndsAt statement position := by
  cases h with
  | caused hs hc hl he =>
    cases hc with
    | unexpectedEnd hd hlast => exact he _ hlast

/-- Every fault of a statement points at its cause. What is found instead of what was expected stands
where the fault says; where the statement ends too early, nothing but white space and comments
follows. A statement is empty exactly if it has no tokens, only a lenient reading misses the words
`CREATE TABLE`, exactly if they are nowhere, and no parenthesis is ever found to close none. -/
theorem parseStatement_faults (strictness : Strictness) (statement : String) :
    (∀ fault, parseStatement strictness statement = .error fault →
        fault.PointsAtCause strictness statement) ∧
      (∀ expected found position,
        parseStatement strictness statement = .error (.unexpectedToken expected found position) →
          Stands statement position found) ∧
      (∀ expected position,
        parseStatement strictness statement = .error (.unexpectedEnd expected position) →
          EndsAt statement position) ∧
      (parseStatement strictness statement = .error .emptyStatement ↔ scan statement = .ok []) ∧
      (parseStatement strictness statement = .error .missingCreateTable ↔
        strictness = .lenient ∧
          ∃ tokens, scan statement = .ok tokens ∧ tokens ≠ [] ∧ LacksOpening tokens) ∧
      ∀ position, parseStatement strictness statement ≠ .error (.unmatchedClosing position) := by
  have hpoints : ∀ fault, parseStatement strictness statement = .error fault →
      fault.PointsAtCause strictness statement := fun _ => pointsAtCause_of_parseStatement
  refine ⟨hpoints, fun _ _ _ h => (hpoints _ h).stands, fun _ _ h => (hpoints _ h).endsAt, ?_, ?_,
    fun position h => ?_⟩
  · constructor
    · intro h
      cases hpoints _ h with
      | caused hs hc =>
        cases hc with
        | emptyStatement hnil => rw [hs, hnil]
    · intro hs
      unfold parseStatement
      rw [hs]
      rfl
  · constructor
    · intro h
      cases hpoints _ h with
      | caused hs hc =>
        cases hc with
        | missingCreateTable hlenient hne hl => exact ⟨hlenient, _, hs, hne, hl⟩
    · rintro ⟨rfl, tokens, hs, hne, hl⟩
      unfold parseStatement
      rw [hs]
      exact parseTokens_of_lacksOpening hne hl
  · cases hpoints _ h with
    | caused hs hc => cases hc

/-- The parenthesis is at fault that stands where the values of the enum should begin. -/
theorem parseStatement_faults_enum :
    parseStatement .strict "CREATE TABLE ü (a ENUM);" =
        .error (.unexpectedToken .valueList ")" 23) ∧
      Stands "CREATE TABLE ü (a ENUM);" 23 ")" ∧
      (Fault.unexpectedToken .valueList ")" 23).PointsAtCause .strict
        "CREATE TABLE ü (a ENUM);" := by
  have hscan : scan "CREATE TABLE ü (a ENUM);" = .ok
      [⟨.keyword .create, "CREATE", 0, 6⟩, ⟨.keyword .table, "TABLE", 7, 12⟩,
        ⟨.name, "ü", 13, 15⟩, ⟨.leftParen, "(", 16, 17⟩, ⟨.name, "a", 17, 18⟩,
        ⟨.keyword .enum, "ENUM", 19, 23⟩, ⟨.rightParen, ")", 23, 24⟩, ⟨.semicolon, ";", 24, 25⟩] :=
    scan_eq_ok_of_toOption (by decide +kernel)
  have hparse : parseStatement .strict "CREATE TABLE ü (a ENUM);" =
      .error (.unexpectedToken .valueList ")" 23) := by
    unfold parseStatement
    rw [hscan]
    rfl
  obtain ⟨hpoints, hstands, -⟩ := parseStatement_faults .strict "CREATE TABLE ü (a ENUM);"
  exact ⟨hparse, hstands _ _ _ hparse, hpoints _ hparse⟩

end TableScribe
