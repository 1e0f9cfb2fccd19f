import TableScribe.Proofs.Lexical.Rendering
import TableScribe.Proofs.Statement.Readers

/-!
# Reading a token list that has been joined

`Joined` relates a token list to one with the same contents at other places, in which some `NOT` and
`NULL` in a row have become one token. Both are read alike: to the same result, or to faults of the
same variant (`parseTokens_alike`).

1. No reader asks for `NOT`, `NULL` or `NOT NULL`, except for `NOT` after `IF`, where `EXISTS` has
   to follow. So a reader that stands before the two words in one list and before the single one in the
   other does nothing, fails in both, or passes over them.
2. Places matter for faults only. A walk over a column list keeps the places of open parentheses;
   `WalksAlike` leaves everything but their number.
-/

namespace TableScribe

/-! ## Faults, outcomes and readings up to places -/

inductive Fault.SameVariant : Fault → Fault → Prop
  | unrecognized {one other : String} {i j : Nat} :
      SameVariant (.unrecognized one i) (.unrecognized other j)
  | unexpectedToken {one other : Expected} {found text : String} {i j : Nat} :
      SameVariant (.unexpectedToken one found i) (.unexpectedToken other text j)
  | unexpectedEnd {one other : Expected} {i j : Nat} :
      SameVariant (.unexpectedEnd one i) (.unexpectedEnd other j)
  | emptyStatement : SameVariant .emptyStatement .emptyStatement
  | missingCreateTable : SameVariant .missingCreateTable .missingCreateTable
  | missingTableName {i j : Nat} : SameVariant (.missingTableName i) (.missingTableName j)
  | incompleteIfNotExists {i j : Nat} :
      SameVariant (.incompleteIfNotExists i) (.incompleteIfNotExists j)
  | unmatchedOpening {i j : Nat} : SameVariant (.unmatchedOpening i) (.unmatchedOpening j)
  | unmatchedClosing {i j : Nat} : SameVariant (.unmatchedClosing i) (.unmatchedClosing j)
  | unmatchedInValues {i j : Nat} : SameVariant (.unmatchedInValues i) (.unmatchedInValues j)

theorem Fault.SameVariant.symm {one other : Fault} (h : one.SameVariant other) :
    other.SameVariant one := by
  cases h <;> constructor

/-- The same result, or faults of the same variant. -/
inductive SameOutcome {α : Type} : Except Fault α → Except Fault α → Prop
  | ok (a : α) : SameOutcome (.ok a) (.ok a)
  | error {one other : Fault} (h : one.SameVariant other) :
      SameOutcome (.error one) (.error other)

namespace SameOutcome

variable {α : Type} {one other : Except Fault α}

theorem symm (h : SameOutcome one other) : SameOutcome other one := by
  cases h with
  | ok a => exact .ok a
  | error h => exact .error h.symm

theorem eq_ok {a : α} (h : SameOutcome one other) (ho : one = .ok a) : other = .ok a := by
  cases h with
  | ok => exact ho
  | error => exact absurd ho (by simp)

theorem eq_error {fault : Fault} (h : SameOutcome one other) (ho : one = .error fault) :
    ∃ found, other = .error found ∧ fault.SameVariant found := by
  cases h with
  | ok => exact absurd ho (by simp)
  | error h =>
    injection ho with ho
    subst ho
    exact ⟨_, rfl, h⟩

end SameOutcome

/-- The second list has the contents of the first, with some `NOT` and `NULL` joined. -/
inductive Joined : List Token → List Token → Prop
  | nil : Joined [] []
  | same {token again : Token} {rest later : List Token} (h : again.content = token.content)
      (hr : Joined rest later) : Joined (token :: rest) (again :: later)
  | notNull {first second joined : Token} {rest later : List Token}
      (h1 : first.kind = .keyword .notWord) (h2 : second.kind = .keyword .null)
      (h3 : joined.kind = .notNull) (hr : Joined rest later) :
      Joined (first :: second :: rest) (joined :: later)

theorem joined_of_contents {tokens again : List Token}
    (h : again.map Token.content = joinNotNull tokens) : Joined tokens again := by
  induction tokens using joinNotNull.induct generalizing again with
  | case1 =>
    rw [joinNotNull, List.map_eq_nil_iff] at h
    rw [h]
    exact .nil
  | case2 token =>
    rw [joinNotNull, List.map_eq_singleton_iff] at h
    obtain ⟨found, rfl, hfound⟩ := h
    exact .same hfound .nil
  | case3 first second rest hjoin ih =>
    rw [joinNotNull, if_pos hjoin, List.map_eq_cons_iff] at h
    obtain ⟨joined, later, rfl, hjoined, hlater⟩ := h
    exact .notNull hjoin.1 hjoin.2 (congrArg Prod.fst hjoined) (ih hlater)
  | case4 first second rest hjoin ih =>
    rw [joinNotNull, if_neg hjoin, List.map_eq_cons_iff] at h
    obtain ⟨found, later, rfl, hfound, hlater⟩ := h
    exact .same hfound (ih hlater)

/-- Only `NOT` may be joined with what follows it. -/
theorem Joined.cons_inv {token : Token} {rest again : List Token}
    (h : Joined (token :: rest) again) (hk : token.kind ≠ .keyword .notWord) :
    ∃ found later, again = found :: later ∧ found.content = token.content ∧
      Joined rest later := by
  cases h with
  | same h hr => exact ⟨_, _, rfl, h, hr⟩
  | notNull h1 => exact absurd h1 hk

theorem Joined.cons_inv_right {tokens later : List Token} {found : Token}
    (h : Joined tokens (found :: later)) (hk : found.kind ≠ .notNull) :
    ∃ token rest, tokens = token :: rest ∧ found.content = token.content ∧ Joined rest later := by
  cases h with
  | same h hr => exact ⟨_, _, rfl, h, hr⟩
  | notNull h1 h2 h3 => exact absurd h3 hk

theorem Joined.eq_nil_iff {tokens again : List Token} (h : Joined tokens again) :
    tokens = [] ↔ again = [] := by
  cases h <;> simp

/-- The readings have the same outcome, and where they succeed, what is left to read is joined. -/
inductive ReadAlike {α : Type} : Reading α → Reading α → Prop
  | ok {a : α} {one other : Cursor} {events noted : List Event}
      (h : Joined one.rest other.rest) : ReadAlike ⟨.ok a, one, events⟩ ⟨.ok a, other, noted⟩
  | error {one other : Fault} {cursor again : Cursor} {events noted : List Event}
      (h : one.SameVariant other) :
      ReadAlike ⟨.error one, cursor, events⟩ ⟨.error other, again, noted⟩

theorem unexpected_alike {one other : Cursor} (h : Joined one.rest other.rest)
    (expected : Expected) :
    (one.unexpected expected).SameVariant (other.unexpected expected) := by
  unfold Cursor.unexpected
  generalize one.rest = tokens at h
  generalize other.rest = again at h
  cases h with
  | nil => exact .unexpectedEnd
  | same => exact .unexpectedToken
  | notNull => exact .unexpectedToken

/-! ## Tokens of the same content -/

section Content

variable {token again : Token} (h : again.content = token.content)

include h in
theorem kind_of_content : again.kind = token.kind :=
  congrArg Prod.fst h

include h in
theorem lexeme_of_content : again.lexeme = token.lexeme :=
  congrArg Prod.snd h

include h in
theorem unquoted_of_content : again.unquoted = token.unquoted := by
  unfold Token.unquoted
  rw [kind_of_content h, lexeme_of_content h]

include h in
theorem isKeyword_of_content (word : Keyword) : again.isKeyword word = token.isKeyword word := by
  unfold Token.isKeyword
  rw [kind_of_content h]

include h in
theorem name?_of_content : again.name? = token.name? := by
  unfold Token.name?
  rw [kind_of_content h, unquoted_of_content h]

include h in
theorem defaultText_of_content : again.defaultText = token.defaultText := by
  unfold Token.defaultText
  rw [isKeyword_of_content h, unquoted_of_content h]

end Content

/-! ## The opening words -/

theorem startsCreateTable_of_joined {tokens again : List Token} (h : Joined tokens again) :
    startsCreateTable again = startsCreateTable tokens := by
  cases h with
  | nil => rfl
  | @same token found rest later h hr =>
    cases hr with
    | nil => rfl
    | same hnext =>
      simp only [startsCreateTable]
      rw [isKeyword_of_content h, isKeyword_of_content hnext]
    | notNull h1 h2 h3 => simp [startsCreateTable, Token.isKeyword, h1, h3]
  | @notNull first second joined rest later h1 h2 h3 hr =>
    cases later <;> simp [startsCreateTable, Token.isKeyword, h1, h3]

theorem readOpening_alike {one other : Cursor} (h : Joined one.rest other.rest) :
    ReadAlike (readOpening one) (readOpening other) := by
  have hbad : ∀ expected, (one.unexpected expected).SameVariant (other.unexpected expected) :=
    unexpected_alike h
  unfold readOpening
  generalize one.rest = tokens at h
  generalize other.rest = again at h
  cases h with
  | nil => exact .error (hbad _)
  | @same token found rest later h hr =>
    dsimp only
    rw [isKeyword_of_content h]
    split
    · have hrest : Joined (one.moveTo 1 rest).rest (other.moveTo 1 later).rest := hr
      have hnext := unexpected_alike hrest
      cases hr with
      | nil => exact .error (hnext _)
      | same h hr =>
        dsimp only
        rw [isKeyword_of_content h]
        split
        · exact .ok hr
        · exact .error (hnext _)
      | notNull h1 h2 h3 hr =>
        simp only [Token.isKeyword, h1, h3]
        exact .error (hnext _)
    · exact .error (hbad _)
  | notNull h1 h2 h3 hr =>
    simp only [Token.isKeyword, h1, h3]
    exact .error (hbad _)

theorem seekOpening_alike {tokens again : List Token} (h : Joined tokens again)
    (one other : Cursor) (i j : Nat) (events noted : List Event) :
    ReadAlike (seekOpening one tokens i events) (seekOpening other again j noted) := by
  induction h generalizing i j events noted with
  | nil => exact .error .missingCreateTable
  | @same token found rest later h hr ih =>
    have hstarts := startsCreateTable_of_joined (.same h hr)
    rw [seekOpening, seekOpening, hstarts]
    split
    · rename_i hopen
      obtain ⟨-, second, after, rfl, hsecond⟩ := startsCreateTable_cons.1 hopen
      cases hr with
      | same _ hr => exact .ok hr
      | notNull h1 =>
        rw [h1] at hsecond
        exact absurd hsecond (by simp)
    · exact ih _ _ _ _
  | @notNull first second joined rest later h1 h2 h3 hr ih =>
    have hfirst : startsCreateTable (first :: second :: rest) = false := by
      simp [startsCreateTable, Token.isKeyword, h1]
    have hjoined := startsCreateTable_of_joined (.notNull h1 h2 h3 hr)
    have hsecond : startsCreateTable (second :: rest) = false := by
      cases rest <;> simp [startsCreateTable, Token.isKeyword, h2]
    rw [hfirst] at hjoined
    rw [seekOpening, seekOpening, seekOpening, hfirst, hsecond, hjoined]
    exact ih _ _ _ _

/-! ## The table name -/

theorem readSegments_of_no_name {token : Token} (h : token.name? = none) (cursor : Cursor)
    (rest : List Token) (count : Nat) :
    ∃ position later, readSegments cursor (token :: rest) count =
      ⟨.error (.missingTableName position), later, []⟩ := by
  cases rest with
  | nil =>
    rw [readSegments, h]
    exact ⟨_, _, rfl⟩
  | cons next rest =>
    rw [readSegments, h]
    exact ⟨_, _, rfl⟩

theorem Joined.no_name {token : Token} {rest again : List Token}
    (h : Joined (token :: rest) again) (hn : token.name? = none) :
    ∃ found later, again = found :: later ∧ found.name? = none := by
  cases h with
  | same h hr => exact ⟨_, _, rfl, (name?_of_content h).trans hn⟩
  | notNull h1 h2 h3 hr => exact ⟨_, _, rfl, name?_eq_none (by rw [h3]; rfl)⟩

theorem Joined.name {token : Token} {rest again : List Token} {name : String}
    (h : Joined (token :: rest) again) (hn : token.name? = some name) :
    ∃ found later, again = found :: later ∧ found.name? = some name ∧ Joined rest later := by
  have hk : token.kind ≠ .keyword .notWord := by
    intro hk
    rw [name?_eq_none (by rw [hk]; rfl)] at hn
    exact absurd hn (by simp)
  obtain ⟨found, later, rfl, hfound, hr⟩ := h.cons_inv hk
  exact ⟨found, later, rfl, (name?_of_content hfound).trans hn, hr⟩

theorem readSegments_alike {tokens again : List Token} (h : Joined tokens again)
    (one other : Cursor) (i j : Nat) :
    ReadAlike (readSegments one tokens i) (readSegments other again j) := by
  have hnone : ∀ {again : List Token}, (∃ found later, again = found :: later ∧
      found.name? = none) → ∀ (fault : Nat) (cursor : Cursor) (j : Nat),
      ReadAlike ⟨.error (.missingTableName fault), cursor, []⟩ (readSegments other again j) := by
    rintro again ⟨found, later, rfl, hn⟩ fault cursor j
    obtain ⟨position, following, heq⟩ := readSegments_of_no_name hn other later j
    rw [heq]
    exact .error .missingTableName
  fun_induction readSegments one tokens i generalizing again j with
  | case1 count =>
    cases h with
    | nil => exact .error .missingTableName
  | case2 token count hn => exact hnone (h.no_name hn) _ _ _
  | case3 token count name hn =>
    obtain ⟨found, later, rfl, hfound, hr⟩ := h.name hn
    cases hr with
    | nil =>
      rw [readSegments, hfound]
      exact .ok .nil
  | case4 token next rest count hn => exact hnone (h.no_name hn) _ _ _
  | case5 token next rest count name hn hd ih =>
    obtain ⟨found, later, rfl, hfound, hr⟩ := h.name hn
    obtain ⟨following, after, rfl, hnext, hr⟩ := hr.cons_inv (by rw [hd]; simp)
    rw [readSegments, hfound]
    dsimp only
    rw [kind_of_content hnext, if_pos hd]
    exact ih hr _
  | case6 token next rest count name hn hd =>
    obtain ⟨found, later, rfl, hfound, hr⟩ := h.name hn
    have hdot : ∃ following after, later = following :: after ∧ following.kind ≠ .dot := by
      cases hr with
      | same hnext hr => exact ⟨_, _, rfl, by rw [kind_of_content hnext]; exact hd⟩
      | notNull h1 h2 h3 hr => exact ⟨_, _, rfl, by rw [h3]; simp⟩
    obtain ⟨following, after, rfl, hfollowing⟩ := hdot
    rw [readSegments, hfound]
    dsimp only
    rw [if_neg hfollowing]
    exact .ok hr

/-- `IF NOT EXISTS` is found in both lists or in neither: a `NOT` that has been joined is followed
by `NULL`. -/
theorem afterIfNotExists?_of_joined {tokens again : List Token} (h : Joined tokens again) :
    (afterIfNotExists? tokens = none ∧ afterIfNotExists? again = none) ∨
      ∃ rest later, afterIfNotExists? tokens = some rest ∧ afterIfNotExists? again = some later ∧
        Joined rest later := by
  cases hsome : afterIfNotExists? tokens with
  | some rest =>
    obtain ⟨first, second, third, rfl, h1, h2, h3, hne⟩ := afterIfNotExists?_eq_some_iff.1 hsome
    obtain ⟨one, later, rfl, hone, hr⟩ := h.cons_inv (by rw [h1]; simp)
    cases hr with
    | @same _ two _ _ htwo hr =>
      obtain ⟨three, after, rfl, hthree, hr⟩ := hr.cons_inv (by rw [h3]; simp)
      refine .inr ⟨rest, after, rfl, afterIfNotExists?_eq_some_iff.2 ⟨one, two, three, rfl, ?_, ?_,
        ?_, fun hnil => hne (hr.eq_nil_iff.2 hnil)⟩, hr⟩
      · rw [kind_of_content hone, h1]
      · rw [kind_of_content htwo, h2]
      · rw [kind_of_content hthree, h3]
    | notNull _ hnull =>
      rw [h3] at hnull
      exact absurd hnull (by simp)
  | none =>
    refine .inl ⟨rfl, Option.eq_none_iff_forall_ne_some.2 fun after hafter => ?_⟩
    obtain ⟨one, two, three, rfl, h1, h2, h3, hne⟩ := afterIfNotExists?_eq_some_iff.1 hafter
    obtain ⟨first, rest, rfl, hone, hr⟩ := h.cons_inv_right (by rw [h1]; simp)
    obtain ⟨second, rest, rfl, htwo, hr⟩ := hr.cons_inv_right (by rw [h2]; simp)
    obtain ⟨third, rest, rfl, hthree, hr⟩ := hr.cons_inv_right (by rw [h3]; simp)
    rw [kind_of_content hone] at h1
    rw [kind_of_content htwo] at h2
    rw [kind_of_content hthree] at h3
    rw [afterIfNotExists?_eq_some_iff.2 ⟨first, second, third, rfl, h1, h2, h3,
      fun hnil => hne (hr.eq_nil_iff.1 hnil)⟩] at hsome
    exact absurd hsome (by simp)

theorem readTableName_alike {one other : Cursor} (h : Joined one.rest other.rest) :
    ReadAlike (readTableName one) (readTableName other) := by
  unfold readTableName
  generalize one.rest = tokens at h
  generalize other.rest = again at h
  cases h with
  | nil => exact readSegments_alike .nil one other 0 0
  | @same token found rest later h hr =>
    dsimp only
    rw [isKeyword_of_content h]
    split
    · rcases afterIfNotExists?_of_joined (.same h hr) with ⟨h1, h2⟩ | ⟨after, following, h1, h2, h⟩
      · rw [h1, h2]
        exact .error .incompleteIfNotExists
      · rw [h1, h2]
        exact readSegments_alike h one other 3 3
    · exact readSegments_alike (.same h hr) one other 0 0
  | @notNull first second joined rest later h1 h2 h3 hr =>
    have h4 : first.isKeyword .ifWord = false := by simp [Token.isKeyword, h1]
    have h5 : joined.isKeyword .ifWord = false := by simp [Token.isKeyword, h3]
    dsimp only
    rw [h4, h5]
    exact readSegments_alike (.notNull h1 h2 h3 hr) one other 0 0

/-! ## The column list -/

/-- The walks wait for the same, apart from where a value list was opened. -/
inductive AwaitAlike : Awaiting → Awaiting → Prop
  | item : AwaitAlike .item .item
  | default : AwaitAlike .default .default
  | comment : AwaitAlike .comment .comment
  | valueList : AwaitAlike .valueList .valueList
  | values {one other nested : Nat} {values : List String} :
      AwaitAlike (.values ⟨one, nested, values⟩) (.values ⟨other, nested, values⟩)

/-- The walks are the same, apart from the places of open parentheses. -/
structure WalksAlike (one other : ColumnWalk) : Prop where
  opened : one.opened.length = other.opened.length
  draft : one.draft = other.draft
  columns : one.columns = other.columns
  awaiting : AwaitAlike one.awaiting other.awaiting

/-- The steps do the same, apart from places. -/
inductive StepsAlike : ColumnWalk.Step → ColumnWalk.Step → Prop
  | more {one other : ColumnWalk} {events noted : List Event} (h : WalksAlike one other) :
      StepsAlike (.more one events) (.more other noted)
  | closed {columns : List Column} {events noted : List Event} :
      StepsAlike (.closed columns events) (.closed columns noted)
  | failed {one other : Fault} (h : one.SameVariant other) :
      StepsAlike (.failed one) (.failed other)
  | refused {one other : Fault} (h : one.SameVariant other) :
      StepsAlike (.refused one) (.refused other)

namespace WalksAlike

open ColumnWalk

variable {one other : ColumnWalk} (h : WalksAlike one other)

include h in
theorem isTopLevel : other.isTopLevel = one.isTopLevel := by
  unfold ColumnWalk.isTopLevel
  rw [h.opened]

include h in
theorem updateDraft (change : ColumnDraft → ColumnDraft) :
    WalksAlike (one.updateDraft change) (other.updateDraft change) := by
  refine ⟨h.opened, ?_, h.columns, h.awaiting⟩
  unfold ColumnWalk.updateDraft
  rw [h.draft]

include h in
theorem openAt (i j : Nat) : WalksAlike (one.openAt i) (other.openAt j) :=
  ⟨congrArg (· + 1) h.opened, h.draft, h.columns, h.awaiting⟩

include h in
theorem name (name : String) : WalksAlike (one.name name) (other.name name) := by
  refine ⟨h.opened, ?_, h.columns, h.awaiting⟩
  unfold ColumnWalk.name
  rw [h.draft]

include h in
theorem finishColumn : WalksAlike one.finishColumn other.finishColumn := by
  refine ⟨h.opened, rfl, ?_, h.awaiting⟩
  unfold ColumnWalk.finishColumn
  rw [h.draft, h.columns]

include h in
theorem await {awaiting again : Awaiting} (ha : AwaitAlike awaiting again) :
    WalksAlike { one with awaiting } { other with awaiting := again } :=
  ⟨h.opened, h.draft, h.columns, ha⟩

include h in
theorem keyword {token again : Token} (ht : again.content = token.content) (word : Keyword) :
    WalksAlike (one.keyword token word) (other.keyword again word) := by
  have htext := defaultText_of_content ht
  cases word with
  | enum => exact h.await .valueList
  | default => exact h.await .default
  | comment => exact h.await .comment
  | autoIncrement => exact h.updateDraft _
  | currentTimestamp =>
    unfold ColumnWalk.keyword
    rw [h.isTopLevel, htext]
    dsimp only
    split
    · exact h.updateDraft _
    · exact h
  | boolean => exact h.updateDraft _
  | integer => exact h.updateDraft _
  | int => exact h.updateDraft _
  | varchar => exact h.updateDraft _
  | text => exact h.updateDraft _
  | real => exact h.updateDraft _
  | timestamp => exact h.updateDraft _
  | _ => exact h

include h in
theorem closing {token again : Token} (h1 : token.kind = .rightParen)
    (h2 : again.kind = .rightParen) : StepsAlike (one.item token) (other.item again) := by
  have hlength := h.opened
  have hcolumns := h.finishColumn.columns
  unfold ColumnWalk.item
  rw [h1, h2]
  dsimp only
  rw [hcolumns]
  cases hone : one.opened with
  | nil =>
    rw [hone] at hlength
    rw [List.length_eq_zero_iff.1 hlength.symm]
    exact .failed .unmatchedClosing
  | cons first outer =>
    rw [hone] at hlength
    obtain ⟨second, rest, hother⟩ := List.exists_cons_of_length_eq_add_one hlength.symm
    rw [hother] at hlength ⊢
    have houter : outer.length = rest.length := by simpa using hlength
    cases outer with
    | nil =>
      rw [List.length_eq_zero_iff.1 houter.symm]
      exact .closed
    | cons next outer =>
      obtain ⟨third, rest, rfl⟩ := List.exists_cons_of_length_eq_add_one houter.symm
      exact .more ⟨houter, h.draft, h.columns, h.awaiting⟩

include h in
theorem item {token again : Token} (ht : again.content = token.content) :
    StepsAlike (one.item token) (other.item again) := by
  have hkind := kind_of_content ht
  have htext := unquoted_of_content ht
  cases hk : token.kind with
  | rightParen => exact h.closing hk (hkind.trans hk)
  | leftParen =>
    unfold ColumnWalk.item
    rw [hkind, hk]
    exact .more (h.openAt _ _)
  | keyword word =>
    unfold ColumnWalk.item
    rw [hkind, hk]
    exact .more (h.keyword ht word)
  | length =>
    unfold ColumnWalk.item
    rw [hkind, hk, htext]
    exact .more (h.updateDraft _)
  | _ =>
    unfold ColumnWalk.item
    rw [hkind, hk, htext, h.isTopLevel, defaultText_of_content ht]
    dsimp only
    try split
    all_goals first
      | exact .more h
      | exact .more (h.name _)
      | exact .more (h.updateDraft _)
      | exact .more h.finishColumn

include h in
theorem defaultValue {token again : Token} (ht : again.content = token.content) :
    WalksAlike (one.defaultValue token) (other.defaultValue again) := by
  unfold ColumnWalk.defaultValue
  rw [kind_of_content ht, defaultText_of_content ht]
  split
  · exact h.updateDraft _
  split
  · exact h.openAt _ _
  · exact h

end WalksAlike

theorem scan_alike {one other nested : Nat} {values : List String} {token again : Token}
    (ht : again.content = token.content) :
    (∃ depth found,
      ValueScan.step ⟨one, nested, values⟩ token = .more ⟨one, depth, found⟩ ∧
        ValueScan.step ⟨other, nested, values⟩ again = .more ⟨other, depth, found⟩) ∨
      ∃ found, ValueScan.step ⟨one, nested, values⟩ token = .closed found ∧
        ValueScan.step ⟨other, nested, values⟩ again = .closed found := by
  unfold ValueScan.step
  rw [kind_of_content ht, unquoted_of_content ht]
  cases token.kind with
  | stringLiteral =>
    dsimp only
    split
    · exact .inl ⟨_, _, rfl, rfl⟩
    · exact .inl ⟨_, _, rfl, rfl⟩
  | rightParen =>
    cases nested with
    | zero => exact .inr ⟨_, rfl, rfl⟩
    | succ nested => exact .inl ⟨_, _, rfl, rfl⟩
  | _ => exact .inl ⟨_, _, rfl, rfl⟩

/-- Steps over tokens of the same content are alike. -/
theorem WalksAlike.step {one other : ColumnWalk} (h : WalksAlike one other) {token again : Token}
    (ht : again.content = token.content) : StepsAlike (one.step token) (other.step again) := by
  have ha := h.awaiting
  have hitem : WalksAlike { one with awaiting := .item } { other with awaiting := .item } :=
    h.await .item
  unfold ColumnWalk.step
  generalize hone : one.awaiting = waiting at ha
  generalize hother : other.awaiting = again at ha
  cases ha with
  | item => exact h.item ht
  | default => exact .more (hitem.defaultValue ht)
  | comment =>
    dsimp only
    rw [kind_of_content ht, unquoted_of_content ht]
    split
    · exact .more (hitem.updateDraft _)
    · exact hitem.item ht
  | valueList =>
    dsimp only
    rw [kind_of_content ht]
    split
    · exact .more (h.await .values)
    · exact .refused .unexpectedToken
  | @values i j nested values =>
    dsimp only
    rcases scan_alike ht with ⟨depth, found, h1, h2⟩ | ⟨found, h1, h2⟩
    · rw [h1, h2]
      exact .more (h.await .values)
    · rw [h1, h2]
      exact .more (hitem.updateDraft _)

/-! ### Tokens that a walk passes over -/

/-- `NOT`, `NULL` or both. -/
def Token.IsIdle (token : Token) : Prop :=
  token.kind ∈ [TokenKind.keyword .notWord, .keyword .null, .notNull]

/-- The walk after a token that it takes no notice of. -/
def ColumnWalk.settled (walk : ColumnWalk) : ColumnWalk :=
  match walk.awaiting with
  | .values _ => walk
  | _ => { walk with awaiting := .item }

theorem Token.IsIdle.cases {token : Token} (h : token.IsIdle) :
    token.kind = .keyword .notWord ∨ token.kind = .keyword .null ∨ token.kind = .notNull := by
  unfold Token.IsIdle at h
  simpa only [List.mem_cons, List.not_mem_nil, or_false] using h

theorem item_of_idle {walk : ColumnWalk} {token : Token} (hk : token.IsIdle) :
    walk.item token = .more walk [] := by
  unfold ColumnWalk.item
  rcases hk.cases with hk | hk | hk
  · rw [hk]
    rfl
  · rw [hk]
    rfl
  · rw [hk]

theorem defaultValue_of_idle {walk : ColumnWalk} {token : Token} (hk : token.IsIdle) :
    walk.defaultValue token = walk := by
  unfold ColumnWalk.defaultValue
  rcases hk.cases with hk | hk | hk <;>
    rw [hk, if_neg (by simp [TokenKind.isDefaultValue]), if_neg (by simp)]

theorem scan_of_idle {scan : ValueScan} {token : Token} (hk : token.IsIdle) :
    scan.step token = .more scan := by
  unfold ValueScan.step
  rcases hk.cases with hk | hk | hk <;> rw [hk]

/-- A walk passes over such a token, except where it has to find a value list. -/
theorem step_of_idle (walk : ColumnWalk) {token : Token} (hk : token.IsIdle) :
    (walk.awaiting = .valueList ∧
        walk.step token = .refused (.unexpectedToken .valueList token.lexeme token.start)) ∨
      (walk.awaiting ≠ .valueList ∧ walk.step token = .more walk.settled []) := by
  have hstring : token.kind ≠ .stringLiteral := by rcases hk.cases with h | h | h <;> simp [h]
  have hparen : token.kind ≠ .leftParen := by rcases hk.cases with h | h | h <;> simp [h]
  obtain ⟨opened, draft, columns, awaiting⟩ := walk
  cases awaiting with
  | item => exact .inr ⟨by simp, item_of_idle hk⟩
  | default => exact .inr ⟨by simp, congrArg (ColumnWalk.Step.more · []) (defaultValue_of_idle hk)⟩
  | comment =>
    refine .inr ⟨by simp, ?_⟩
    show (if _ then _ else _) = _
    rw [if_neg hstring]
    exact item_of_idle hk
  | valueList => exact .inl ⟨rfl, if_neg hparen⟩
  | values scan =>
    refine .inr ⟨by simp, ?_⟩
    unfold ColumnWalk.step
    dsimp only
    rw [scan_of_idle hk]
    rfl

theorem WalksAlike.valueList_iff {one other : ColumnWalk} (h : WalksAlike one other) :
    one.awaiting = .valueList ↔ other.awaiting = .valueList := by
  have ha := h.awaiting
  generalize one.awaiting = waiting at ha
  generalize other.awaiting = again at ha
  cases ha <;> simp

theorem WalksAlike.settled {one other : ColumnWalk} (h : WalksAlike one other) :
    WalksAlike one.settled.settled other.settled := by
  obtain ⟨opened, draft, columns, awaiting⟩ := one
  obtain ⟨again, found, others, waiting⟩ := other
  obtain ⟨hopened, hdraft, hcolumns, hawaiting⟩ := h
  cases hawaiting with
  | values => exact ⟨hopened, hdraft, hcolumns, .values⟩
  | _ => exact ⟨hopened, hdraft, hcolumns, .item⟩

theorem settled_ne_valueList (walk : ColumnWalk) : walk.settled.awaiting ≠ .valueList := by
  obtain ⟨opened, draft, columns, awaiting⟩ := walk
  cases awaiting <;> simp [ColumnWalk.settled]

/-! ### The list as a whole -/

theorem atEnd_alike {one other : ColumnWalk} (h : WalksAlike one other) (i j : Nat) :
    SameOutcome (one.atEnd i) (other.atEnd j) := by
  have ha := h.awaiting
  have hlength := h.opened
  unfold ColumnWalk.atEnd
  rw [h.finishColumn.columns]
  generalize one.awaiting = waiting at ha
  generalize other.awaiting = again at ha
  generalize one.opened = opened at hlength
  generalize other.opened = outer at hlength
  cases ha with
  | valueList => exact .error .unexpectedEnd
  | values => exact .error .unmatchedInValues
  | _ =>
    cases opened with
    | nil =>
      rw [List.length_eq_zero_iff.1 hlength.symm]
      exact .ok _
    | cons first opened =>
      obtain ⟨second, outer, rfl⟩ := List.exists_cons_of_length_eq_add_one hlength.symm
      exact .error .unmatchedOpening

theorem ReadAlike.of_outcome {α : Type} {one other : Except Fault α} {cursor later : Cursor}
    {events noted : List Event} (h : SameOutcome one other)
    (hrest : Joined cursor.rest later.rest) :
    ReadAlike ⟨one, cursor, events⟩ ⟨other, later, noted⟩ := by
  cases h with
  | ok a => exact .ok hrest
  | error h => exact .error h

theorem readColumns_alike {tokens again : List Token} (h : Joined tokens again)
    {one other : ColumnWalk} (hw : WalksAlike one other) (cursor later : Cursor) (i j : Nat)
    (events noted : List Event) :
    ReadAlike (readColumns cursor one tokens i events)
      (readColumns later other again j noted) := by
  induction h generalizing one other i j events noted with
  | nil => exact .of_outcome (atEnd_alike hw _ _) .nil
  | @same token found rest others h hr ih =>
    have hstep := hw.step h
    rw [readColumns, readColumns]
    generalize one.step token = step at hstep
    generalize other.step found = again at hstep
    cases hstep with
    | more h => exact ih h _ _ _ _
    | closed => exact .ok hr
    | failed h => exact .error h
    | refused h => exact .error h
  | @notNull first second joined rest others h1 h2 h3 hr ih =>
    have hfirst : first.IsIdle := by simp [Token.IsIdle, h1]
    have hsecond : second.IsIdle := by simp [Token.IsIdle, h2]
    have hjoined : joined.IsIdle := by simp [Token.IsIdle, h3]
    rw [readColumns, readColumns]
    rcases step_of_idle one hfirst with ⟨ha, hs⟩ | ⟨ha, hs⟩
    · rcases step_of_idle other hjoined with ⟨-, hs'⟩ | ⟨ha', -⟩
      · rw [hs, hs']
        exact .error .unexpectedToken
      · exact absurd (hw.valueList_iff.1 ha) ha'
    · rcases step_of_idle other hjoined with ⟨ha', -⟩ | ⟨-, hs'⟩
      · exact absurd (hw.valueList_iff.2 ha') ha
      · rcases step_of_idle one.settled hsecond with ⟨ha'', -⟩ | ⟨-, hs''⟩
        · exact absurd ha'' (settled_ne_valueList one)
        · rw [hs, hs']
          dsimp only
          rw [readColumns, hs'']
          exact ih hw.settled _ _ _ _

/-! ## The options and the statement -/

theorem readOptions_of_idle {token : Token} (hk : token.IsIdle) (cursor : Cursor)
    (state : OptionState) (comment : Option String) (rest : List Token) (count : Nat)
    (events : List Event) :
    readOptions cursor state comment (token :: rest) count events =
      readOptions cursor .plain comment rest (count + 1)
        (events ++ [.ignoredOption token.lexeme]) := by
  rw [readOptions]
  rcases hk.cases with hk | hk | hk <;> simp [hk]

/-- The options are always read, and joined options give the same comment. -/
theorem readOptions_alike {tokens again : List Token} (h : Joined tokens again)
    (one other : Cursor) (state : OptionState) (comment : Option String) (i j : Nat)
    (events noted : List Event) :
    ∃ found cursor later, ∃ events' noted' : List Event,
      readOptions one state comment tokens i events = ⟨.ok found, cursor, events'⟩ ∧
        readOptions other state comment again j noted = ⟨.ok found, later, noted'⟩ ∧
        Joined cursor.rest later.rest := by
  induction h generalizing state comment i j events noted with
  | nil => exact ⟨comment, _, _, _, _, rfl, rfl, .nil⟩
  | @same token found rest later h hr ih =>
    rw [readOptions, readOptions, kind_of_content h, unquoted_of_content h]
    split
    · exact ih _ _ _ _ _ _
    split
    · exact ih _ _ _ _ _ _
    split
    · exact ⟨comment, _, _, _, _, rfl, rfl, hr⟩
    split
    · exact ih _ _ _ _ _ _
    · exact ih _ _ _ _ _ _
  | @notNull first second joined rest later h1 h2 h3 hr ih =>
    have hfirst : first.IsIdle := by simp [Token.IsIdle, h1]
    have hsecond : second.IsIdle := by simp [Token.IsIdle, h2]
    have hjoined : joined.IsIdle := by simp [Token.IsIdle, h3]
    rw [readOptions_of_idle hfirst, readOptions_of_idle hsecond, readOptions_of_idle hjoined]
    exact ih _ _ _ _ _ _

theorem readTableOptions_alike (strictness : Strictness) {one other : Cursor}
    (h : Joined one.rest other.rest) :
    ReadAlike (readTableOptions strictness one) (readTableOptions strictness other) := by
  obtain ⟨comment, cursor, later, events, noted, h1, h2, hrest⟩ :=
    readOptions_alike h one other .plain none 0 0 [] []
  have hfault := unexpected_alike hrest .statementEnd
  unfold readTableOptions
  rw [h1, h2]
  simp only [ne_eq, hrest.eq_nil_iff]
  split
  · exact .error hfault
  · exact .ok hrest

theorem startsList_of_joined {tokens again : List Token} (h : Joined tokens again) :
    startsList again = startsList tokens := by
  cases h with
  | nil => rfl
  | same h hr => simp only [startsList, kind_of_content h]
  | notNull h1 h2 h3 hr => simp [startsList, h1, h3]

theorem readBody_alike (strictness : Strictness) (name : String) {one other : Cursor}
    (h : Joined one.rest other.rest) :
    SameOutcome (readBody strictness name one).outcome
      (readBody strictness name other).outcome := by
  unfold readBody
  rw [startsList_of_joined h]
  split
  · have hwalk : WalksAlike {} {} := ⟨rfl, rfl, rfl, .item⟩
    have hlist : ReadAlike (readColumnList one) (readColumnList other) :=
      readColumns_alike h hwalk one other 0 0 [] []
    generalize readColumnList one = list at hlist
    generalize readColumnList other = again at hlist
    cases hlist with
    | error h => exact .error h
    | @ok columns cursor later events noted hrest =>
      dsimp only
      have hoptions := readTableOptions_alike strictness hrest
      generalize readTableOptions strictness cursor = options at hoptions
      generalize readTableOptions strictness later = found at hoptions
      cases hoptions with
      | ok => exact .ok _
      | error h => exact .error h
  · cases strictness with
    | strict => exact .error (unexpected_alike h .columnList)
    | lenient => exact .ok _

theorem readStart_alike (strictness : Strictness) {one other : Cursor}
    (h : Joined one.rest other.rest) :
    ReadAlike (readStart strictness one) (readStart strictness other) := by
  cases strictness with
  | strict => exact readOpening_alike h
  | lenient => exact seekOpening_alike h one other 0 0 [] []

/-- A token list and one in which `NOT` and `NULL` have been joined define the same table, or fail
with faults of the same variant. -/
theorem parseTokens_alike {tokens again : List Token} (h : Joined tokens again)
    (strictness : Strictness) :
    SameOutcome (parseTokens strictness tokens) (parseTokens strictness again) := by
  have hempty : ((Cursor.ofTokens tokens).index = 0 ∧ (Cursor.ofTokens tokens).rest = []) ↔
      ((Cursor.ofTokens again).index = 0 ∧ (Cursor.ofTokens again).rest = []) :=
    and_congr_right fun _ => h.eq_nil_iff
  unfold parseTokens readCreateTable
  simp only [hempty]
  split
  · exact .error .emptyStatement
  have hstart : ReadAlike (readStart strictness (.ofTokens tokens))
      (readStart strictness (.ofTokens again)) := readStart_alike strictness h
  generalize readStart strictness (.ofTokens tokens) = start at hstart
  generalize readStart strictness (.ofTokens again) = found at hstart
  cases hstart with
  | error h => exact .error h
  | @ok _ cursor later events noted hrest =>
    dsimp only
    have hname := readTableName_alike hrest
    generalize readTableName cursor = header at hname
    generalize readTableName later = found at hname
    cases hname with
    | error h => exact .error h
    | ok hrest => exact readBody_alike strictness _ hrest

end TableScribe
