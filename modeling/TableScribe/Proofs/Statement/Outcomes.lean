import TableScribe.Proofs.Statement.Parentheses

/-!
# What comes of reading

The readers of a value list and of a table name can be started anywhere among the tokens of a
statement. For each of them a relation lists everything that can come of it, with the place where
the cursor is left, and the reader is shown to give exactly that.

1. `Cursor.ofIndex`: a place among tokens, by the number of tokens in front of it. A relation that is
   sound and leaves no case out is all that a reader gives (`Reading.gives_iff`).
2. `ValueListRead`: a value list is read if and only if its parentheses match. The values are the
   strings at depth one (`directTexts`), and `readValues_cases` is the loop that counts the depth
   down against `Exhausts`.
3. `TableNameRead`: a table name is read as far as names and dots go by turns; a fault says which
   token breaks the turns.
-/

namespace TableScribe

open ColumnWalk

/-! ## Places by number -/

/-- The place in a token list behind so many of its tokens. -/
def Cursor.ofIndex (tokens : List Token) (index : Nat) : Cursor where
  rest := tokens.drop index
  index
  finish := (Cursor.ofTokens tokens).finish

theorem Cursor.moveTo_ofIndex {tokens front rest : List Token} {index : Nat}
    (h : tokens.drop index = front ++ rest) :
    (Cursor.ofIndex tokens index).moveTo front.length rest =
      .ofIndex tokens (index + front.length) := by
  unfold moveTo ofIndex
  rw [← List.drop_drop, h, List.drop_left]

/-- The reader found this and left the cursor behind so many of the tokens. -/
structure Reading.Gives {α : Type} (reading : Reading α) (tokens : List Token)
    (outcome : Except Fault α) (last : Nat) : Prop where
  outcome : reading.outcome = outcome
  cursor : reading.cursor = .ofIndex tokens last

/-- A relation that lists what a reader may give, and lists something in any case, lists what it
gives. -/
theorem Reading.gives_iff {α : Type} {reading : Reading α} {tokens : List Token}
    {listed : Except Fault α → Nat → Prop} (htotal : ∃ outcome last, listed outcome last)
    (hsound : ∀ outcome last, listed outcome last → reading.Gives tokens outcome last) :
    (∃ outcome last, reading.Gives tokens outcome last) ∧
      ∀ outcome last, reading.Gives tokens outcome last ↔ listed outcome last := by
  obtain ⟨found, place, hlisted⟩ := htotal
  obtain ⟨hfound, hplace⟩ := hsound found place hlisted
  refine ⟨⟨found, place, hfound, hplace⟩, fun outcome last => ⟨?_, hsound outcome last⟩⟩
  rintro ⟨houtcome, hcursor⟩
  have hlast : place = last := congrArg Cursor.index (hplace.symm.trans hcursor)
  rw [← houtcome, hfound, ← hlast]
  exact hlisted

/-! ## Value lists -/

/-- The texts of the strings at depth one, in their order, if `depth` parentheses are open at the
beginning of the tokens. -/
def directTexts (depth : Int) (tokens : List Token) : List String :=
  tokens.zipIdx.filterMap fun (token, place) =>
    if depth + balance (tokens.take place) = 1 ∧ token.kind = .stringLiteral then
      some token.unquoted
    else none

theorem directTexts_cons (depth : Int) (token : Token) (rest : List Token) :
    directTexts depth (token :: rest) =
      (if depth = 1 ∧ token.kind = .stringLiteral then [token.unquoted] else []) ++
        directTexts (depth + token.nesting) rest := by
  have hrest : ∀ place, depth + balance ((token :: rest).take (place + 1)) =
      depth + token.nesting + balance (rest.take place) := by
    intro place
    rw [List.take_succ_cons, balance_cons, Int.add_assoc]
  unfold directTexts
  rw [List.zipIdx_cons, List.filterMap_cons, List.zipIdx_succ, List.filterMap_map]
  simp only [Function.comp_def, hrest, List.take_zero, balance_nil, Int.add_zero]
  split <;> rename_i hfirst <;> simp_all

theorem directTexts_single (depth : Int) (token : Token) :
    directTexts depth [token] =
      if depth = 1 ∧ token.kind = .stringLiteral then [token.unquoted] else [] := by
  rw [directTexts_cons]
  exact List.append_nil _

/-- One more token goes one level down or up and adds its text if it is a string at depth one, or it
closes the outermost parenthesis. -/
theorem ValueScan.step_cases (scan : ValueScan) (token : Token) :
    (∃ next, scan.step token = .more next ∧ next.openedAt = scan.openedAt ∧
        (next.nested : Int) = scan.nested + token.nesting ∧
        next.values = scan.values ++ directTexts (scan.nested + 1) [token]) ∨
      ((scan.nested : Int) + 1 + token.nesting = 0 ∧
        directTexts (scan.nested + 1) [token] = [] ∧
        scan.step token = .closed scan.values) := by
  have hother : token.kind ≠ .stringLiteral → directTexts (scan.nested + 1) [token] = [] := by
    intro hk
    rw [directTexts_single, if_neg fun h => hk h.2]
  unfold step
  cases hk : token.kind with
  | stringLiteral =>
    rw [directTexts_single, nesting_of_no_paren (by simp [hk]) (by simp [hk])]
    dsimp only
    by_cases hn : scan.nested = 0
    · rw [if_pos hn]
      exact .inl ⟨_, rfl, rfl, by simp, by simp [hn, hk]⟩
    · rw [if_neg hn]
      exact .inl ⟨_, rfl, rfl, by simp, by simp; omega⟩
  | leftParen =>
    rw [hother (by simp [hk]), nesting_leftParen hk]
    exact .inl ⟨_, rfl, rfl, rfl, by simp⟩
  | rightParen =>
    rw [hother (by simp [hk]), nesting_rightParen hk]
    cases hn : scan.nested with
    | zero => exact .inr ⟨rfl, rfl, rfl⟩
    | succ nested => exact .inl ⟨_, rfl, rfl, by dsimp only; omega, by simp⟩
  | _ =>
    rw [hother (by simp [hk]), nesting_of_no_paren (by simp [hk]) (by simp [hk])]
    exact .inl ⟨_, rfl, rfl, by simp, by simp⟩

/-- Tokens that take the depth to zero begin only one list that does. -/
theorem Exhausts.eq_of_append {depth : Int} {one other rest more : List Token}
    (h : Exhausts depth one) (ho : Exhausts depth other) (hl : one ++ rest = other ++ more) :
    one = other ∧ rest = more := by
  have hnil : ∀ {list tail : List Token}, Exhausts depth list → Exhausts depth (list ++ tail) →
      tail = [] := by
    intro list tail hlist hlonger
    refine Classical.byContradiction fun hne => ?_
    have hpos := hlonger.inside list tail rfl hne
    have hzero := hlist.ends
    omega
  rcases List.append_eq_append_iff.1 hl with ⟨tail, rfl, rfl⟩ | ⟨tail, rfl, rfl⟩
  · obtain rfl := hnil h ho
    exact ⟨(List.append_nil one).symm, rfl⟩
  · obtain rfl := hnil ho h
    exact ⟨List.append_nil other, rfl⟩

/-- The rest of a value list is read up to the parenthesis that closes the outermost one, and to the
end of the tokens where there is none. -/
theorem readValues_cases (cursor : Cursor) (scan : ValueScan) (tokens : List Token) (count : Nat) :
    (∃ list rest values, tokens = list ++ rest ∧ Exhausts (scan.nested + 1) list ∧
        values = scan.values ++ directTexts (scan.nested + 1) list ∧
        readValues cursor scan tokens count =
          ⟨.ok values, cursor.moveTo (count + list.length) rest, [.enumValues values]⟩) ∨
      ((∀ list rest, tokens = list ++ rest → ¬ Exhausts (scan.nested + 1) list) ∧
        readValues cursor scan tokens count =
          ⟨.error (.unmatchedInValues scan.openedAt),
            cursor.moveTo (count + tokens.length) [], []⟩) := by
  have hpos : (0 : Int) < scan.nested + 1 := by omega
  induction tokens generalizing scan count with
  | nil =>
    refine .inr ⟨fun list rest hl h => ?_, rfl⟩
    rw [(List.append_eq_nil_iff.1 hl.symm).1] at h
    have hends := h.ends
    rw [balance_nil] at hends
    omega
  | cons token tokens ih =>
    rw [readValues]
    rcases scan.step_cases token with
      ⟨next, hstep, hopened, hnested, hvalues⟩ | ⟨hzero, hnone, hstep⟩
    · have hdepth : (next.nested : Int) + 1 = scan.nested + 1 + token.nesting := by omega
      rw [hstep]
      dsimp only
      rcases ih next (count + 1) (by omega) with
        ⟨list, rest, values, rfl, hlist, htexts, hread⟩ | ⟨hnever, hread⟩
      · rw [hdepth] at hlist htexts
        refine .inl ⟨token :: list, rest, values, rfl, .cons hpos hlist, ?_, ?_⟩
        · rw [htexts, hvalues, directTexts_single, directTexts_cons, List.append_assoc]
        · rw [hread, List.length_cons, Nat.add_right_comm, Nat.add_assoc count]
      · refine .inr ⟨fun list rest hl h => ?_, ?_⟩
        · cases list with
          | nil =>
            have hends := h.ends
            rw [balance_nil] at hends
            omega
          | cons first list =>
            rw [List.cons_append, List.cons.injEq] at hl
            obtain ⟨rfl, hl⟩ := hl
            exact hnever list rest hl (hdepth ▸ h.tail)
        · rw [hread, hopened, List.length_cons, Nat.add_right_comm, Nat.add_assoc count]
    · refine .inl ⟨[token], tokens, scan.values, rfl, .single hpos hzero, ?_, ?_⟩
      · rw [hnone, List.append_nil]
      · rw [hstep]
        rfl

/-- What comes of reading a value list behind the first `index` tokens: a result, and behind how
many tokens the cursor is left. -/
inductive ValueListRead (tokens : List Token) (index : Nat) :
    Except Fault (List String) → Nat → Prop
  | matched {list rest : List Token} (h : tokens.drop index = list ++ rest) (hm : Matched list) :
      ValueListRead tokens index (.ok (directTexts 0 list)) (index + list.length)
  | unmatched {opening : Token} {rest : List Token} (h : tokens.drop index = opening :: rest)
      (hk : opening.kind = .leftParen)
      (hno : ∀ list after, tokens.drop index = list ++ after → ¬ Matched list) :
      ValueListRead tokens index (.error (.unmatchedInValues opening.start)) tokens.length
  | unexpectedToken {token : Token} {rest : List Token} (h : tokens.drop index = token :: rest)
      (hk : token.kind ≠ .leftParen) :
      ValueListRead tokens index
        (.error (.unexpectedToken .valueList token.lexeme token.start)) index
  | unexpectedEnd (h : tokens.drop index = []) :
      ValueListRead tokens index
        (.error (.unexpectedEnd .valueList ((tokens.getLast?.map (·.stop)).getD 0))) index

section ValueList

variable {tokens : List Token} {index last : Nat} {outcome : Except Fault (List String)}

/-- A value list begins with a parenthesis, and its values stand at depth one from there on. -/
theorem readValueList_cases {opening : Token} {rest : List Token}
    (h : tokens.drop index = opening :: rest) (hk : opening.kind = .leftParen) :
    (∃ list after, tokens.drop index = list ++ after ∧ Matched list ∧
        (readValueList (.ofIndex tokens index)).Gives tokens (.ok (directTexts 0 list))
          (index + list.length)) ∨
      ((∀ list after, tokens.drop index = list ++ after → ¬ Matched list) ∧
        (readValueList (.ofIndex tokens index)).Gives tokens
          (.error (.unmatchedInValues opening.start)) tokens.length) := by
  have hread : readValueList (.ofIndex tokens index) =
      readValues (.ofIndex tokens index) { openedAt := opening.start } rest 1 := by
    unfold readValueList
    rw [show (Cursor.ofIndex tokens index).rest = opening :: rest from h]
    exact if_pos hk
  rw [hread]
  rcases readValues_cases (.ofIndex tokens index) { openedAt := opening.start } rest 1 with
    ⟨inner, after, values, rfl, hinner, rfl, hcases⟩ | ⟨hnever, hcases⟩
  · have hlist : tokens.drop index = (opening :: inner) ++ after := h
    have htexts : directTexts 0 (opening :: inner) = directTexts 1 inner := by
      rw [directTexts_cons, nesting_leftParen hk]
      rfl
    refine .inl ⟨opening :: inner, after, hlist, matched_iff.2 ⟨_, _, rfl, hk, hinner⟩, ?_⟩
    rw [hcases, htexts]
    refine ⟨rfl, ?_⟩
    rw [← Cursor.moveTo_ofIndex hlist, List.length_cons, Nat.add_comm]
  · have hlength : index + (opening :: rest).length = tokens.length := by
      have hdrop := congrArg List.length h
      rw [List.length_drop, List.length_cons] at hdrop
      rw [List.length_cons]
      omega
    refine .inr ⟨fun list after hl hm => ?_, ?_⟩
    · obtain ⟨first, inner, rfl, -, hinner⟩ := matched_iff.1 hm
      rw [h, List.cons_append, List.cons.injEq] at hl
      exact hnever inner after hl.2 hinner
    · have hlist : tokens.drop index = (opening :: rest) ++ [] := by
        rw [List.append_nil, h]
      rw [hcases]
      refine ⟨rfl, ?_⟩
      rw [← hlength, ← Cursor.moveTo_ofIndex hlist, List.length_cons, Nat.add_comm]

theorem readValueList_of_unopened (h : ∀ token ∈ (tokens.drop index).head?,
    token.kind ≠ .leftParen) :
    (readValueList (.ofIndex tokens index)).outcome =
        .error ((Cursor.ofIndex tokens index).unexpected .valueList) ∧
      (readValueList (.ofIndex tokens index)).cursor = .ofIndex tokens index := by
  unfold readValueList
  split
  · exact ⟨rfl, rfl⟩
  · rename_i token rest hr
    have hk := h token (by rw [show tokens.drop index = token :: rest from hr]; rfl)
    rw [if_neg hk]
    exact ⟨rfl, rfl⟩

theorem ValueListRead.gives (h : ValueListRead tokens index outcome last) :
    (readValueList (.ofIndex tokens index)).Gives tokens outcome last := by
  cases h with
  | @matched list rest h hm =>
    obtain ⟨opening, inner, rfl, hk, hinner⟩ := matched_iff.1 hm
    rcases readValueList_cases h hk with ⟨other, after, hl, ho, hread⟩ | ⟨hnever, -⟩
    · obtain ⟨first, others, rfl, -, hothers⟩ := matched_iff.1 ho
      rw [h, List.cons_append, List.cons_append, List.cons.injEq] at hl
      obtain ⟨rfl, hl⟩ := hl
      rw [(hinner.eq_of_append hothers hl).1]
      exact hread
    · exact absurd hm (hnever _ _ h)
  | unmatched h hk hno =>
    rcases readValueList_cases h hk with ⟨list, after, hl, hm, -⟩ | ⟨-, hread⟩
    · exact absurd hm (hno list after hl)
    · exact hread
  | @unexpectedToken token rest h hk =>
    obtain ⟨houtcome, hcursor⟩ := readValueList_of_unopened (by rw [h]; simpa using hk)
    refine ⟨houtcome.trans ?_, hcursor⟩
    unfold Cursor.unexpected Cursor.ofIndex
    rw [h]
  | unexpectedEnd h =>
    obtain ⟨houtcome, hcursor⟩ := readValueList_of_unopened (by rw [h]; simp)
    refine ⟨houtcome.trans ?_, hcursor⟩
    unfold Cursor.unexpected Cursor.ofIndex
    rw [h]
    rfl

theorem exists_valueListRead (tokens : List Token) (index : Nat) :
    ∃ outcome last, ValueListRead tokens index outcome last := by
  cases hr : tokens.drop index with
  | nil => exact ⟨_, _, .unexpectedEnd hr⟩
  | cons token rest =>
    by_cases hk : token.kind = .leftParen
    · by_cases hm : ∃ list after, tokens.drop index = list ++ after ∧ Matched list
      · obtain ⟨list, after, hl, hm⟩ := hm
        exact ⟨_, _, .matched hl hm⟩
      · exact ⟨_, _, .unmatched hr hk fun list after hl h => hm ⟨list, after, hl, h⟩⟩
    · exact ⟨_, _, .unexpectedToken hr hk⟩

/-- A value list is read if and only if the next token is a parenthesis that another one matches, and
then it gives the strings at depth one between the two. -/
theorem readValueList_iff (tokens : List Token) (index : Nat) :
    (∃ outcome last, (readValueList (.ofIndex tokens index)).Gives tokens outcome last) ∧
      ∀ outcome last, (readValueList (.ofIndex tokens index)).Gives tokens outcome last ↔
        ValueListRead tokens index outcome last :=
  Reading.gives_iff (exists_valueListRead tokens index) fun _ _ h => h.gives

end ValueList

/-! ## Table names -/

/-- Names with a dot behind each of them. -/
inductive Qualifiers : List Token → Prop
  | nil : Qualifiers []
  | cons {token dot : Token} {rest : List Token} (hk : token.kind.isName = true)
      (hd : dot.kind = .dot) (hr : Qualifiers rest) : Qualifiers (token :: dot :: rest)

/-- The tokens begin with as many names and dots as there are by turns: they break off at a name
that no dot follows, or where a name should be. -/
theorem exists_segments_or_qualifiers (tokens : List Token) :
    (∃ segments rest name, tokens = segments ++ rest ∧ Segments segments name ∧ NoDot rest) ∨
      ∃ qualifiers rest, tokens = qualifiers ++ rest ∧ Qualifiers qualifiers ∧
        ∀ token ∈ rest.head?, token.kind.isName = false := by
  match tokens with
  | [] => exact .inr ⟨[], [], rfl, .nil, by simp⟩
  | token :: rest =>
    by_cases hk : token.kind.isName = true
    · by_cases hdot : ∃ dot after, rest = dot :: after ∧ dot.kind = .dot
      · obtain ⟨dot, after, rfl, hd⟩ := hdot
        rcases exists_segments_or_qualifiers after with
          ⟨segments, later, name, hl, hs, hno⟩ | ⟨qualifiers, later, hl, hq, hno⟩
        · exact .inl ⟨token :: dot :: segments, later, name, by rw [hl]; rfl, .dotted hk hd hs, hno⟩
        · exact .inr ⟨token :: dot :: qualifiers, later, by rw [hl]; rfl, .cons hk hd hq, hno⟩
      · exact .inl ⟨[token], rest, token.unquoted, rfl, .last hk token.says_unquoted,
          fun next after hl hd => hdot ⟨next, after, hl, hd⟩⟩
    · exact .inr ⟨[], token :: rest, rfl, .nil, by simpa using hk⟩
termination_by tokens.length

theorem readSegments_of_qualifiers {qualifiers rest : List Token} (h : Qualifiers qualifiers)
    (hno : ∀ token ∈ rest.head?, token.kind.isName = false) (cursor : Cursor) (count : Nat) :
    readSegments cursor (qualifiers ++ rest) count =
      ⟨.error (.missingTableName (cursor.moveTo (count + qualifiers.length) rest).position),
        cursor.moveTo (count + qualifiers.length) rest, []⟩ := by
  induction h generalizing count with
  | nil =>
    rw [List.nil_append, List.length_nil, Nat.add_zero]
    match rest with
    | [] => rfl
    | [token] =>
      rw [readSegments, name?_eq_none (hno token rfl)]
    | token :: next :: rest =>
      rw [readSegments, name?_eq_none (hno token rfl)]
  | @cons token dot qualifiers hk hd _ ih =>
    have hn := Token.name?_eq_some_iff.2 ⟨hk, token.says_unquoted⟩
    rw [List.cons_append, List.cons_append, readSegments, hn]
    dsimp only
    rw [if_pos hd, ih, List.length_cons, List.length_cons, Nat.add_right_comm, Nat.add_assoc count]

/-- No `IF` comes next where a name or a token that is no name but `IF` does. -/
theorem Qualifiers.ne_ifWord {qualifiers rest : List Token} (h : Qualifiers qualifiers)
    (hif : qualifiers = [] → ∀ token ∈ rest.head?, token.kind ≠ .keyword .ifWord) :
    ∀ token ∈ (qualifiers ++ rest).head?, token.kind ≠ .keyword .ifWord := by
  cases h with
  | nil => exact hif rfl
  | cons hk =>
    intro token htoken
    rw [List.cons_append, List.head?_cons, Option.mem_some_iff] at htoken
    exact htoken ▸ ne_ifWord_of_isName hk

/-- What comes of reading a table name behind the first `index` tokens: a result, and behind how
many tokens the cursor is left. -/
inductive TableNameRead (tokens : List Token) (index : Nat) : Except Fault String → Nat → Prop
  | named {header rest : List Token} {name : String} (h : tokens.drop index = header ++ rest)
      (hh : Header header name) (hdot : NoDot rest) :
      TableNameRead tokens index (.ok name) (index + header.length)
  | incomplete {word : Token} {rest : List Token} (h : tokens.drop index = word :: rest)
      (hk : word.kind = .keyword .ifWord)
      (hno : ∀ condition after, tokens.drop index = condition ++ after → Condition condition →
        condition ≠ [] → after = []) :
      TableNameRead tokens index (.error (.incompleteIfNotExists word.start)) index
  | noName {condition qualifiers rest : List Token} {token : Token}
      (h : tokens.drop index = condition ++ (qualifiers ++ token :: rest))
      (hc : Condition condition) (hq : Qualifiers qualifiers) (hk : token.kind.isName = false)
      (hif : condition = [] → qualifiers = [] → token.kind ≠ .keyword .ifWord) :
      TableNameRead tokens index (.error (.missingTableName token.start))
        (index + (condition.length + qualifiers.length))
  | ended {condition qualifiers : List Token} (h : tokens.drop index = condition ++ qualifiers)
      (hc : Condition condition) (hq : Qualifiers qualifiers)
      (hne : condition ≠ [] → qualifiers ≠ []) :
      TableNameRead tokens index
        (.error (.missingTableName ((tokens.getLast?.map (·.stop)).getD 0)))
        (index + (condition.length + qualifiers.length))

section TableName

variable {tokens : List Token} {index last : Nat} {outcome : Except Fault String}

/-- Behind the condition and the qualifiers, a name is missing. -/
theorem readTableName_of_qualifiers {condition qualifiers rest : List Token}
    (h : tokens.drop index = condition ++ (qualifiers ++ rest)) (hc : Condition condition)
    (hq : Qualifiers qualifiers) (hno : ∀ token ∈ rest.head?, token.kind.isName = false)
    (hif : condition = [] → qualifiers = [] → ∀ token ∈ rest.head?,
      token.kind ≠ .keyword .ifWord)
    (hne : condition ≠ [] → qualifiers ++ rest ≠ []) :
    ∃ cursor : Cursor, cursor = .ofIndex tokens (index + (condition.length + qualifiers.length)) ∧
      cursor.rest = rest ∧
      readTableName (.ofIndex tokens index) =
        ⟨.error (.missingTableName cursor.position), cursor, []⟩ := by
  have hfront : tokens.drop index = (condition ++ qualifiers) ++ rest := by
    rw [h, List.append_assoc]
  have hmove := Cursor.moveTo_ofIndex hfront
  rw [List.length_append] at hmove
  refine ⟨_, rfl, ?_, ?_⟩
  · rw [← hmove]
    rfl
  · rw [← hmove, readTableName_of_condition h hc (fun hnil => hq.ne_ifWord (hif hnil)) hne,
      readSegments_of_qualifiers hq hno]

theorem TableNameRead.gives (h : TableNameRead tokens index outcome last) :
    (readTableName (.ofIndex tokens index)).Gives tokens outcome last := by
  cases h with
  | named h hh hdot =>
    rw [readTableName_of_header hh hdot h, Cursor.moveTo_ofIndex h]
    exact ⟨rfl, rfl⟩
  | @incomplete word rest h hk hno =>
    have hnone : afterIfNotExists? (word :: rest) = none := by
      refine Option.eq_none_iff_forall_ne_some.2 fun after ha => ?_
      obtain ⟨first, second, third, hl, h1, h2, h3, hne⟩ := afterIfNotExists?_eq_some_iff.1 ha
      exact hne (hno [first, second, third] after (h.trans hl) (.present h1 h2 h3)
        (List.cons_ne_nil _ _))
    unfold readTableName
    rw [show (Cursor.ofIndex tokens index).rest = word :: rest from h]
    dsimp only
    rw [if_pos (by simp [Token.isKeyword, hk]), hnone]
    exact ⟨rfl, rfl⟩
  | @noName condition qualifiers rest token h hc hq hk hif =>
    obtain ⟨cursor, hcursor, hrest, hread⟩ := readTableName_of_qualifiers h hc hq
      (by simpa using hk) (by simpa using hif) (by simp)
    rw [hread]
    refine ⟨?_, hcursor⟩
    unfold Cursor.position
    rw [hrest]
  | @ended condition qualifiers h hc hq hne =>
    have hrest : tokens.drop index = condition ++ (qualifiers ++ []) := by
      rw [List.append_nil, h]
    obtain ⟨cursor, hcursor, hrest, hread⟩ := readTableName_of_qualifiers hrest hc hq
      (by simp) (by simp) (by simpa using hne)
    rw [hread]
    refine ⟨?_, hcursor⟩
    unfold Cursor.position
    rw [hrest, hcursor]
    rfl

/-- What is behind `IF NOT EXISTS`, or where no `IF` comes next, is read as names and dots. -/
theorem exists_tableNameRead_of_condition {condition rest : List Token}
    (h : tokens.drop index = condition ++ rest) (hc : Condition condition)
    (hif : condition = [] → ∀ token ∈ rest.head?, token.kind ≠ .keyword .ifWord)
    (hne : condition ≠ [] → rest ≠ []) :
    ∃ outcome last, TableNameRead tokens index outcome last := by
  rcases exists_segments_or_qualifiers rest with
    ⟨segments, later, name, rfl, hs, hdot⟩ | ⟨qualifiers, later, rfl, hq, hno⟩
  · have hheader : Header (condition ++ segments) name := ⟨condition, segments, rfl, hc, hs⟩
    exact ⟨_, _, .named (by rw [h, List.append_assoc]) hheader hdot⟩
  · cases later with
    | nil =>
      rw [List.append_nil] at h hne
      exact ⟨_, _, .ended h hc hq hne⟩
    | cons token after =>
      refine ⟨_, _, .noName h hc hq (hno token rfl) fun hnil hnone => ?_⟩
      exact hif hnil token (by rw [hnone]; rfl)

theorem exists_tableNameRead (tokens : List Token) (index : Nat) :
    ∃ outcome last, TableNameRead tokens index outcome last := by
  have habsent : (∀ token ∈ (tokens.drop index).head?, token.kind ≠ .keyword .ifWord) →
      ∃ outcome last, TableNameRead tokens index outcome last := fun hif =>
    exists_tableNameRead_of_condition (List.nil_append _).symm .absent (fun _ => hif)
      fun hne => absurd rfl hne
  cases h : tokens.drop index with
  | nil => exact habsent (by simp [h])
  | cons word rest =>
    by_cases hk : word.kind = .keyword .ifWord
    · by_cases hgo : ∃ condition after, tokens.drop index = condition ++ after ∧
          Condition condition ∧ condition ≠ [] ∧ after ≠ []
      · obtain ⟨condition, after, hl, hc, hcondition, hafter⟩ := hgo
        exact exists_tableNameRead_of_condition hl hc (fun hnil => absurd hnil hcondition)
          fun _ => hafter
      · refine ⟨_, _, .incomplete h hk fun condition after hl hc hcondition => ?_⟩
        exact Classical.byContradiction fun hafter =>
          hgo ⟨condition, after, hl, hc, hcondition, hafter⟩
    · exact habsent (by simpa [h] using hk)

/-- A table name is read as far as names and dots go by turns, behind `IF NOT EXISTS` or not, and it
is the last of these names. -/
theorem readTableName_iff (tokens : List Token) (index : Nat) :
    (∃ outcome last, (readTableName (.ofIndex tokens index)).Gives tokens outcome last) ∧
      ∀ outcome last, (readTableName (.ofIndex tokens index)).Gives tokens outcome last ↔
        TableNameRead tokens index outcome last :=
  Reading.gives_iff (exists_tableNameRead tokens index) fun _ _ h => h.gives

end TableName

end TableScribe
