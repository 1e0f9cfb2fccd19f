import TableScribe.Proofs.Statement.Grammar

/-!
# The readers of a statement against its grammar

Each reader is described by what it accepts and where it stops:

1. `readTableName` accepts a `Header` that no further dot follows;
2. `readOptions` stops after the first semicolon or at the end, and finds the `TableComment` of what
   it has read;
3. `readOpening` accepts `CREATE TABLE`, and `seekOpening` passes over tokens among which these
   words do not follow each other.

Outcomes do not depend on the offsets, counts and events that a cursor carries along, so the lemmas
hold for every cursor.
-/

namespace TableScribe

/-! ## The table name -/

def NoDot (tokens : List Token) : Prop :=
  ∀ next after, tokens = next :: after → next.kind ≠ .dot

theorem Token.name?_eq_some_iff {token : Token} {name : String} :
    token.name? = some name ↔ token.kind.isName = true ∧ token.Says name := by
  rw [Token.says_iff]
  unfold Token.name?
  split <;> simp_all

theorem name?_eq_none {token : Token} (h : token.kind.isName = false) : token.name? = none := by
  unfold Token.name?
  rw [h]
  rfl

theorem Segments.ne_nil {tokens : List Token} {name : String} (h : Segments tokens name) :
    ∃ token rest, tokens = token :: rest ∧ token.kind.isName = true := by
  cases h with
  | last hk hs => exact ⟨_, _, rfl, hk⟩
  | dotted hk hd hr => exact ⟨_, _, rfl, hk⟩

theorem segments_of_readSegments {cursor : Cursor} {tokens : List Token} {count : Nat}
    {name : String} (h : (readSegments cursor tokens count).outcome = .ok name) :
    ∃ segments, tokens = segments ++ (readSegments cursor tokens count).cursor.rest ∧
      Segments segments name ∧ NoDot (readSegments cursor tokens count).cursor.rest := by
  fun_induction readSegments cursor tokens count with
  | case1 count => exact absurd h (by simp)
  | case2 token count hn => exact absurd h (by simp)
  | case3 token count found hn =>
    injection h with h
    subst h
    obtain ⟨hk, hs⟩ := Token.name?_eq_some_iff.1 hn
    exact ⟨[token], rfl, .last hk hs, fun _ _ hnil => absurd hnil (by simp [Cursor.moveTo])⟩
  | case4 token next rest count hn => exact absurd h (by simp)
  | case5 token next rest count found hn hd ih =>
    obtain ⟨segments, hl, hs, hdot⟩ := ih h
    refine ⟨token :: next :: segments, ?_, .dotted (Token.name?_eq_some_iff.1 hn).1 hd hs, hdot⟩
    rw [List.cons_append, List.cons_append, ← hl]
  | case6 token next rest count found hn hd =>
    injection h with h
    subst h
    obtain ⟨hk, hs⟩ := Token.name?_eq_some_iff.1 hn
    refine ⟨[token], rfl, .last hk hs, ?_⟩
    intro head after hl
    rw [Cursor.moveTo, List.cons.injEq] at hl
    rw [← hl.1]
    exact hd

theorem readSegments_of_segments {segments rest : List Token} {name : String}
    (h : Segments segments name) (hdot : NoDot rest) (cursor : Cursor) (count : Nat) :
    readSegments cursor (segments ++ rest) count =
      ⟨.ok name, cursor.moveTo (count + segments.length) rest, [.tableName name]⟩ := by
  induction h generalizing count with
  | @last token name hk hs =>
    have hn := Token.name?_eq_some_iff.2 ⟨hk, hs⟩
    cases rest with
    | nil =>
      rw [List.singleton_append, readSegments, hn]
      rfl
    | cons next after =>
      rw [List.singleton_append, readSegments, hn]
      dsimp only
      rw [if_neg (hdot next after rfl)]
      rfl
  | @dotted token dot segments name hk hd _ ih =>
    have hn := Token.name?_eq_some_iff.2 ⟨hk, token.says_unquoted⟩
    rw [List.cons_append, List.cons_append, readSegments, hn]
    dsimp only
    rw [if_pos hd, ih]
    simp only [List.length_cons]
    congr 2
    omega

theorem afterIfNotExists?_eq_some_iff {tokens rest : List Token} :
    afterIfNotExists? tokens = some rest ↔
      ∃ first second third, tokens = first :: second :: third :: rest ∧
        first.kind = .keyword .ifWord ∧ second.kind = .keyword .notWord ∧
        third.kind = .keyword .existsWord ∧ rest ≠ [] := by
  constructor
  · intro h
    unfold afterIfNotExists? at h
    split at h
    · rename_i first second third after
      split at h
      · rename_i hk
        injection h with h
        subst h
        simp only [Token.isKeyword, decide_eq_true_eq] at hk
        exact ⟨first, second, third, rfl, hk⟩
      · exact absurd h (by simp)
    · exact absurd h (by simp)
  · rintro ⟨first, second, third, rfl, h1, h2, h3, hne⟩
    simp [afterIfNotExists?, Token.isKeyword, h1, h2, h3, hne]

theorem header_of_readTableName {cursor : Cursor} {name : String}
    (h : (readTableName cursor).outcome = .ok name) :
    ∃ header, cursor.rest = header ++ (readTableName cursor).cursor.rest ∧ Header header name ∧
      NoDot (readTableName cursor).cursor.rest := by
  unfold readTableName at h ⊢
  split at h
  · rename_i hr
    rw [hr]
    exact absurd h (by simp [readSegments])
  · rename_i token rest hr
    rw [hr]
    by_cases hif : token.isKeyword .ifWord = true
    · rw [if_pos hif] at h ⊢
      cases ha : afterIfNotExists? (token :: rest) with
      | none => rw [ha] at h; exact absurd h (by simp)
      | some after =>
        rw [ha] at h
        obtain ⟨first, second, third, hl, h1, h2, h3, -⟩ := afterIfNotExists?_eq_some_iff.1 ha
        obtain ⟨segments, hseg, hs, hdot⟩ := segments_of_readSegments h
        refine ⟨first :: second :: third :: segments, ?_, ?_, hdot⟩
        · rw [hl, List.cons_append, List.cons_append, List.cons_append, ← hseg]
        · exact ⟨_, segments, rfl, .present h1 h2 h3, hs⟩
    · rw [if_neg hif] at h ⊢
      obtain ⟨segments, hseg, hs, hdot⟩ := segments_of_readSegments h
      exact ⟨segments, hseg, ⟨[], segments, rfl, .absent, hs⟩, hdot⟩

/-- Behind `IF NOT EXISTS`, with something left to be read, or where there is no `IF`, the names
are read. -/
theorem readTableName_of_condition {cursor : Cursor} {condition rest : List Token}
    (hr : cursor.rest = condition ++ rest) (hc : Condition condition)
    (hif : condition = [] → ∀ token ∈ rest.head?, token.kind ≠ .keyword .ifWord)
    (hne : condition ≠ [] → rest ≠ []) :
    readTableName cursor = readSegments cursor rest condition.length := by
  unfold readTableName
  rw [hr]
  cases hc with
  | absent =>
    rw [List.nil_append]
    cases rest with
    | nil => rfl
    | cons token rest =>
      have hk := hif rfl token rfl
      exact if_neg (by simpa [Token.isKeyword] using hk)
  | @present first second third h1 h2 h3 =>
    have ha : afterIfNotExists? (first :: second :: third :: rest) = some rest :=
      afterIfNotExists?_eq_some_iff.2 ⟨_, _, _, rfl, h1, h2, h3, hne (List.cons_ne_nil _ _)⟩
    have hl : [first, second, third] ++ rest = first :: second :: third :: rest := rfl
    rw [hl]
    dsimp only
    rw [if_pos (by simp [Token.isKeyword, h1]), ha]
    rfl

theorem ne_ifWord_of_isName {token : Token} (hk : token.kind.isName = true) :
    token.kind ≠ .keyword .ifWord := by
  intro hif
  rw [hif] at hk
  exact absurd hk (by decide)

theorem readTableName_of_header {header rest : List Token} {name : String}
    (h : Header header name) (hdot : NoDot rest) {cursor : Cursor}
    (hr : cursor.rest = header ++ rest) :
    readTableName cursor = ⟨.ok name, cursor.moveTo header.length rest, [.tableName name]⟩ := by
  obtain ⟨condition, segments, rfl, hc, hs⟩ := h
  obtain ⟨token, after, hsegments, hk⟩ := hs.ne_nil
  rw [List.append_assoc] at hr
  rw [readTableName_of_condition hr hc ?_ ?_, readSegments_of_segments hs hdot,
    List.length_append]
  · intro _ first hfirst
    rw [hsegments, List.cons_append, List.head?_cons, Option.mem_some_iff] at hfirst
    exact hfirst ▸ ne_ifWord_of_isName hk
  · intro _
    rw [hsegments]
    exact List.cons_ne_nil _ _

/-! ## The options of a table -/

def EndsInSemicolon (options : List Token) : Prop :=
  ∃ body semicolon, options = body ++ [semicolon] ∧ semicolon.kind = .semicolon

theorem EndsStatement.tail {token : Token} {rest : List Token}
    (h : EndsStatement (token :: rest)) : EndsStatement rest := by
  intro before semicolon after hl hk
  refine h (token :: before) semicolon after ?_ hk
  rw [List.cons_append, ← hl]

theorem EndsInSemicolon.tail {token : Token} {rest : List Token}
    (h : EndsInSemicolon (token :: rest)) (hk : token.kind ≠ .semicolon) :
    EndsInSemicolon rest := by
  obtain ⟨body, semicolon, hl, hs⟩ := h
  cases body with
  | nil =>
    rw [List.nil_append, List.cons.injEq] at hl
    rw [hl.1] at hk
    exact absurd hs hk
  | cons first body =>
    rw [List.cons_append, List.cons.injEq] at hl
    exact ⟨body, semicolon, hl.2, hs⟩

theorem EndsStatement.nil : EndsStatement [] :=
  fun _ _ _ hl => absurd hl (by simp)

theorem EndsStatement.single (token : Token) : EndsStatement [token] := by
  intro before semicolon after hl _
  have hlen := congrArg List.length hl
  simp only [List.length_append, List.length_cons, List.length_nil] at hlen
  exact List.length_eq_zero_iff.1 (by omega)

theorem EndsStatement.cons {token : Token} {rest : List Token} (hk : token.kind ≠ .semicolon)
    (h : EndsStatement rest) : EndsStatement (token :: rest) := by
  intro before semicolon after hl hs
  cases before with
  | nil =>
    rw [List.nil_append, List.cons.injEq] at hl
    rw [hl.1] at hk
    exact absurd hs hk
  | cons first before =>
    rw [List.cons_append, List.cons.injEq] at hl
    exact h before semicolon after hl.2 hs

/-- Options that go on after a semicolon begin with options that end in one. -/
theorem endsStatement_or_append (tokens : List Token) :
    EndsStatement tokens ∨ ∃ options after, tokens = options ++ after ∧ after ≠ [] ∧
      EndsStatement options ∧ EndsInSemicolon options := by
  induction tokens with
  | nil => exact .inl .nil
  | cons token rest ih =>
    by_cases hk : token.kind = .semicolon
    · by_cases hr : rest = []
      · rw [hr]
        exact .inl (.single token)
      · exact .inr ⟨[token], rest, rfl, hr, .single token, [], token, rfl, hk⟩
    · rcases ih with h | ⟨options, after, rfl, hne, ho, body, semicolon, rfl, hs⟩
      · exact .inl (h.cons hk)
      · exact .inr ⟨token :: (body ++ [semicolon]), after, rfl, hne, ho.cons hk, token :: body,
          semicolon, rfl, hs⟩

/-- What has been read of a comment clause. -/
inductive Pending : OptionState → List Token → Prop
  | plain : Pending .plain []
  | afterComment {word : Token} (hw : word.kind = .keyword .comment) :
      Pending .afterComment [word]
  | afterEquals {word sign : Token} (hw : word.kind = .keyword .comment)
      (he : sign.kind = .equals) : Pending .afterEquals [word, sign]

theorem LastComment.nil (given : Option String) : LastComment given [] given := by
  refine .inl ⟨?_, rfl⟩
  rintro ⟨before, clause, after, text, hl, hc⟩
  obtain ⟨-, hl⟩ := List.append_eq_nil_iff.1 hl.symm
  obtain ⟨rfl, -⟩ := List.append_eq_nil_iff.1 hl
  cases hc

/-- A token at which no clause begins does not count. -/
theorem LastComment.skip {given found : Option String} {token : Token} {rest : List Token}
    (hn : ∀ clause after text, token :: rest = clause ++ after → ¬ CommentClause clause text)
    (h : LastComment given rest found) : LastComment given (token :: rest) found := by
  rcases h with ⟨hno, hf⟩ | ⟨before, clause, after, text, rfl, hc, hno, hf⟩
  · refine .inl ⟨?_, hf⟩
    rintro ⟨before, clause, after, text, hl, hc⟩
    cases before with
    | nil => exact hn clause after text hl hc
    | cons first before =>
      rw [List.cons_append, List.cons.injEq] at hl
      exact hno ⟨before, clause, after, text, hl.2, hc⟩
  · exact .inr ⟨token :: before, clause, after, text, rfl, hc, hno, hf⟩

/-- A clause counts until the next one. -/
theorem LastComment.clause {given found : Option String} {clause rest : List Token} {text : String}
    (hc : CommentClause clause text) (h : LastComment (nonEmpty text) rest found) :
    LastComment given (clause ++ rest) found := by
  rcases h with ⟨hno, hf⟩ | ⟨before, later, after, other, rfl, hl, hno, hf⟩
  · exact .inr ⟨[], clause, rest, text, rfl, hc, hno, hf⟩
  · refine .inr ⟨clause ++ before, later, after, other, ?_, hl, hno, hf⟩
    rw [List.append_assoc]

theorem LastComment.skip_plain {given found : Option String} {token : Token} {rest : List Token}
    (hk : token.kind ≠ .keyword .comment) (h : LastComment given rest found) :
    LastComment given (token :: rest) found := by
  refine h.skip ?_
  intro clause after text hl hc
  cases hc with
  | plain hw =>
    rw [List.cons_append, List.cons.injEq] at hl
    exact hk (hl.1 ▸ hw)
  | equals hw =>
    rw [List.cons_append, List.cons.injEq] at hl
    exact hk (hl.1 ▸ hw)

/-- A clause that has begun comes to nothing if the next token does not carry it on. -/
theorem LastComment.skip_pending {given found : Option String} {state : OptionState}
    {pending : List Token} {token : Token} {rest : List Token} (hp : Pending state pending)
    (he : ¬ (state = .afterComment ∧ token.kind = .equals))
    (hs : ¬ (state ≠ .plain ∧ token.kind = .stringLiteral))
    (h : LastComment given (token :: rest) found) :
    LastComment given (pending ++ token :: rest) found := by
  cases hp with
  | plain => exact h
  | @afterComment word hw =>
    show LastComment given (word :: token :: rest) found
    refine h.skip ?_
    intro clause after text hl hc
    cases hc with
    | plain _ hk =>
      simp only [List.cons_append, List.nil_append, List.cons.injEq] at hl
      exact hs ⟨by simp, hl.2.1 ▸ hk⟩
    | equals _ hk =>
      simp only [List.cons_append, List.nil_append, List.cons.injEq] at hl
      exact he ⟨rfl, hl.2.1 ▸ hk⟩
  | @afterEquals word sign hw hsign =>
    show LastComment given (word :: sign :: token :: rest) found
    refine LastComment.skip ?_ (h.skip_plain (by rw [hsign]; simp))
    intro clause after text hl hc
    cases hc with
    | plain _ hk =>
      simp only [List.cons_append, List.nil_append, List.cons.injEq] at hl
      rw [← hl.2.1, hsign] at hk
      exact absurd hk (by simp)
    | equals _ _ hk =>
      simp only [List.cons_append, List.nil_append, List.cons.injEq] at hl
      exact hs ⟨by simp, hl.2.2.1 ▸ hk⟩

/-- A clause that has begun ends with a string. -/
theorem LastComment.finish_pending {given found : Option String} {state : OptionState}
    {pending : List Token} {token : Token} {rest : List Token} (hp : Pending state pending)
    (hne : state ≠ .plain) (hk : token.kind = .stringLiteral)
    (h : LastComment (nonEmpty token.unquoted) rest found) :
    LastComment given (pending ++ token :: rest) found := by
  cases hp with
  | plain => exact absurd rfl hne
  | @afterComment word hw =>
    show LastComment given ([word, token] ++ rest) found
    exact .clause (.plain hw hk token.says_unquoted) h
  | @afterEquals word sign hw hsign =>
    show LastComment given ([word, sign, token] ++ rest) found
    exact .clause (.equals hw hsign hk token.says_unquoted) h

/-- A clause that has only begun gives no comment. -/
theorem LastComment.of_pending {given : Option String} {state : OptionState}
    {pending : List Token} (hp : Pending state pending) : LastComment given pending given := by
  cases hp with
  | plain => exact .nil given
  | @afterComment word hw =>
    refine LastComment.skip ?_ (.nil given)
    intro clause after text hl hc
    have hlen := congrArg List.length hl
    cases hc <;> simp at hlen
  | @afterEquals word sign hw he =>
    have hs : LastComment given [sign] given :=
      (LastComment.nil given).skip_plain (by rw [he]; simp)
    refine LastComment.skip ?_ hs
    intro clause after text hl hc
    cases hc with
    | plain _ hk =>
      rw [List.cons_append, List.cons.injEq, List.cons_append, List.cons.injEq] at hl
      rw [← hl.2.1, he] at hk
      exact absurd hk (by simp)
    | equals _ _ _ =>
      have hlen := congrArg List.length hl
      simp at hlen

/-- The options are read up to their end, whatever stands before and after them, and they give the
comment that their last clause says. -/
theorem readOptions_spec {state : OptionState} {pending options : List Token}
    (given : Option String) (hp : Pending state pending) (ho : EndsStatement options) :
    ∃ found, LastComment given (pending ++ options) found ∧
      ∀ (cursor : Cursor) (count : Nat) (events : List Event) (after : List Token),
        after = [] ∨ EndsInSemicolon options →
        (readOptions cursor state given (options ++ after) count events).outcome = .ok found ∧
        (readOptions cursor state given (options ++ after) count events).cursor.rest = after := by
  induction options generalizing state pending given with
  | nil =>
    refine ⟨given, ?_, ?_⟩
    · rw [List.append_nil]
      exact .of_pending hp
    · intro cursor count events after ha
      rcases ha with rfl | ⟨body, semicolon, hl, -⟩
      · exact ⟨rfl, rfl⟩
      · exact absurd hl (by simp)
  | cons token rest ih =>
    by_cases he : state = .afterComment ∧ token.kind = .equals
    · obtain ⟨rfl, he⟩ := he
      cases hp with
      | afterComment hw =>
        obtain ⟨found, hf, hread⟩ := ih given (.afterEquals hw he) ho.tail
        refine ⟨found, hf, fun cursor count events after ha => ?_⟩
        rw [List.cons_append, readOptions, if_pos ⟨rfl, he⟩]
        exact hread _ _ _ _ (ha.imp_right fun h => h.tail (by rw [he]; simp))
    by_cases hs : state ≠ .plain ∧ token.kind = .stringLiteral
    · obtain ⟨found, hf, hread⟩ := ih (nonEmpty token.unquoted) .plain ho.tail
      refine ⟨found, ?_, fun cursor count events after ha => ?_⟩
      · exact hf.finish_pending hp hs.1 hs.2
      · rw [List.cons_append, readOptions, if_neg he, if_pos hs]
        exact hread _ _ _ _ (ha.imp_right fun h => h.tail (by rw [hs.2]; simp))
    by_cases hk : token.kind = .semicolon
    · have hnil : rest = [] := ho [] token rest rfl hk
      subst hnil
      refine ⟨given, ?_, fun cursor count events after _ => ?_⟩
      · exact ((LastComment.nil given).skip_plain (by rw [hk]; simp)).skip_pending hp he hs
      · rw [List.cons_append, readOptions, if_neg he, if_neg hs, if_pos hk]
        exact ⟨rfl, rfl⟩
    by_cases hc : token.kind = .keyword .comment
    · obtain ⟨found, hf, hread⟩ := ih given (.afterComment hc) ho.tail
      refine ⟨found, hf.skip_pending hp he hs, fun cursor count events after ha => ?_⟩
      rw [List.cons_append, readOptions, if_neg he, if_neg hs, if_neg hk, if_pos hc]
      exact hread _ _ _ _ (ha.imp_right fun h => h.tail hk)
    · obtain ⟨found, hf, hread⟩ := ih given .plain ho.tail
      refine ⟨found, (hf.skip_plain hc).skip_pending hp he hs, ?_⟩
      intro cursor count events after ha
      rw [List.cons_append, readOptions, if_neg he, if_neg hs, if_neg hk, if_neg hc]
      exact hread _ _ _ _ (ha.imp_right fun h => h.tail hk)

/-- The table options of a statement are read whole. A lenient reading does not look at what follows
the semicolon. -/
theorem readTableOptions_of_endsStatement {options : List Token} (ho : EndsStatement options) :
    ∃ comment, TableComment options comment ∧
      ∀ (strictness : Strictness) (cursor : Cursor) (after : List Token),
        cursor.rest = options ++ after →
        after = [] ∨ (strictness = .lenient ∧ EndsInSemicolon options) →
        (readTableOptions strictness cursor).outcome = .ok comment := by
  obtain ⟨comment, hc, hread⟩ := readOptions_spec none .plain ho
  refine ⟨comment, hc, fun strictness cursor after hr ha => ?_⟩
  have h := hread cursor 0 [] after (ha.imp_right And.right)
  rw [← hr] at h
  unfold readTableOptions
  dsimp only
  split
  · rename_i hs
    rcases ha with rfl | ⟨rfl, -⟩
    · exact absurd h.2 hs.2
    · exact absurd hs.1 (by simp)
  · exact h.1

/-- A strict reading refuses what follows the semicolon of the options. -/
theorem readTableOptions_strict_append {options after : List Token} {cursor : Cursor}
    (ho : EndsStatement options) (hs : EndsInSemicolon options) (ha : after ≠ [])
    (hr : cursor.rest = options ++ after) :
    ∃ found position, (readTableOptions .strict cursor).outcome =
      .error (.unexpectedToken .statementEnd found position) := by
  obtain ⟨comment, -, hread⟩ := readOptions_spec none .plain ho
  have h := (hread cursor 0 [] after (.inr hs)).2
  rw [← hr] at h
  cases after with
  | nil => exact absurd rfl ha
  | cons next after =>
    refine ⟨next.lexeme, next.start, ?_⟩
    unfold readTableOptions
    dsimp only
    rw [if_pos ⟨rfl, by rw [h]; simp⟩]
    show Except.error (Cursor.unexpected _ _) = _
    unfold Cursor.unexpected
    rw [h]

theorem endsStatement_of_readTableOptions {cursor : Cursor} {comment : Option String}
    (h : (readTableOptions .strict cursor).outcome = .ok comment) :
    EndsStatement cursor.rest ∧ TableComment cursor.rest comment := by
  rcases endsStatement_or_append cursor.rest with ho | ⟨options, after, hr, ha, ho, hs⟩
  · obtain ⟨found, hf, hread⟩ := readTableOptions_of_endsStatement ho
    have hok := hread .strict cursor [] (by rw [List.append_nil]) (.inl rfl)
    rw [h] at hok
    injection hok with hok
    exact ⟨ho, hok ▸ hf⟩
  · obtain ⟨found, position, hbad⟩ := readTableOptions_strict_append ho hs ha hr
    rw [h] at hbad
    exact absurd hbad (by simp)

/-! ## The opening words -/

/-- The word `CREATE` is nowhere among the tokens directly followed by `TABLE`. -/
abbrev LacksOpening (tokens : List Token) : Prop :=
  NeverFollowed (.keyword .create) (.keyword .table) tokens

theorem startsCreateTable_cons {first : Token} {rest : List Token} :
    startsCreateTable (first :: rest) = true ↔
      first.kind = .keyword .create ∧ ∃ second after, rest = second :: after ∧
        second.kind = .keyword .table := by
  cases rest with
  | nil => simp [startsCreateTable]
  | cons second after => simp [startsCreateTable, Token.isKeyword]

theorem readOpening_of_rest {cursor : Cursor} {create table : Token} {rest : List Token}
    (hr : cursor.rest = create :: table :: rest) (hc : create.kind = .keyword .create)
    (ht : table.kind = .keyword .table) :
    (readOpening cursor).outcome = .ok () ∧ (readOpening cursor).cursor.rest = rest := by
  unfold readOpening
  rw [hr]
  simp [Token.isKeyword, hc, ht, Cursor.moveTo]

theorem rest_of_readOpening {cursor : Cursor} (h : (readOpening cursor).outcome = .ok ()) :
    ∃ create table, cursor.rest = create :: table :: (readOpening cursor).cursor.rest ∧
      create.kind = .keyword .create ∧ table.kind = .keyword .table := by
  unfold readOpening at h ⊢
  split at h
  · exact absurd h (by simp)
  · rename_i first rest hr
    split at h
    · rename_i h1
      dsimp only at h
      split at h
      · exact absurd h (by simp)
      · rename_i second after
        split at h
        · rename_i h2
          rw [hr]
          dsimp only
          rw [if_pos h1, if_pos h2]
          exact ⟨first, second, rfl, by simpa [Token.isKeyword] using h1,
            by simpa [Token.isKeyword] using h2⟩
        · exact absurd h (by simp)
    · exact absurd h (by simp)

/-- Tokens that lack the opening words are refused as such in front of a statement. -/
theorem readOpening_unexpected {cursor : Cursor} {before rest : List Token} {create : Token}
    (hb : LacksOpening before) (hne : before ≠ []) (hc : create.kind = .keyword .create)
    (hr : cursor.rest = before ++ create :: rest) :
    ∃ expected found position, (readOpening cursor).outcome =
      .error (.unexpectedToken expected found position) := by
  obtain ⟨first, before, rfl⟩ := List.exists_cons_of_ne_nil hne
  by_cases h1 : first.kind = .keyword .create
  · obtain ⟨second, after, hl, h2⟩ : ∃ second after, before ++ create :: rest = second :: after ∧
        second.kind ≠ .keyword .table := by
      cases before with
      | nil => exact ⟨create, rest, rfl, by rw [hc]; simp⟩
      | cons second before => exact ⟨second, _, rfl, hb [] first second before rfl h1⟩
    rw [List.cons_append, hl] at hr
    refine ⟨.table, second.lexeme, second.start, ?_⟩
    unfold readOpening
    rw [hr]
    simp [Token.isKeyword, h1, h2, Cursor.moveTo, Cursor.unexpected]
  · refine ⟨.create, first.lexeme, first.start, ?_⟩
    rw [List.cons_append] at hr
    unfold readOpening
    rw [hr]
    simp [Token.isKeyword, h1, Cursor.unexpected, hr]

/-- The words that open the statement are found behind tokens that lack them, also where the last of
these is another `CREATE`. -/
theorem seekOpening_append {before rest : List Token} {create table : Token}
    (hb : LacksOpening before) (hc : create.kind = .keyword .create)
    (ht : table.kind = .keyword .table) (cursor : Cursor) (count : Nat) (events : List Event) :
    (seekOpening cursor (before ++ create :: table :: rest) count events).outcome = .ok () ∧
      (seekOpening cursor (before ++ create :: table :: rest) count events).cursor.rest = rest := by
  induction before generalizing count events with
  | nil =>
    rw [List.nil_append, seekOpening, if_pos (startsCreateTable_cons.2 ⟨hc, _, _, rfl, ht⟩)]
    exact ⟨rfl, rfl⟩
  | cons token before ih =>
    have hno : ¬ startsCreateTable (token :: (before ++ create :: table :: rest)) = true := by
      rw [startsCreateTable_cons]
      rintro ⟨hk, second, after, hl, h2⟩
      cases before with
      | nil =>
        rw [List.nil_append, List.cons.injEq] at hl
        rw [← hl.1, hc] at h2
        exact absurd h2 (by simp)
      | cons next before =>
        rw [List.cons_append, List.cons.injEq] at hl
        exact hb [] token next before rfl hk (hl.1 ▸ h2)
    rw [List.cons_append, seekOpening, if_neg hno]
    exact ih hb.tail _ _

end TableScribe
