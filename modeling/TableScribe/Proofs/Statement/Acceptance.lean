import TableScribe.Proofs.Statement.Parentheses

/-!
# What a strict reading accepts

`strict_accepts_iff`: where every `ENUM` has a value list and no `DEFAULT` stands before a closing
parenthesis, a strict reading accepts exactly the statements of `StatementShape`, in which the
column list is found by counting parentheses and by nothing else.

1. What is accepted comes apart into `Parts`, whose column list the walk closes; by
   `closes_iff_matched` its parentheses match.
2. A statement of that shape is put together from the same parts, and the reading of parts gives
   the name that the header says and the comment that the options say.
-/

namespace TableScribe

open ColumnWalk

/-- The tokens are `CREATE TABLE`, a header, a column list between matching parentheses, and
options in which only the last token can be a semicolon. -/
structure StatementShape (tokens header list options : List Token) : Prop where
  opening : ∃ create word, tokens = create :: word :: (header ++ (list ++ options)) ∧
    create.kind = .keyword .create ∧ word.kind = .keyword .table
  header : ∃ name, Header header name
  list : Matched list
  options : EndsStatement options

theorem Matched.startsList {list : List Token} (h : Matched list) : startsList list = true := by
  obtain ⟨opening, inner, rfl, hk⟩ := h.starts
  rw [TableScribe.startsList, hk]
  rfl

theorem StatementShape.columns_hold {tokens header list options : List Token}
    (h : StatementShape tokens header list options) {holds : List Token → Prop}
    (htail : ∀ {first second : List Token}, holds (first ++ second) → holds second)
    (hall : holds tokens) : holds (list ++ options) := by
  obtain ⟨create, word, rfl, -⟩ := h.opening
  have hbody : holds ([create, word] ++ (header ++ (list ++ options))) := hall
  exact htail (htail hbody)

/-- What a strict reading accepts has the shape of a statement. -/
theorem exists_shape_of_strict {tokens : List Token} {table : Table} (he : EnumsOpen tokens)
    (hd : DefaultsKeepOpen tokens) (h : parseTokens .strict tokens = .ok table) :
    ∃ header list options, StatementShape tokens header list options := by
  obtain ⟨parts, rfl, -⟩ := exists_parts_of_strict h
  have hall : parts.tokens =
      ([parts.create, parts.word] ++ parts.header) ++ (parts.list ++ parts.options) := by
    simp [Parts.tokens]
  rw [hall] at he hd
  have hmatched := (closes_iff_matched he.append_right hd.append_right parts.list_starts).1
    ⟨parts.columns, parts.list_closes⟩
  exact ⟨parts.header, parts.list, parts.options,
    ⟨parts.create, parts.word, rfl, parts.create_kind, parts.word_kind⟩,
    ⟨parts.name, parts.header_says⟩, hmatched, parts.options_end⟩

/-- A statement of the right shape is read, as what its header and its options say. -/
theorem StatementShape.parseTokens_eq_ok {tokens header list options : List Token}
    (h : StatementShape tokens header list options) (he : EnumsOpen tokens)
    (hd : DefaultsKeepOpen tokens) :
    ∃ table, parseTokens .strict tokens = .ok table ∧ Header header table.name ∧
      TableComment options table.comment := by
  obtain ⟨name, hname⟩ := h.header
  have hs := h.list.startsList
  have hel : EnumsOpen (list ++ options) := h.columns_hold EnumsOpen.append_right he
  have hdl : DefaultsKeepOpen (list ++ options) := h.columns_hold NeverFollowed.append_right hd
  obtain ⟨columns, hcloses⟩ := (closes_iff_matched hel hdl hs).2 h.list
  obtain ⟨create, word, rfl, hc, hw⟩ := h.opening
  let parts : Parts :=
    ⟨create, word, header, list, options, name, columns, hc, hw, hname, hs, hcloses, h.options⟩
  obtain ⟨comment, hcomment, hread⟩ := parts.parseTokens_eq_ok
  have hok := hread .strict [] [] (.inl rfl) (.inl rfl)
  rw [List.nil_append, List.append_nil] at hok
  exact ⟨_, hok, hname, hcomment⟩

/-- A strict reading accepts the statements of the right shape and nothing else; the table has the
name that the header says and the comment that the options say. -/
theorem strict_accepts_iff {tokens : List Token} (he : EnumsOpen tokens)
    (hd : DefaultsKeepOpen tokens) :
    ((∃ table, parseTokens .strict tokens = .ok table) ↔
        ∃ header list options, StatementShape tokens header list options) ∧
      ∀ table header list options, parseTokens .strict tokens = .ok table →
        StatementShape tokens header list options →
        Header header table.name ∧ TableComment options table.comment := by
  refine ⟨⟨?_, ?_⟩, ?_⟩
  · rintro ⟨table, h⟩
    exact exists_shape_of_strict he hd h
  · rintro ⟨header, list, options, h⟩
    obtain ⟨table, hok, -⟩ := h.parseTokens_eq_ok he hd
    exact ⟨table, hok⟩
  · intro table header list options h hshape
    obtain ⟨found, hok, hname, hcomment⟩ := hshape.parseTokens_eq_ok he hd
    rw [h, Except.ok.injEq] at hok
    rw [hok]
    exact ⟨hname, hcomment⟩

/-- `CREATE TABLE IF NOT EXISTS s.t (a ENUM('x'), b INT DEFAULT (1)) COMMENT = 'c' ;` -/
def qualifiedStatement : List Token :=
  [⟨.keyword .create, "CREATE", 0, 6⟩, ⟨.keyword .table, "TABLE", 7, 12⟩,
    ⟨.keyword .ifWord, "IF", 13, 15⟩, ⟨.keyword .notWord, "NOT", 16, 19⟩,
    ⟨.keyword .existsWord, "EXISTS", 20, 26⟩, ⟨.name, "s", 27, 28⟩, ⟨.dot, ".", 28, 29⟩,
    ⟨.name, "t", 29, 30⟩, ⟨.leftParen, "(", 31, 32⟩, ⟨.name, "a", 32, 33⟩,
    ⟨.keyword .enum, "ENUM", 34, 38⟩, ⟨.leftParen, "(", 38, 39⟩, ⟨.stringLiteral, "'x'", 39, 42⟩,
    ⟨.rightParen, ")", 42, 43⟩, ⟨.comma, ",", 43, 44⟩, ⟨.name, "b", 45, 46⟩,
    ⟨.keyword .int, "INT", 47, 50⟩, ⟨.keyword .default, "DEFAULT", 51, 58⟩,
    ⟨.leftParen, "(", 59, 60⟩, ⟨.integerLiteral, "1", 60, 61⟩, ⟨.rightParen, ")", 61, 62⟩,
    ⟨.rightParen, ")", 62, 63⟩, ⟨.keyword .comment, "COMMENT", 64, 71⟩, ⟨.equals, "=", 72, 73⟩,
    ⟨.stringLiteral, "'c'", 74, 77⟩, ⟨.semicolon, ";", 77, 78⟩]

theorem strict_accepts_qualifiedStatement :
    EnumsOpen qualifiedStatement ∧ DefaultsKeepOpen qualifiedStatement ∧
      ∃ header list options, StatementShape qualifiedStatement header list options ∧
        Header header "t" ∧ TableComment options (some "c") := by
  have he : EnumsOpen qualifiedStatement := by decide
  have hd : DefaultsKeepOpen qualifiedStatement := by decide
  have hok : parseTokens .strict qualifiedStatement = .ok
      ⟨"t", [{ name := "a", type := .enum, values := some ["x"] }, { name := "b", type := .int }],
        some "c"⟩ := rfl
  obtain ⟨hiff, hsays⟩ := strict_accepts_iff he hd
  obtain ⟨header, list, options, hshape⟩ := hiff.1 ⟨_, hok⟩
  exact ⟨he, hd, header, list, options, hshape, hsays _ _ _ _ hok hshape⟩

end TableScribe
