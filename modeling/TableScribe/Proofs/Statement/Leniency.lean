import TableScribe.Proofs.Statement.Parts

/-!
# Lenient and strict readings

A lenient reading extends a strict one: it gives the same table, and goes on giving it when a
statement that ends in a semicolon is put between other tokens, where a strict reading fails.

The statement's own semicolon decides here. It cannot lie inside the column list, because a list is
closed by a parenthesis (`ColumnWalk.Closes.getLast`); so it ends the options.
-/

namespace TableScribe

theorem Parts.endsInSemicolon (parts : Parts) {semicolon : Token}
    (hl : parts.tokens.getLast? = some semicolon) (hk : semicolon.kind = .semicolon) :
    EndsInSemicolon parts.options := by
  obtain ⟨inner, close, hlist, hclose⟩ := parts.list_closes.getLast
  rcases List.eq_nil_or_concat parts.options with hnil | ⟨body, last, hcons⟩
  · have hall : parts.tokens =
        parts.create :: parts.word :: (parts.header ++ inner) ++ [close] := by
      simp [Parts.tokens, hlist, hnil]
    rw [hall, List.getLast?_concat, Option.some.injEq] at hl
    rw [← hl, hclose] at hk
    exact absurd hk (by simp)
  · rw [List.concat_eq_append] at hcons
    have hall : parts.tokens =
        parts.create :: parts.word :: (parts.header ++ (parts.list ++ body)) ++ [last] := by
      simp [Parts.tokens, hcons]
    rw [hall, List.getLast?_concat, Option.some.injEq] at hl
    exact ⟨body, last, hcons, hl ▸ hk⟩

/-- A strict reading refuses a statement that other tokens stand in front of. -/
theorem Parts.parseTokens_strict_behind (parts : Parts) {before : List Token} (after : List Token)
    (hb : LacksOpening before) (hne : before ≠ []) :
    ∃ expected found position, parseTokens .strict (before ++ (parts.tokens ++ after)) =
      .error (.unexpectedToken expected found position) := by
  have hr : (Cursor.ofTokens (before ++ (parts.tokens ++ after))).rest = before ++ parts.create ::
      (parts.word :: (parts.header ++ (parts.list ++ parts.options)) ++ after) := rfl
  obtain ⟨expected, found, position, hbad⟩ :=
    readOpening_unexpected hb hne parts.create_kind hr
  refine ⟨expected, found, position, ?_⟩
  unfold parseTokens readCreateTable
  rw [if_neg fun h => hne (List.append_eq_nil_iff.1 h.2).1]
  dsimp only
  rw [show readStart .strict _ = readOpening _ from rfl, hbad]

/-- What a strict reading accepts, a lenient one reads as the same table. Between other tokens, of
which those in front do not open a statement, a statement that ends in a semicolon still gives this
table to a lenient reading, and a strict one finds a token that it does not expect. -/
theorem lenient_extends_strict {tokens : List Token} {table : Table}
    (h : parseTokens .strict tokens = .ok table) :
    parseTokens .lenient tokens = .ok table ∧
      ∀ semicolon, tokens.getLast? = some semicolon → semicolon.kind = .semicolon →
        ∀ before after, LacksOpening before →
          parseTokens .lenient (before ++ tokens ++ after) = .ok table ∧
          (before ≠ [] ∨ after ≠ [] → ∃ expected found position,
            parseTokens .strict (before ++ tokens ++ after) =
              .error (.unexpectedToken expected found position)) := by
  obtain ⟨parts, rfl, -⟩ := exists_parts_of_strict h
  obtain ⟨comment, -, hread⟩ := parts.parseTokens_eq_ok
  have hstrict := hread .strict [] [] (.inl rfl) (.inl rfl)
  rw [List.nil_append, List.append_nil, h, Except.ok.injEq] at hstrict
  rw [← hstrict] at hread
  constructor
  · simpa using hread .lenient [] [] (.inl rfl) (.inl rfl)
  intro semicolon hl hk before after hb
  have hs := parts.endsInSemicolon hl hk
  rw [List.append_assoc]
  refine ⟨hread .lenient before after (.inr ⟨rfl, hb⟩) (.inr ⟨rfl, hs⟩), fun hne => ?_⟩
  by_cases hbefore : before = []
  · subst hbefore
    obtain ⟨found, position, hbad⟩ :=
      parts.parseTokens_strict_append hs (hne.resolve_left (by simp))
    exact ⟨_, found, position, hbad⟩
  · exact parts.parseTokens_strict_behind after hb hbefore

/-- `CREATE TABLE t (a INT);` -/
def plainStatement : List Token :=
  [⟨.keyword .create, "CREATE", 0, 6⟩, ⟨.keyword .table, "TABLE", 7, 12⟩, ⟨.name, "t", 13, 14⟩,
    ⟨.leftParen, "(", 15, 16⟩, ⟨.name, "a", 16, 17⟩, ⟨.keyword .int, "INT", 18, 21⟩,
    ⟨.rightParen, ")", 21, 22⟩, ⟨.semicolon, ";", 22, 23⟩]

/-- Another `CREATE` in front and another semicolon behind are put up with, or not. -/
theorem lenient_extends_strict_plainStatement :
    parseTokens .strict plainStatement = .ok ⟨"t", [{ name := "a", type := .int }], none⟩ ∧
      parseTokens .lenient ([⟨.keyword .create, "CREATE", 0, 6⟩] ++ plainStatement ++
          [⟨.semicolon, ";", 23, 24⟩]) = .ok ⟨"t", [{ name := "a", type := .int }], none⟩ ∧
      ∃ expected found position,
        parseTokens .strict ([⟨.keyword .create, "CREATE", 0, 6⟩] ++ plainStatement ++
          [⟨.semicolon, ";", 23, 24⟩]) = .error (.unexpectedToken expected found position) := by
  have hok : parseTokens .strict plainStatement =
      .ok ⟨"t", [{ name := "a", type := .int }], none⟩ := rfl
  obtain ⟨hlenient, hstrict⟩ := (lenient_extends_strict hok).2 ⟨.semicolon, ";", 22, 23⟩ rfl rfl
    [⟨.keyword .create, "CREATE", 0, 6⟩] [⟨.semicolon, ";", 23, 24⟩] (by decide)
  exact ⟨hok, hlenient, hstrict (.inl (by simp))⟩

end TableScribe
