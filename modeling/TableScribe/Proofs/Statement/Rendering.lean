import TableScribe.Proofs.Statement.Joining

/-!
# A statement and its rendering

The rendering of a statement means the same as the statement (`parseStatement_renderTokens`): its
tokens are those of the statement, with `NOT` and `NULL` joined (`scan_renderTokens`), and joined
tokens are read alike (`parseTokens_alike`).
-/

namespace TableScribe

theorem parseStatement_alike {statement : String} {tokens : List Token}
    (h : scan statement = .ok tokens) (strictness : Strictness) :
    SameOutcome (parseStatement strictness statement)
      (parseStatement strictness (renderTokens tokens)) := by
  obtain ⟨again, hagain, hcontents⟩ := scan_renderTokens (isLexeme_of_scan h)
  unfold parseStatement
  rw [h, hagain]
  exact parseTokens_alike (joined_of_contents hcontents) strictness

/-- Where a statement can be scanned, its rendering defines the same table, or both fail with faults
of the same variant. -/
theorem parseStatement_renderTokens {statement : String} {tokens : List Token}
    (h : scan statement = .ok tokens) (strictness : Strictness) :
    (∀ table, parseStatement strictness (renderTokens tokens) = .ok table ↔
        parseStatement strictness statement = .ok table) ∧
      (∀ fault, parseStatement strictness statement = .error fault →
        ∃ other, parseStatement strictness (renderTokens tokens) = .error other ∧
          fault.SameVariant other) ∧
      (∀ fault, parseStatement strictness (renderTokens tokens) = .error fault →
        ∃ other, parseStatement strictness statement = .error other ∧
          fault.SameVariant other) := by
  have halike := parseStatement_alike h strictness
  refine ⟨fun table => ⟨?_, ?_⟩, fun fault => ?_, fun fault => ?_⟩
  · exact halike.symm.eq_ok
  · exact halike.eq_ok
  · exact halike.eq_error
  · exact halike.symm.eq_error

/-- Here a comment keeps `NOT` and `NULL` apart, so that the rendering has one token less. -/
theorem parseStatement_renderTokens_comment :
    ∃ tokens, scan "CREATE TABLE t (a INT NOT--c\nNULL);" = .ok tokens ∧
      tokens.length = 10 ∧ renderTokens tokens = "CREATE TABLE t ( a INT NOT NULL ) ;" ∧
      parseStatement .strict (renderTokens tokens) =
        .ok ⟨"t", [{ name := "a", type := .int }], none⟩ := by
  let tokens : List Token :=
    [⟨.keyword .create, "CREATE", 0, 6⟩, ⟨.keyword .table, "TABLE", 7, 12⟩, ⟨.name, "t", 13, 14⟩,
      ⟨.leftParen, "(", 15, 16⟩, ⟨.name, "a", 16, 17⟩, ⟨.keyword .int, "INT", 18, 21⟩,
      ⟨.keyword .notWord, "NOT", 22, 25⟩, ⟨.keyword .null, "NULL", 29, 33⟩,
      ⟨.rightParen, ")", 33, 34⟩, ⟨.semicolon, ";", 34, 35⟩]
  have hoption : (scan "CREATE TABLE t (a INT NOT--c\nNULL);").toOption = some tokens := by
    decide +kernel
  have hscan : scan "CREATE TABLE t (a INT NOT--c\nNULL);" = .ok tokens := by
    cases hresult : scan "CREATE TABLE t (a INT NOT--c\nNULL);" with
    | error fault =>
      rw [hresult] at hoption
      exact absurd hoption (by simp [Except.toOption])
    | ok found =>
      rw [hresult] at hoption
      injection hoption with hoption
      rw [hoption]
  refine ⟨tokens, hscan, rfl, by decide +kernel, ?_⟩
  refine ((parseStatement_renderTokens hscan .strict).1 _).2 ?_
  unfold parseStatement
  rw [hscan]
  rfl

end TableScribe
