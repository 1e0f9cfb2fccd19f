import TableScribe.Proofs.Statement.Leniency

/-!
# A semicolon behind a statement

Statements reach the reader with a semicolon, and when a script has not been cut where it should,
with more behind it. `parseTokens_semicolon`: the semicolon makes no difference to what a statement
says, and of what comes behind it a lenient reading takes no notice, while a strict one fails.
-/

namespace TableScribe

section Semicolon

variable {semicolon : Token} {options : List Token}

/-- The options in front of a semicolon give the comment that they give by themselves. -/
theorem readOptions_semicolon (hk : semicolon.kind = .semicolon)
    (hno : ∀ token ∈ options, token.kind ≠ .semicolon) (after : List Token)
    (cursor other : Cursor) (state : OptionState) (given : Option String) (count passed : Nat)
    (events noted : List Event) :
    (readOptions cursor state given (options ++ semicolon :: after) count events).outcome =
      (readOptions other state given options passed noted).outcome := by
  induction options generalizing state given count passed events noted with
  | nil => simp [readOptions, hk]
  | cons token options ih =>
    have htoken := hno token List.mem_cons_self
    have hlater := ih fun next hmem => hno next (List.mem_cons_of_mem token hmem)
    rw [List.cons_append, readOptions, readOptions]
    split
    · exact hlater ..
    split
    · exact hlater ..
    split
    · exact hlater ..
    · exact hlater ..

theorem endsStatement_semicolon (hno : ∀ token ∈ options, token.kind ≠ .semicolon) :
    EndsStatement (options ++ [semicolon]) := by
  induction options with
  | nil => exact .single semicolon
  | cons token options ih =>
    exact .cons (hno token List.mem_cons_self)
      (ih fun next hmem => hno next (List.mem_cons_of_mem token hmem))

theorem readTableOptions_semicolon (hk : semicolon.kind = .semicolon)
    (hno : ∀ token ∈ options, token.kind ≠ .semicolon) {cursor other : Cursor}
    (hcursor : cursor.rest = options ++ [semicolon]) (hother : other.rest = options)
    {comment : Option String} (h : (readTableOptions .strict other).outcome = .ok comment) :
    (readTableOptions .strict cursor).outcome = .ok comment := by
  obtain ⟨found, -, hread⟩ :=
    readOptions_spec none .plain (@endsStatement_semicolon semicolon _ hno)
  obtain ⟨-, hrest⟩ := hread cursor 0 [] [] (.inl rfl)
  rw [List.append_nil, ← hcursor] at hrest
  unfold readTableOptions at h ⊢
  dsimp only at h ⊢
  rw [if_neg fun hleft => hleft.2 hrest]
  split at h
  · exact absurd h (by simp)
  · rw [← h, hcursor, hother]
    exact readOptions_semicolon hk hno [] ..

/-- A statement without a semicolon says the same with one behind it. Whatever follows the
semicolon, a lenient reading does not look at it; a strict one does not put up with it. -/
theorem parseTokens_semicolon {tokens : List Token} {table : Table}
    (hk : semicolon.kind = .semicolon) (hno : ∀ token ∈ tokens, token.kind ≠ .semicolon)
    (h : parseTokens .strict tokens = .ok table) (after : List Token) :
    parseTokens .lenient (tokens ++ semicolon :: after) = .ok table ∧
      (after = [] → parseTokens .strict (tokens ++ semicolon :: after) = .ok table) ∧
      (after ≠ [] → ∃ found position, parseTokens .strict (tokens ++ semicolon :: after) =
        .error (.unexpectedToken .statementEnd found position)) := by
  have hstrict : parseTokens .strict (tokens ++ [semicolon]) = .ok table := by
    obtain ⟨parts, rfl, -⟩ := exists_parts_of_strict h
    obtain ⟨other, hother, hplain⟩ := parts.parseTokens_eq_readBody (.inl rfl) []
    obtain ⟨cursor, hcursor, hread⟩ := parts.parseTokens_eq_readBody (.inl rfl) [semicolon]
    rw [List.nil_append, List.append_nil, h] at hplain
    rw [List.append_nil] at hother
    obtain ⟨hs, hname, hlist, hcomment⟩ := readBody_strict_inv hplain.symm
    have hstarts : startsList cursor.rest = true := hcursor ▸ startsList_append parts.list_starts
    obtain ⟨hsame, hrest⟩ := (readColumnList_ok_iff hs).2 ⟨parts.list, hother, parts.list_closes⟩
    rw [hlist, Except.ok.injEq] at hsame
    obtain ⟨hcolumns, hleft⟩ :=
      (readColumnList_ok_iff hstarts).2 ⟨parts.list, hcursor, parts.list_closes⟩
    have hoptions : ∀ token ∈ parts.options, token.kind ≠ .semicolon :=
      fun token hmem => hno token (by simp [Parts.tokens, hmem])
    rw [List.nil_append] at hread
    rw [hread, readBody_outcome hstarts hcolumns
      (readTableOptions_semicolon hk hoptions hleft hrest hcomment), ← hname, ← hsame]
  obtain ⟨parts, hparts, -⟩ := exists_parts_of_strict hstrict
  obtain ⟨comment, -, hread⟩ := parts.parseTokens_eq_ok
  have hsemicolon : EndsInSemicolon parts.options :=
    parts.endsInSemicolon (by rw [hparts, List.getLast?_concat]) hk
  have hall : tokens ++ semicolon :: after = parts.tokens ++ after := by
    rw [hparts, List.append_assoc]
    rfl
  have hsame := hread .strict [] [] (.inl rfl) (.inl rfl)
  rw [List.nil_append, List.append_nil, hparts, hstrict, Except.ok.injEq] at hsame
  rw [hall]
  refine ⟨?_, ?_, fun hne => parts.parseTokens_strict_append hsemicolon hne⟩
  · rw [hsame]
    exact hread .lenient [] after (.inl rfl) (.inr ⟨rfl, hsemicolon⟩)
  · rintro rfl
    rw [hsame]
    exact hread .strict [] [] (.inl rfl) (.inl rfl)

end Semicolon

end TableScribe
