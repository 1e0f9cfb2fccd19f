import TableScribe.Proofs.Lexical.Layout
import TableScribe.Proofs.Lexical.Rendering
import TableScribe.Proofs.Statement.Causes
import TableScribe.Proofs.Statement.Parts

/-!
# Where the name of a table comes from

The name of a table is the last of the names in its header. Without backquotes such a name is a
word; between them it may be anything else (`name_of_parseStatement`).
-/

namespace TableScribe

/-- The name that segments say is that of one of their tokens. -/
theorem Segments.exists_token {tokens : List Token} {name : String} (h : Segments tokens name) :
    ∃ token ∈ tokens, token.kind.isName = true ∧ token.unquoted = name := by
  induction h with
  | @last token name hk hs => exact ⟨token, List.mem_cons_self, hk, Token.says_iff.1 hs⟩
  | dotted _ _ _ ih =>
    obtain ⟨token, hmem, htoken⟩ := ih
    exact ⟨token, .tail _ (.tail _ hmem), htoken⟩

/-- A token that is a name is a word, or a text between backquotes. -/
theorem Token.IsLexeme.name {token : Token} (h : token.IsLexeme) (hk : token.kind.isName = true) :
    (∀ c ∈ token.unquoted.toList, Text.isWord c = true) ∨
      token.lexeme.toList = '\x60' :: (token.unquoted.toList ++ ['\x60']) := by
  obtain ⟨p, hp, hlexeme⟩ := h
  have hname : ∀ p ∈ Pattern.table, p.kind? = some .name → p = .name := by
    decide
  have hquoted : ∀ p ∈ Pattern.table, p.kind? = some .quotedName →
      p = .enclosed '\x60' .quotedName := by
    decide
  have hcases : token.kind = .name ∨ token.kind = .quotedName := by
    cases hkind : token.kind <;> simp [hkind, TokenKind.isName] at hk ⊢
  generalize htext : token.lexeme.toList = text at hlexeme
  rcases hcases with hkind | hkind
  · left
    obtain rfl := hname p hlexeme.starts.1 (hkind ▸ hp)
    rw [Token.unquoted_of_plain (by rw [hkind]; rfl), htext]
    cases hlexeme with
    | name hfound => exact hfound.2
  · right
    obtain rfl := hquoted p hlexeme.starts.1 (hkind ▸ hp)
    cases hlexeme with
    | @enclosed _ _ inner _ _ =>
      have hsays : token.Says (String.ofList inner) := by
        refine .enclosed (by rw [hkind]; rfl) ?_
        rw [htext, String.toList_ofList]
      rw [Token.says_iff.1 hsays, String.toList_ofList]

theorem rest_subset_of_readStart {strictness : Strictness} {tokens : List Token}
    (hs : (readStart strictness (.ofTokens tokens)).outcome = .ok ()) :
    (readStart strictness (.ofTokens tokens)).cursor.rest ⊆ tokens := by
  have hne : tokens ≠ [] := by
    rintro rfl
    cases strictness with
    | strict => exact absurd hs (by simp [readStart, readOpening, Cursor.ofTokens])
    | lenient => exact absurd hs (by simp [readStart, seekOpening, Cursor.ofTokens])
  obtain ⟨read, hbehind, -⟩ := (readStart_explains (Cursor.behind_ofTokens tokens) hne).ok hs
  intro token hmem
  rw [hbehind.split]
  exact List.mem_append_right read hmem

/-- The name of a table that a statement defines is a word, or it stands in the statement between
backquotes. -/
theorem name_of_parseStatement {strictness : Strictness} {statement : String} {table : Table}
    (h : parseStatement strictness statement = .ok table) :
    (∀ c ∈ table.name.toList, Text.isWord c = true) ∨
      '\x60' :: (table.name.toList ++ ['\x60']) <:+: statement.toList := by
  unfold parseStatement at h
  cases hs : scan statement with
  | error fault =>
    rw [hs] at h
    exact absurd h (by simp)
  | ok tokens =>
    rw [hs] at h
    obtain ⟨hstart, name, hname, hbody⟩ := readCreateTable_inv h
    have heq : table.name = name := by
      rcases readBody_inv hbody with ⟨-, hnamed, -⟩ | ⟨-, rfl⟩
      · exact hnamed
      · rfl
    obtain ⟨header, hrest, ⟨condition, segments, rfl, -, hsegments⟩, -⟩ :=
      header_of_readTableName hname
    obtain ⟨token, hmem, hk, rfl⟩ := hsegments.exists_token
    have htoken : token ∈ tokens := by
      refine rest_subset_of_readStart hstart ?_
      rw [hrest]
      exact List.mem_append_left _ (List.mem_append_right _ hmem)
    rw [heq]
    refine ((isLexeme_of_scan hs token htoken).name hk).imp_right fun hquoted => ?_
    obtain ⟨-, front, back, hsplit, -⟩ := (covers_of_scan hs).laid.exists_append token htoken
    rw [hsplit, ← hquoted, ← List.append_assoc]
    exact List.infix_append front _ back

end TableScribe
