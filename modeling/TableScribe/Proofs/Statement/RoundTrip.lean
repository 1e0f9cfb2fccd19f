import TableScribe.Proofs.Lexical.Cuts
import TableScribe.Proofs.Statement.Grammar

/-!
# When a rendering has the tokens of its statement

The rendering of a statement can always be scanned, and rendering it again changes nothing. But its
tokens need not be those of the statement: `NOT` and `NULL` in a row come back as one token.

1. `joinNotNull_eq_map_iff`: joining keeps the tokens exactly if `NOT` is never followed by `NULL`.
2. `neverFollowed_of_cuts`: a scan finds these two in a row only where a comment keeps them apart,
   because with blanks alone between them they are one token from the start.
3. `scan_renderTokens_iff` says this of statements.
4. `Token.ScansAlone`: the lexeme gives the token back when it is scanned by itself. All tokens of a
   scan have this property, and `scan_renderTokens_of_scansAlone` says what becomes of any list of
   such tokens.
-/

namespace TableScribe

open Matcher Pattern

/-! ## Joining -/

theorem length_joinNotNull_le (tokens : List Token) :
    (joinNotNull tokens).length ≤ tokens.length := by
  induction tokens using joinNotNull.induct with
  | case1 => exact Nat.le_refl _
  | case2 => exact Nat.le_refl _
  | case3 first second rest hjoin ih =>
    rw [joinNotNull, if_pos hjoin]
    simp only [List.length_cons]
    omega
  | case4 first second rest hjoin ih =>
    rw [joinNotNull, if_neg hjoin]
    simp only [List.length_cons] at ih ⊢
    omega

/-- Joining keeps the tokens exactly if there is nothing to join. -/
theorem joinNotNull_eq_map_iff {tokens : List Token} :
    joinNotNull tokens = tokens.map Token.content ↔
      NeverFollowed (.keyword .notWord) (.keyword .null) tokens := by
  induction tokens using joinNotNull.induct with
  | case1 => exact ⟨fun _ => .nil, fun _ => rfl⟩
  | case2 token =>
    refine ⟨fun _ => neverFollowed_cons.2 ⟨fun _ next hnext => ?_, .nil⟩, fun _ => rfl⟩
    exact absurd hnext (by simp)
  | case3 first second rest hjoin _ =>
    rw [joinNotNull, if_pos hjoin]
    constructor
    · intro h
      have hlength := congrArg List.length h
      have hle := length_joinNotNull_le rest
      simp only [List.length_cons, List.length_map] at hlength
      omega
    · intro h
      exact absurd hjoin.2 (h [] first second rest rfl hjoin.1)
  | case4 first second rest hjoin ih =>
    rw [joinNotNull, if_neg hjoin, List.map_cons, List.cons.injEq, neverFollowed_cons, ih]
    refine and_congr_left fun _ => ⟨fun _ hk next hnext hnull => ?_, fun _ => rfl⟩
    rw [List.head?_cons, Option.mem_some_iff] at hnext
    subst hnext
    exact hjoin ⟨hk, hnull⟩

theorem joinNotNull_ne_nil {tokens : List Token} (h : tokens ≠ []) : joinNotNull tokens ≠ [] := by
  induction tokens using joinNotNull.induct with
  | case1 => exact absurd rfl h
  | case2 token => exact List.cons_ne_nil _ _
  | case3 first second rest hjoin =>
    rw [joinNotNull, if_pos hjoin]
    exact List.cons_ne_nil _ _
  | case4 first second rest hjoin =>
    rw [joinNotNull, if_neg hjoin]
    exact List.cons_ne_nil _ _

theorem Text.join_cons_of_ne_nil {separator text : String} {more : List String} (h : more ≠ []) :
    join separator (text :: more) = text ++ separator ++ join separator more := by
  obtain ⟨next, more, rfl⟩ := List.exists_cons_of_ne_nil h
  exact join_cons_cons separator text next more

/-- Joined tokens are rendered like the two that they come from. -/
theorem join_joinNotNull (tokens : List Token) :
    Text.join " " ((joinNotNull tokens).map Prod.snd) = renderTokens tokens := by
  unfold renderTokens
  induction tokens using joinNotNull.induct with
  | case1 => rfl
  | case2 token => rfl
  | case3 first second rest hjoin ih =>
    rw [joinNotNull, if_pos hjoin, List.map_cons, List.map_cons, List.map_cons, Text.join_cons_cons]
    by_cases hrest : rest = []
    · subst hrest
      rfl
    · have hjoined : (joinNotNull rest).map Prod.snd ≠ [] := by
        rw [Ne, List.map_eq_nil_iff]
        exact joinNotNull_ne_nil hrest
      have hlexemes : rest.map (·.lexeme) ≠ [] := by
        rwa [Ne, List.map_eq_nil_iff]
      rw [Text.join_cons_of_ne_nil hjoined, Text.join_cons_of_ne_nil hlexemes, ih]
      simp only [String.append_assoc]
  | case4 first second rest hjoin ih =>
    have hjoined : (joinNotNull (second :: rest)).map Prod.snd ≠ [] := by
      rw [Ne, List.map_eq_nil_iff]
      exact joinNotNull_ne_nil (List.cons_ne_nil _ _)
    rw [joinNotNull, if_neg hjoin, List.map_cons, Text.join_cons_of_ne_nil hjoined, ih]
    rfl

theorem renderTokens_of_contents {tokens again : List Token}
    (h : again.map Token.content = joinNotNull tokens) :
    renderTokens again = renderTokens tokens := by
  rw [← join_joinNotNull tokens, ← h, List.map_map]
  rfl

/-! ## What keeps NOT and NULL apart -/

/-- Where `NOT` is cut off by itself, it is not followed by blanks and `NULL`. -/
theorem not_nullFollows_of_firstCut? {before : Option Char} {text : List Char} {cut : Cut}
    (h : firstCut? before text = some cut) (hk : cut.pattern.kind? = some (.keyword .notWord)) :
    ¬ NullFollows cut.rest := by
  rintro ⟨gap, second, after, hrest, hne, hgap, hnull, hstop⟩
  obtain ⟨hp, hnot, hb, -⟩ := keyword_of_firstCut? h hk
  have htext : text = cut.found ++ (gap ++ second) ++ after := by
    rw [← found_append_rest h, hrest]
    simp
  have hm : notNull.matcher before text = some (cut.found ++ (gap ++ second), after) :=
    notNull_matches_iff.2 ⟨cut.found, gap, second, ⟨hnot, hne, hgap, hnull⟩, rfl, htext, hb, hstop⟩
  have hearlier : notNull ∈ earlier cut.pattern := by
    rw [hp]
    decide
  rw [(firstCut?_eq_some_iff.1 h).2.2 notNull hearlier] at hm
  exact absurd hm (by simp)

/-- Without comments, a scan leaves no `NOT` directly followed by `NULL`. -/
theorem neverFollowed_of_cuts {before : Option Char} {text rest : List Char} {cuts : List Cut}
    (h : Cuts before text cuts rest) (hno : ∀ cut ∈ cuts, cut.pattern ≠ comment) (offset : Nat) :
    NeverFollowed (.keyword .notWord) (.keyword .null) (tokensOf offset cuts) := by
  induction h generalizing offset with
  | nil => exact .nil
  | @cons before text rest cut cuts hcut hcuts ih =>
    have hlater : ∀ other ∈ cuts, other.pattern ≠ comment :=
      fun other hmem => hno other (List.mem_cons_of_mem cut hmem)
    have htail := ih hlater (offset + byteLength cut.found)
    rw [tokensOf, Cut.tokens]
    cases hk : cut.pattern.kind? with
    | none => exact htail
    | some kind =>
      refine neverFollowed_cons.2 ⟨fun hnot next hnext hnull => ?_, htail⟩
      rw [show kind = .keyword .notWord from hnot] at hk
      obtain ⟨others, htokens⟩ := List.head?_eq_some_iff.1 hnext
      obtain ⟨gap, second, after, -, -, hrest, hgap, hspells, hstop, -⟩ :=
        exists_keyword_of_cuts hcuts hlater htokens hnull
      refine not_nullFollows_of_firstCut? hcut hk
        ⟨gap, second, after, hrest, ?_, hgap, hspells, hstop⟩
      -- `NOT` ends at a word boundary, and so `NULL` cannot begin right behind it.
      rintro rfl
      have hboundary := (keyword_of_firstCut? hcut hk).2.2.2
      obtain ⟨c, second, rfl⟩ := List.exists_cons_of_ne_nil (ne_nil_of_spells hspells)
      rw [hrest, List.nil_append, List.cons_append, stops_cons] at hboundary
      rw [isWord_of_spells hspells c List.mem_cons_self] at hboundary
      exact absurd hboundary (by simp)

/-! ## Statements -/

/-- The rendering of a statement can be scanned, and rendering its tokens changes nothing more. They
are those of the statement exactly if this has no `NOT` directly followed by `NULL`, and so they
are wherever it has no two minus signs in a row and hence no comment. -/
theorem scan_renderTokens_iff {statement : String} {tokens : List Token}
    (h : scan statement = .ok tokens) :
    ∃ again, scan (renderTokens tokens) = .ok again ∧
      renderTokens again = renderTokens tokens ∧
      again.map Token.content = joinNotNull tokens ∧
      (again.map Token.content = tokens.map Token.content ↔
        NeverFollowed (.keyword .notWord) (.keyword .null) tokens) ∧
      (¬ ['-', '-'] <:+: statement.toList →
        again.map Token.content = tokens.map Token.content) := by
  obtain ⟨again, hscan, hcontents⟩ := scan_renderTokens (isLexeme_of_scan h)
  have hiff : again.map Token.content = tokens.map Token.content ↔
      NeverFollowed (.keyword .notWord) (.keyword .null) tokens := by
    rw [hcontents]
    exact joinNotNull_eq_map_iff
  refine ⟨again, hscan, renderTokens_of_contents hcontents, hcontents, hiff, fun hno => ?_⟩
  -- A comment among the cuts would show its two minus signs in the statement.
  obtain ⟨cuts, hcuts, rfl⟩ := cuts_of_scan h
  refine hiff.2 (neverFollowed_of_cuts hcuts (fun cut hmem hp => hno ?_) 0)
  exact isInfix_of_comment hcuts cut hmem hp

/-- The tokens of a statement in which a comment keeps `NOT` and `NULL` apart. -/
def apartTokens : List Token :=
  [⟨.keyword .notWord, "NOT", 0, 3⟩, ⟨.keyword .null, "NULL", 7, 11⟩]

theorem scan_apart : scan "NOT--c\nNULL" = .ok apartTokens :=
  scan_eq_ok_of_toOption (by decide +kernel)

/-- The rendering of these tokens has one token. -/
theorem scan_renderTokens_apart :
    scan "NOT--c\nNULL" = .ok apartTokens ∧
      ∃ again, scan (renderTokens apartTokens) = .ok again ∧
        again.map Token.content = [(.notNull, "NOT NULL")] := by
  obtain ⟨again, hscan, -, hcontents, -⟩ := scan_renderTokens_iff scan_apart
  exact ⟨scan_apart, again, hscan, hcontents⟩

/-- So the tokens of a rendering need not be those of its statement. -/
theorem not_forall_scan_renderTokens :
    ¬ ∀ statement tokens, scan statement = .ok tokens →
      ∃ again, scan (renderTokens tokens) = .ok again ∧
        again.map Token.content = tokens.map Token.content := by
  intro h
  obtain ⟨again, hscan, hcontents⟩ := h _ _ scan_apart
  obtain ⟨found, hfound, hjoined⟩ := scan_renderTokens (isLexeme_of_scan scan_apart)
  rw [hscan] at hfound
  injection hfound with hfound
  rw [← hfound, hcontents] at hjoined
  exact absurd hjoined (by decide)

/-! ## Lexemes by themselves -/

/-- Scanned by itself, the lexeme gives one token, of the same kind and with the same lexeme. -/
def Token.ScansAlone (token : Token) : Prop :=
  ∃ alone, scan token.lexeme = .ok [alone] ∧ alone.content = token.content

/-- Whether a token is a lexeme depends on its contents alone. -/
theorem Token.IsLexeme.congr {token other : Token} (h : token.IsLexeme)
    (hcontent : token.content = other.content) : other.IsLexeme := by
  obtain ⟨p, hk, hlexeme⟩ := h
  obtain ⟨hkind, hsame⟩ := Prod.mk.inj hcontent
  exact ⟨p, hk.trans (congrArg some hkind), hsame ▸ hlexeme⟩

/-- The lexemes of the patterns are the texts that give themselves: what stands around a token does
not decide what it is. -/
theorem Token.scansAlone_iff {token : Token} : token.ScansAlone ↔ token.IsLexeme := by
  constructor
  · rintro ⟨alone, hscan, hcontent⟩
    exact (isLexeme_of_scan hscan alone List.mem_cons_self).congr hcontent
  · intro h
    have hlexeme : ∀ other ∈ [token], other.IsLexeme := List.forall_mem_singleton.2 h
    obtain ⟨again, hscan, hcontents⟩ := scan_renderTokens hlexeme
    obtain ⟨alone, rfl, hcontent⟩ := List.map_eq_singleton_iff.1 hcontents
    exact ⟨alone, hscan, hcontent⟩

/-- Every token of a scan gives itself when its lexeme is scanned alone. Any tokens with this
property come back from their rendering, with `NOT` and `NULL` joined and all else as it is. -/
theorem scan_renderTokens_of_scansAlone :
    (∀ statement tokens, scan statement = .ok tokens → ∀ token ∈ tokens, token.ScansAlone) ∧
      ∀ tokens : List Token, (∀ token ∈ tokens, token.ScansAlone) →
        ∃ again, scan (renderTokens tokens) = .ok again ∧
          again.map Token.content = joinNotNull tokens := by
  constructor
  · intro statement tokens hscan token hmem
    exact Token.scansAlone_iff.2 (isLexeme_of_scan hscan token hmem)
  · intro tokens h
    exact scan_renderTokens fun token hmem => Token.scansAlone_iff.1 (h token hmem)

/-- Tokens that would be others without the spaces between them: `-5`, `--`, `(3)`, `<>`. -/
def denseTokens : List Token :=
  [⟨.keyword .notWord, "not", 0, 0⟩, ⟨.keyword .null, "NULL", 0, 0⟩, ⟨.operator, "-", 0, 0⟩,
    ⟨.operator, "-", 0, 0⟩, ⟨.integerLiteral, "5", 0, 0⟩, ⟨.leftParen, "(", 0, 0⟩,
    ⟨.integerLiteral, "3", 0, 0⟩, ⟨.rightParen, ")", 0, 0⟩, ⟨.operator, "<", 0, 0⟩,
    ⟨.operator, ">", 0, 0⟩]

theorem scansAlone_of_toOption {token : Token}
    (h : (scan token.lexeme).toOption.map (·.map Token.content) = some [token.content]) :
    token.ScansAlone := by
  obtain ⟨found, hfound, hcontents⟩ := Option.map_eq_some_iff.1 h
  obtain ⟨alone, rfl, hcontent⟩ := List.map_eq_singleton_iff.1 hcontents
  exact ⟨alone, scan_eq_ok_of_toOption hfound, hcontent⟩

theorem scan_renderTokens_of_dense :
    (∀ token ∈ denseTokens, token.ScansAlone) ∧
      renderTokens denseTokens = "not NULL - - 5 ( 3 ) < >" ∧
      ∃ again, scan (renderTokens denseTokens) = .ok again ∧
        (∀ token ∈ again, token.ScansAlone) ∧
        again.map Token.content = [(.notNull, "not NULL"), (.operator, "-"), (.operator, "-"),
          (.integerLiteral, "5"), (.leftParen, "("), (.integerLiteral, "3"), (.rightParen, ")"),
          (.operator, "<"), (.operator, ">")] := by
  have halone : ∀ token ∈ denseTokens, token.ScansAlone := by
    have hcomputed : ∀ token ∈ denseTokens,
        (scan token.lexeme).toOption.map (·.map Token.content) = some [token.content] := by
      decide +kernel
    exact fun token hmem => scansAlone_of_toOption (hcomputed token hmem)
  obtain ⟨again, hscan, hcontents⟩ := scan_renderTokens_of_scansAlone.2 denseTokens halone
  exact ⟨halone, rfl, again, hscan, scan_renderTokens_of_scansAlone.1 _ again hscan, hcontents⟩

end TableScribe
