import TableScribe.Lexical.Scan
import TableScribe.Proofs.Lexical.Lexemes

/-!
# Scanning a rendered token list

`renderTokens` writes lexemes with a space between neighbours. Scanned again, such a text gives the
same kinds and lexemes, except that `NOT` and `NULL` in a row have become one token
(`scan_renderTokens`); where they stood apart before, a comment had kept them from being one.

The induction takes one lexeme after the other. Whatever has been cut off before, the next lexeme
follows a space, and the space itself is all that is cut off as blanks, because no lexeme begins
with a blank.
-/

namespace TableScribe

open Matcher Pattern

/-! ## Single steps of the scan -/

/-- What the scan makes of a cut and of the tokens behind it. -/
def Pattern.Cut.tokens (cut : Cut) (offset : Nat) (later : List Token) : List Token :=
  match cut.pattern.kind? with
  | none => later
  | some kind =>
    ⟨kind, String.ofList cut.found, offset, offset + byteLength cut.found⟩ :: later

theorem scanFrom_of_firstCut? {before : Option Char} {text : List Char} {cut : Cut}
    (h : firstCut? before text = some cut) (offset : Nat) :
    scanFrom before offset text =
      (scanFrom cut.found.getLast? (offset + byteLength cut.found) cut.rest).map
        (cut.tokens offset) := by
  cases text with
  | nil =>
    have hlength := length_rest_lt_of_firstCut? h
    exact absurd hlength (by simp)
  | cons c text =>
    rw [scanFrom]
    split
    · rename_i hno
      rw [h] at hno
      exact absurd hno (by simp)
    · rename_i other hother
      rw [h, Option.some.injEq] at hother
      subst hother
      dsimp only
      unfold Cut.tokens
      cases scanFrom cut.found.getLast? (offset + byteLength cut.found) cut.rest with
      | error fault => rfl
      | ok tokens => cases cut.pattern.kind? <;> rfl

/-- A lexeme of the pattern of its kind. -/
def Token.IsLexeme (token : Token) : Prop :=
  ∃ p : Pattern, p.kind? = some token.kind ∧ Lexeme p token.lexeme.toList

/-- Every token of a scanned text is a lexeme of its kind. -/
theorem isLexeme_of_scanFrom {before : Option Char} {offset : Nat} {text : List Char}
    {tokens : List Token} (h : scanFrom before offset text = .ok tokens) :
    ∀ token ∈ tokens, token.IsLexeme := by
  fun_induction scanFrom before offset text generalizing tokens with
  | case1 before offset =>
    injection h with h
    subst h
    exact fun token hmem => absurd hmem (by simp)
  | case2 => exact absurd h (by simp)
  | case3 => exact absurd h (by simp)
  | case4 before offset c rest cut hcut stop later hlater hkind =>
    rename_i ih
    injection h with h
    subst h
    exact ih hlater
  | case5 before offset c rest cut hcut stop later hlater kind hkind =>
    rename_i ih
    injection h with h
    subst h
    intro token hmem
    rcases List.mem_cons.1 hmem with rfl | hmem
    · refine ⟨cut.pattern, hkind, ?_⟩
      rw [String.toList_ofList]
      exact lexeme_of_firstCut? hcut hkind
    · exact ih hlater token hmem

theorem isLexeme_of_scan {statement : String} {tokens : List Token}
    (h : scan statement = .ok tokens) : ∀ token ∈ tokens, token.IsLexeme :=
  isLexeme_of_scanFrom h

/-! ## Joining NOT and NULL -/

/-- The kind and the lexeme of a token, without its place. -/
def Token.content (token : Token) : TokenKind × String :=
  (token.kind, token.lexeme)

/-- The contents of the tokens, where `NOT` and `NULL` in a row have become one. -/
def joinNotNull : List Token → List (TokenKind × String)
  | [] => []
  | [token] => [token.content]
  | first :: second :: rest =>
    if first.kind = .keyword .notWord ∧ second.kind = .keyword .null then
      (.notNull, first.lexeme ++ " " ++ second.lexeme) :: joinNotNull rest
    else first.content :: joinNotNull (second :: rest)

/-! ## The text of a rendered list -/

/-- The characters that follow a token when the rest of its list is rendered. -/
def renderedAfter : List Token → List Char
  | [] => []
  | token :: rest => ' ' :: (renderTokens (token :: rest)).toList

theorem spaced_renderedAfter (rest : List Token) : Spaced (renderedAfter rest) := by
  cases rest with
  | nil => exact .inl rfl
  | cons token rest => exact .inr ⟨_, rfl⟩

theorem toList_renderTokens_cons (token : Token) (rest : List Token) :
    (renderTokens (token :: rest)).toList = token.lexeme.toList ++ renderedAfter rest := by
  cases rest with
  | nil =>
    show token.lexeme.toList = token.lexeme.toList ++ []
    rw [List.append_nil]
  | cons next rest =>
    show (token.lexeme ++ " " ++ renderTokens (next :: rest)).toList = _
    rw [String.toList_append, String.toList_append, List.append_assoc]
    rfl

/-! ## Scanning it again -/

/-- The patterns of the table that stand for key words are their own. -/
theorem eq_keyword_of_kind? {p : Pattern} {found : List Char} {word : Keyword}
    (h : Lexeme p found) (hk : p.kind? = some (.keyword word)) : p = .keyword word := by
  have hp := h.starts.1
  have hall : table.all (fun p => match p with
    | single _ (.keyword _) | enclosed _ (.keyword _) => false
    | _ => true) = true := by decide
  have hother := List.all_eq_true.1 hall p hp
  cases p with
  | keyword other =>
    injection hk with hk
    injection hk with hk
    rw [hk]
  | single mark kind =>
    injection hk with hk
    subst hk
    exact absurd hother (by simp)
  | enclosed quote kind =>
    injection hk with hk
    subst hk
    exact absurd hother (by simp)
  | _ => exact absurd hk (by simp [kind?])

/-- A space in front of anything but a blank is cut off by itself. -/
theorem scanFrom_space {before : Option Char} {offset : Nat} {text : List Char}
    (h : Stops Text.isBlank text) :
    scanFrom before offset (' ' :: text) = scanFrom (some ' ') (offset + 1) text := by
  have hm : some1 Text.isBlank (' ' :: text) = some ([' '], text) :=
    some1_eq_some_iff.2 ⟨rfl, by simp, Text.isBlank_space, h⟩
  have hnone : ∀ q ∈ earlier blanks, q.starts ' ' = false := by decide
  have hcut : firstCut? before (' ' :: text) = some ⟨blanks, [' '], text⟩ := by
    refine firstCut?_of_matcher (by decide) hm fun q hq hc => ?_
    rw [hnone q hq] at hc
    exact absurd hc (by simp)
  rw [scanFrom_of_firstCut? hcut]
  show (scanFrom (some ' ') (offset + 1) text).map (fun tokens => tokens) = _
  cases scanFrom (some ' ') (offset + 1) text <;> rfl

/-- The text is scanned into tokens of these contents. -/
def ScansAs (before : Option Char) (text : List Char) (contents : List (TokenKind × String)) :
    Prop :=
  ∀ offset, ∃ tokens, scanFrom before offset text = .ok tokens ∧
    tokens.map Token.content = contents

theorem ScansAs.cut {p : Pattern} {kind : TokenKind} {before : Option Char}
    {found rest : List Char} {contents : List (TokenKind × String)}
    (hcut : firstCut? before (found ++ rest) = some ⟨p, found, rest⟩) (hk : p.kind? = some kind)
    (hrest : ScansAs found.getLast? rest contents) :
    ScansAs before (found ++ rest) ((kind, String.ofList found) :: contents) := by
  intro offset
  obtain ⟨tokens, hscan, hcontents⟩ := hrest (offset + byteLength found)
  refine ⟨⟨kind, String.ofList found, offset, offset + byteLength found⟩ :: tokens, ?_, ?_⟩
  · rw [scanFrom_of_firstCut? hcut, hscan]
    unfold Cut.tokens
    dsimp only
    rw [hk]
    rfl
  · rw [List.map_cons, hcontents]
    rfl

theorem scansAs_nil (before : Option Char) : ScansAs before [] [] := by
  intro offset
  refine ⟨[], ?_, rfl⟩
  rw [scanFrom]

/-- The rest of a rendered list is scanned like the list itself, after the space in front of it. -/
theorem scansAs_renderedAfter {rest : List Token} (h : ∀ token ∈ rest, token.IsLexeme)
    {contents : List (TokenKind × String)}
    (hrest : ScansAs (some ' ') (renderTokens rest).toList contents) (before : Option Char) :
    ScansAs before (renderedAfter rest) contents := by
  cases rest with
  | nil =>
    intro offset
    obtain ⟨tokens, hscan, hcontents⟩ := hrest offset
    refine ⟨tokens, ?_, hcontents⟩
    rw [← hscan]
    show scanFrom before offset [] = scanFrom (some ' ') offset []
    rw [scanFrom, scanFrom]
  | cons token rest =>
    obtain ⟨p, -, hlexeme⟩ := h token (by simp)
    have hstop : Stops Text.isBlank (renderTokens (token :: rest)).toList := by
      rw [toList_renderTokens_cons]
      exact hlexeme.stops_isBlank _
    intro offset
    show ∃ tokens, scanFrom before offset (' ' :: _) = .ok tokens ∧ _
    rw [scanFrom_space hstop]
    exact hrest (offset + 1)

theorem Token.IsLexeme.spells {token : Token} {word : Keyword} (h : token.IsLexeme)
    (hk : token.kind = .keyword word) : Spells token.lexeme.toList word := by
  obtain ⟨p, hp, hlexeme⟩ := h
  rw [hk] at hp
  rw [eq_keyword_of_kind? hlexeme hp] at hlexeme
  cases hlexeme with
  | keyword hspells => exact hspells

/-- A token that is not joined to the next one is scanned as what it is. -/
theorem scansAs_cons {token : Token} {rest : List Token} {before : Option Char}
    {contents : List (TokenKind × String)} (h : token.IsLexeme)
    (hno : token.kind = .keyword .notWord → ¬ NullFollows (renderedAfter rest))
    (hb : before.any Text.isWord = false)
    (hrest : ∀ before, ScansAs before (renderedAfter rest) contents) :
    ScansAs before (renderTokens (token :: rest)).toList (token.content :: contents) := by
  obtain ⟨p, hk, hlexeme⟩ := h
  have hcut := firstCut?_of_lexeme hlexeme hb (spaced_renderedAfter rest) fun hnot => hno (by
    rw [hnot] at hk
    injection hk with hk
    exact hk.symm)
  have hscans := ScansAs.cut hcut hk (hrest _)
  rw [String.ofList_toList] at hscans
  rw [toList_renderTokens_cons]
  exact hscans

/-- `NOT` and `NULL` with a space between them are scanned as one token. -/
theorem scansAs_notNull {first second : Token} {rest : List Token} {before : Option Char}
    {contents : List (TokenKind × String)} (h1 : Spells first.lexeme.toList .notWord)
    (h2 : Spells second.lexeme.toList .null) (hb : before.any Text.isWord = false)
    (hrest : ∀ before, ScansAs before (renderedAfter rest) contents) :
    ScansAs before (renderTokens (first :: second :: rest)).toList
      ((.notNull, first.lexeme ++ " " ++ second.lexeme) :: contents) := by
  have hspells : SpellsNotNull first.lexeme.toList [' '] second.lexeme.toList :=
    ⟨h1, by simp, Text.isBlank_space, h2⟩
  have hstop := (spaced_renderedAfter rest).stops (show Text.isWord ' ' = false by decide)
  have hcut := firstCut?_notNull hspells hb hstop
  have hscans := ScansAs.cut hcut rfl (hrest _)
  have htext : (renderTokens (first :: second :: rest)).toList =
      first.lexeme.toList ++ ([' '] ++ second.lexeme.toList) ++ renderedAfter rest := by
    rw [toList_renderTokens_cons]
    show _ ++ ' ' :: (renderTokens (second :: rest)).toList = _
    rw [toList_renderTokens_cons]
    simp
  have hlexeme : String.ofList (first.lexeme.toList ++ ([' '] ++ second.lexeme.toList)) =
      first.lexeme ++ " " ++ second.lexeme := by
    rw [← String.toList_inj, String.toList_ofList]
    simp
  rw [htext, ← hlexeme]
  exact hscans

/-- A rendered list is scanned into its contents, with `NOT` and `NULL` joined. -/
theorem scansAs_renderTokens {tokens : List Token} (h : ∀ token ∈ tokens, token.IsLexeme)
    {before : Option Char} (hb : before.any Text.isWord = false) :
    ScansAs before (renderTokens tokens).toList (joinNotNull tokens) := by
  induction tokens using joinNotNull.induct generalizing before with
  | case1 => exact scansAs_nil before
  | case2 token =>
    exact scansAs_cons (h token (by simp)) (fun _ => not_nullFollows_nil) hb scansAs_nil
  | case3 first second rest hjoin ih =>
    have hrest : ∀ token ∈ rest, token.IsLexeme := fun token hmem => h token (by simp [hmem])
    rw [joinNotNull, if_pos hjoin]
    exact scansAs_notNull ((h first (by simp)).spells hjoin.1)
      ((h second (by simp)).spells hjoin.2) hb (scansAs_renderedAfter hrest (ih hrest rfl))
  | case4 first second rest hjoin ih =>
    have hrest : ∀ token ∈ second :: rest, token.IsLexeme :=
      fun token hmem => h token (List.mem_cons_of_mem first hmem)
    rw [joinNotNull, if_neg hjoin]
    refine scansAs_cons (h first (by simp)) (fun hnot hfollows => hjoin ⟨hnot, ?_⟩) hb
      (scansAs_renderedAfter hrest (ih hrest rfl))
    obtain ⟨p, hk, hlexeme⟩ := hrest second (by simp)
    have htext : renderedAfter (second :: rest) =
        ' ' :: (second.lexeme.toList ++ renderedAfter rest) := by
      rw [← toList_renderTokens_cons]
      rfl
    rw [htext] at hfollows
    rw [hlexeme.eq_null (spaced_renderedAfter rest) hfollows] at hk
    injection hk with hk
    exact hk.symm

/-- Tokens that are lexemes of their kinds come back from their rendering, with `NOT` and `NULL`
joined. -/
theorem scan_renderTokens {tokens : List Token} (h : ∀ token ∈ tokens, token.IsLexeme) :
    ∃ again, scan (renderTokens tokens) = .ok again ∧
      again.map Token.content = joinNotNull tokens :=
  scansAs_renderTokens h rfl 0

end TableScribe
