import TableScribe.Proofs.Lexical.Semicolons
import TableScribe.Proofs.Statement.Parts
import TableScribe.Script.Statements

/-!
# Where a script is cut

A script is cut at a semicolon that `CREATE TABLE` follows, with nothing but white space between.

1. `Opens text`: the text begins with white space and these words. It is what `opensStatement` tests
   (`opensStatement_iff`), and it holds of every statement without comments that a strict reading
   accepts (`opens_of_strict`).
2. `pieces_append`: nothing is cut before the next semicolon.
3. `exists_first_of_pieces`: the first piece and what the others are pieces of. So a piece is a part
   of the script up to its end or up to a semicolon that `CREATE TABLE` follows (`EndsPiece`).
4. `exists_eq_tidy`: a piece loses blanks and semicolons at its ends, and `mem_splitStatements_iff`:
   what is left of the pieces are the statements. If a piece ends with a statement, it only loses its
   blanks and its last semicolon (`tidy_eq_trim`).
-/

namespace TableScribe

open Matcher Pattern

/-! ## The opening words -/

/-- The text begins with blanks and the words `CREATE` and `TABLE`, with blanks between them. -/
def Opens (text : List Char) : Prop :=
  ∃ gap create blanks word rest, text = gap ++ (create ++ (blanks ++ word)) ++ rest ∧
    (∀ c ∈ gap, Text.isBlank c = true) ∧ Spells create .create ∧ blanks ≠ [] ∧
    (∀ c ∈ blanks, Text.isBlank c = true) ∧ Spells word .table ∧ Stops Text.isWord rest

theorem openingWords_eq_some_iff {text found rest : List Char} :
    openingWords text = some (found, rest) ↔
      ∃ gap create blanks word, found = gap ++ (create ++ (blanks ++ word)) ∧
        text = found ++ rest ∧ (∀ c ∈ gap, Text.isBlank c = true) ∧ Spells create .create ∧
        blanks ≠ [] ∧ (∀ c ∈ blanks, Text.isBlank c = true) ∧ Spells word .table := by
  unfold openingWords
  constructor
  · intro h
    obtain ⟨gap, text1, found1, h1, hwords, rfl⟩ := andThen_eq_some.1 h
    obtain ⟨create, text2, found2, h2, hlast, rfl⟩ := andThen_eq_some.1 hwords
    obtain ⟨blanks, text3, word, h3, h4, rfl⟩ := andThen_eq_some.1 hlast
    obtain ⟨rfl, hgap, -⟩ := many_eq_some_iff.1 h1
    obtain ⟨rfl, hcreate⟩ := foldedWord_eq_some_iff.1 h2
    obtain ⟨rfl, hne, hblank, -⟩ := some1_eq_some_iff.1 h3
    obtain ⟨rfl, hword⟩ := foldedWord_eq_some_iff.1 h4
    exact ⟨gap, create, blanks, word, rfl, by simp, hgap, hcreate, hne, hblank, hword⟩
  · rintro ⟨gap, create, blanks, word, rfl, rfl, hgap, hcreate, hne, hblank, hword⟩
    have h4 : foldedWord "TABLE".toList (word ++ rest) = some (word, rest) :=
      foldedWord_eq_some_iff.2 ⟨rfl, hword⟩
    have h3 : some1 Text.isBlank (blanks ++ (word ++ rest)) = some (blanks, word ++ rest) :=
      some1_eq_some_iff.2 ⟨rfl, hne, hblank, stops_isBlank_of_spells hword rest⟩
    have h2 : foldedWord "CREATE".toList (create ++ (blanks ++ (word ++ rest))) =
        some (create, blanks ++ (word ++ rest)) := foldedWord_eq_some_iff.2 ⟨rfl, hcreate⟩
    have h1 : many Text.isBlank (gap ++ (create ++ (blanks ++ (word ++ rest)))) =
        some (gap, create ++ (blanks ++ (word ++ rest))) :=
      many_eq_some_iff.2 ⟨rfl, hgap, stops_isBlank_of_spells hcreate _⟩
    simp only [List.append_assoc]
    exact andThen_eq_some.2 ⟨_, _, _, h1, andThen_eq_some.2 ⟨_, _, _, h2,
      andThen_eq_some.2 ⟨_, _, _, h3, h4, rfl⟩, rfl⟩, rfl⟩

/-- Behind a key word is the edge of a word if no word character follows. -/
theorem atBoundary_of_spells {front found rest : List Char} {word : Keyword}
    (h : Spells found word) :
    Text.atBoundary (front ++ found).getLast? rest.head? = true ↔ Stops Text.isWord rest := by
  have hne := ne_nil_of_spells h
  have hlast := (head_last_of_all hne (isWord_of_spells h)).2
  rw [List.getLast?_append, List.getLast?_eq_some_getLast hne, Option.some_or,
    ← List.getLast?_eq_some_getLast hne, Stops.any]
  unfold Text.atBoundary
  rw [hlast]
  simp

theorem opensStatement_iff {text : List Char} : opensStatement text = true ↔ Opens text := by
  unfold opensStatement
  constructor
  · intro h
    split at h
    · exact absurd h (by simp)
    · rename_i found rest hfound
      obtain ⟨gap, create, blanks, word, rfl, htext, hgap, hcreate, hne, hblank, hword⟩ :=
        openingWords_eq_some_iff.1 hfound
      simp only [← List.append_assoc] at h
      have hstop := (atBoundary_of_spells hword).1 h
      exact ⟨gap, create, blanks, word, rest, htext, hgap, hcreate, hne, hblank, hword, hstop⟩
  · rintro ⟨gap, create, blanks, word, rest, htext, hgap, hcreate, hne, hblank, hword, hstop⟩
    rw [openingWords_eq_some_iff.2
      ⟨gap, create, blanks, word, rfl, htext, hgap, hcreate, hne, hblank, hword⟩]
    simp only [← List.append_assoc]
    exact (atBoundary_of_spells hword).2 hstop

theorem Opens.blanks_append {gap text : List Char} (hgap : ∀ c ∈ gap, Text.isBlank c = true)
    (h : Opens text) : Opens (gap ++ text) := by
  obtain ⟨first, create, blanks, word, rest, rfl, hfirst, h⟩ := h
  refine ⟨gap ++ first, create, blanks, word, rest, by simp, fun c hc => ?_, h⟩
  exact (List.mem_append.1 hc).elim (hgap c) (hfirst c)

/-- The words stay where they are if what follows does not go on with a word. -/
theorem Opens.append {text back : List Char} (h : Opens text) (hback : Stops Text.isWord back) :
    Opens (text ++ back) := by
  obtain ⟨gap, create, blanks, word, rest, rfl, hgap, hcreate, hne, hblank, hword, hstop⟩ := h
  exact ⟨gap, create, blanks, word, rest ++ back, by simp, hgap, hcreate, hne, hblank, hword,
    stops_append_iff.2 ⟨hstop, fun _ => hback⟩⟩

/-- If the words are not in the front of a text alone, then the back has a word character with no
semicolon in front of it. -/
theorem opens_or_of_append {front back : List Char} (h : Opens (front ++ back)) :
    Opens front ∨
      ∃ before c after, back = before ++ c :: after ∧ Text.isWord c = true ∧ ';' ∉ before := by
  obtain ⟨gap, create, blanks, word, rest, htext, hgap, hcreate, hne, hblank, hword, hstop⟩ := h
  rcases List.append_eq_append_iff.1 htext with ⟨more, hwords, hback⟩ | ⟨kept, hfront, hrest⟩
  · rcases List.eq_nil_or_concat more with rfl | ⟨before, c, rfl⟩
    · rw [List.append_nil] at hwords
      exact .inl ⟨gap, create, blanks, word, [], by rw [List.append_nil, hwords], hgap, hcreate, hne,
        hblank, hword, .nil _⟩
    · rw [List.concat_eq_append] at hwords hback
      refine .inr ⟨before, c, rest, by rw [hback]; simp, ?_, fun hmem => ?_⟩
      · -- The words end with a word character, and this is the last one behind the front.
        obtain ⟨others, last, rfl⟩ :=
          List.eq_nil_or_concat word |>.resolve_left (ne_nil_of_spells hword)
        have hlast : last = c := by
          have hends := congrArg List.getLast? hwords
          rw [List.concat_eq_append] at hends
          simpa only [← List.append_assoc, List.getLast?_concat, Option.some.injEq] using hends
        rw [← hlast]
        exact isWord_of_spells hword last (by simp)
      · have hclass : ∀ c ∈ gap ++ (create ++ (blanks ++ word)),
            Text.isBlank c = true ∨ Text.isWord c = true := by
          simp only [List.mem_append]
          rintro c (hc | hc | hc | hc)
          · exact .inl (hgap c hc)
          · exact .inr (isWord_of_spells hcreate c hc)
          · exact .inl (hblank c hc)
          · exact .inr (isWord_of_spells hword c hc)
        rcases hclass ';' (by rw [hwords]; simp [hmem]) with hc | hc
        · exact absurd hc (by decide)
        · exact absurd hc (by decide)
  · rw [hrest] at hstop
    exact .inl ⟨gap, create, blanks, word, kept, hfront, hgap, hcreate, hne, hblank, hword,
      (stops_append_iff.1 hstop).1⟩

/-- The words end in front of a semicolon. -/
theorem opens_append_semicolon_iff {front later : List Char} :
    Opens (front ++ ';' :: later) ↔ Opens front := by
  refine ⟨fun h => ?_, fun h => h.append (stops_cons.2 (by decide))⟩
  refine (opens_or_of_append h).resolve_right ?_
  rintro ⟨before, c, after, hback, hc, hno⟩
  cases before with
  | nil =>
    rw [← (List.cons.inj hback).1] at hc
    exact absurd hc (by decide)
  | cons first before => exact hno (by simp [← (List.cons.inj hback).1])

/-- What has no word characters does not help to open a statement. -/
theorem Opens.of_append {front back : List Char} (h : Opens (front ++ back))
    (hback : ∀ c ∈ back, Text.isWord c = false) : Opens front := by
  refine (opens_or_of_append h).resolve_right ?_
  rintro ⟨before, c, after, rfl, hc, -⟩
  rw [hback c (by simp)] at hc
  exact absurd hc (by simp)

/-- What begins with something else than a word does not open a statement. -/
theorem not_opens_of_no_word {gap rest : List Char} {c : Char}
    (hgap : ∀ c ∈ gap, Text.isBlank c = true) (hblank : Text.isBlank c = false)
    (hc : Text.isWord c = false) : ¬ Opens (gap ++ c :: rest) := by
  rintro ⟨first, create, blanks, word, more, htext, hfirst, hcreate, -⟩
  rw [List.append_assoc, List.append_assoc] at htext
  have hrest := (eq_of_stops htext hgap (stops_cons.2 hblank) hfirst
    (stops_isBlank_of_spells hcreate _)).2
  obtain ⟨first, create, rfl⟩ := List.exists_cons_of_ne_nil (ne_nil_of_spells hcreate)
  have hword := isWord_of_spells hcreate first List.mem_cons_self
  rw [← (List.cons.inj hrest).1, hc] at hword
  exact absurd hword (by simp)

theorem Opens.exists_word {text : List Char} (h : Opens text) :
    ∃ c ∈ text, Text.isWord c = true := by
  obtain ⟨gap, create, blanks, word, rest, rfl, -, hcreate, -⟩ := h
  obtain ⟨c, create, rfl⟩ := List.exists_cons_of_ne_nil (ne_nil_of_spells hcreate)
  exact ⟨c, by simp, isWord_of_spells hcreate c List.mem_cons_self⟩

/-- A text that begins with these words is not all blanks. -/
theorem Opens.not_blank {text : List Char} (h : Opens text) :
    ∃ c ∈ text, Text.isBlank c = false := by
  obtain ⟨c, hc, hword⟩ := h.exists_word
  exact ⟨c, hc, not_isBlank_of_isWord hword⟩

/-- A statement without comments that a strict reading accepts begins with the words. -/
theorem opens_of_strict {text : List Char} {cuts : List Cut} {table : Table}
    (h : Cuts none text cuts []) (hno : ¬ ['-', '-'] <:+: text)
    (hparse : parseTokens .strict (tokensOf 0 cuts) = .ok table) : Opens text := by
  obtain ⟨parts, hparts, -⟩ := exists_parts_of_strict hparse
  have hcomment : ∀ cut ∈ cuts, cut.pattern ≠ comment :=
    fun cut hmem hp => hno (isInfix_of_comment h cut hmem hp)
  obtain ⟨gap, create, after, later, stop, rfl, hgap, hcreate, hedge, hcuts, htokens, hsub⟩ :=
    exists_keyword_of_cuts h hcomment hparts.symm parts.create_kind
  obtain ⟨blanks, word, rest, -, -, rfl, hblank, hword, hstop, -⟩ :=
    exists_keyword_of_cuts hcuts (fun cut hmem => hcomment cut (hsub hmem)) htokens parts.word_kind
  refine ⟨gap, create, blanks, word, rest, by simp, hgap, hcreate, ?_, hblank, hword, hstop⟩
  -- `CREATE` ends at the edge of a word, and so `TABLE` cannot begin right behind it.
  rintro rfl
  obtain ⟨c, word, rfl⟩ := List.exists_cons_of_ne_nil (ne_nil_of_spells hword)
  have hc := isWord_of_spells hword c List.mem_cons_self
  rw [List.nil_append, List.cons_append, stops_cons, hc] at hedge
  exact absurd hedge (by simp)

/-! ## Pieces -/

/-- Nothing is cut at semicolons that do not open a statement. -/
theorem pieces_append_of_uncut {front rest first : List Char} {more : List (List Char)}
    (h : ∀ before after, front = before ++ ';' :: after → ¬ Opens (after ++ rest))
    (hrest : pieces rest = first :: more) : pieces (front ++ rest) = (front ++ first) :: more := by
  induction front with
  | nil => exact hrest
  | cons c front ih =>
    have hc : ¬ (c = ';' ∧ opensStatement (front ++ rest) = true) := by
      rintro ⟨rfl, hopens⟩
      exact h [] front rfl (opensStatement_iff.1 hopens)
    have hfront : ∀ before after, front = before ++ ';' :: after → ¬ Opens (after ++ rest) :=
      fun before after hl => h (c :: before) after (by rw [hl]; rfl)
    rw [List.cons_append, pieces, if_neg hc, ih hfront]
    rfl

theorem pieces_append {front rest first : List Char} {more : List (List Char)} (h : ';' ∉ front)
    (hrest : pieces rest = first :: more) : pieces (front ++ rest) = (front ++ first) :: more :=
  pieces_append_of_uncut (fun _ _ hl => absurd (hl ▸ by simp) h) hrest

theorem pieces_semicolon_of_opens {rest : List Char} (h : Opens rest) :
    pieces (';' :: rest) = [] :: pieces rest := by
  rw [pieces, if_pos ⟨rfl, opensStatement_iff.2 h⟩]

theorem pieces_semicolon_of_not_opens {rest first : List Char} {more : List (List Char)}
    (h : ¬ Opens rest) (hrest : pieces rest = first :: more) :
    pieces (';' :: rest) = (';' :: first) :: more := by
  rw [pieces, if_neg fun hcut => h (opensStatement_iff.1 hcut.2), hrest]
  rfl

theorem not_opens_nil : ¬ Opens [] := by
  intro h
  obtain ⟨c, hc, -⟩ := h.not_blank
  exact absurd hc List.not_mem_nil

/-- A piece ends here: at the end of the script, or in front of a semicolon that another statement
follows. -/
def EndsPiece (rest : List Char) : Prop :=
  rest = [] ∨ ∃ later, rest = ';' :: later ∧ Opens later

/-- Whether a statement begins somewhere in a piece does not depend on what is behind the piece. -/
theorem opens_append_of_endsPiece {front rest : List Char} (h : EndsPiece rest) :
    Opens (front ++ rest) ↔ Opens front := by
  rcases h with rfl | ⟨later, rfl, -⟩
  · rw [List.append_nil]
  · exact opens_append_semicolon_iff

theorem pieces_of_endsPiece {rest : List Char} (h : EndsPiece rest) :
    ∃ more, pieces rest = [] :: more := by
  rcases h with rfl | ⟨later, rfl, hopens⟩
  · exact ⟨[], rfl⟩
  · exact ⟨_, pieces_semicolon_of_opens hopens⟩

/-- The first piece goes as far as nothing is cut, and the others are those of what is behind the
semicolon. -/
theorem exists_first_of_pieces (script : List Char) :
    ∃ first rest more, pieces script = first :: more ∧ script = first ++ rest ∧
      ((rest = [] ∧ more = []) ∨
        ∃ later, rest = ';' :: later ∧ Opens later ∧ more = pieces later) := by
  induction script with
  | nil => exact ⟨[], [], [], rfl, rfl, .inl ⟨rfl, rfl⟩⟩
  | cons c script ih =>
    by_cases hcut : c = ';' ∧ Opens script
    · obtain ⟨rfl, hopens⟩ := hcut
      exact ⟨[], _, _, pieces_semicolon_of_opens hopens, rfl, .inr ⟨script, rfl, hopens, rfl⟩⟩
    · obtain ⟨first, rest, more, hpieces, hscript, hrest⟩ := ih
      rw [← opensStatement_iff] at hcut
      refine ⟨c :: first, rest, more, ?_, by rw [hscript]; rfl, hrest⟩
      rw [pieces, if_neg hcut, hpieces]
      rfl

/-- A piece is a part of the script that ends where a piece can end. -/
theorem exists_of_mem_pieces {script piece : List Char} (h : piece ∈ pieces script) :
    ∃ front rest, script = front ++ (piece ++ rest) ∧ EndsPiece rest := by
  obtain ⟨first, rest, more, hpieces, hscript, hrest⟩ := exists_first_of_pieces script
  rw [hpieces] at h
  rcases hrest with ⟨rfl, rfl⟩ | ⟨later, rfl, hopens, rfl⟩
  · rw [List.mem_singleton.1 h]
    exact ⟨[], [], hscript, .inl rfl⟩
  · rcases List.mem_cons.1 h with rfl | hlater
    · exact ⟨[], _, hscript, .inr ⟨later, rfl, hopens⟩⟩
    · obtain ⟨front, rest, hfront, hends⟩ := exists_of_mem_pieces hlater
      exact ⟨first ++ ';' :: front, rest, by rw [hscript, hfront]; simp, hends⟩
termination_by script.length
decreasing_by
  rw [hscript]
  simp
  omega

/-- What is not cut stands at the end of a piece if a piece ends behind it. -/
theorem exists_piece_of_uncut {block rest : List Char}
    (h : ∀ before after, block = before ++ ';' :: after → ¬ Opens (after ++ rest))
    (hrest : EndsPiece rest) (front : List Char) :
    ∃ before, before ++ block ∈ pieces (front ++ (block ++ rest)) := by
  induction front with
  | nil =>
    obtain ⟨more, hmore⟩ := pieces_of_endsPiece hrest
    refine ⟨[], ?_⟩
    rw [List.nil_append, pieces_append_of_uncut h hmore, List.append_nil]
    exact List.mem_cons_self
  | cons c front ih =>
    obtain ⟨before, hmem⟩ := ih
    rw [List.cons_append, pieces]
    split
    · exact ⟨before, List.mem_cons_of_mem _ hmem⟩
    · cases hpieces : pieces (front ++ (block ++ rest)) with
      | nil =>
        rw [hpieces] at hmem
        exact absurd hmem List.not_mem_nil
      | cons first more =>
        rw [hpieces] at hmem
        rcases List.mem_cons.1 hmem with rfl | hmore
        · exact ⟨c :: before, List.mem_cons_self⟩
        · exact ⟨before, List.mem_cons_of_mem _ hmore⟩

/-! ## The ends of a text -/

section Ends

variable {p : Char → Bool} {text front back : List Char}

theorem mem_of_getLast?_append {c : Char} (hne : back ≠ []) (h : c ∈ (front ++ back).getLast?) :
    c ∈ back := by
  rw [List.getLast?_append, List.getLast?_eq_some_getLast hne, Option.some_or,
    Option.mem_some_iff] at h
  exact h ▸ List.getLast_mem hne

theorem dropWhile_append_of_mem (h : ∃ c ∈ front, p c = false) :
    (front ++ back).dropWhile p = front.dropWhile p ++ back := by
  obtain ⟨c, hc, hp⟩ := h
  rw [List.dropWhile_append, if_neg]
  intro hempty
  have hall : front.takeWhile p = front := by
    have hsplit : front.takeWhile p ++ front.dropWhile p = front :=
      List.takeWhile_append_dropWhile
    rwa [List.isEmpty_iff.1 hempty, List.append_nil] at hsplit
  rw [← hall] at hc
  rw [List.all_eq_true.1 List.all_takeWhile c hc] at hp
  exact absurd hp (by simp)

theorem dropEndWhile_append_of_mem (h : ∃ c ∈ back, p c = false) :
    Text.dropEndWhile p (front ++ back) = front ++ Text.dropEndWhile p back := by
  have hreverse : ∃ c ∈ back.reverse, p c = false := by simpa using h
  unfold Text.dropEndWhile
  rw [List.reverse_append, dropWhile_append_of_mem hreverse, List.reverse_append,
    List.reverse_reverse]

theorem dropEndWhile_concat {c : Char} (hc : p c = true) :
    Text.dropEndWhile p (text ++ [c]) = Text.dropEndWhile p text := by
  unfold Text.dropEndWhile
  rw [List.reverse_append, List.reverse_singleton, List.singleton_append,
    List.dropWhile_cons_of_pos hc]

/-- What is taken off the end of a text is all that its end has of the class. -/
theorem dropEndWhile_spec (p : Char → Bool) (text : List Char) :
    ∃ gap, text = Text.dropEndWhile p text ++ gap ∧ (∀ c ∈ gap, p c = true) ∧
      ∀ c ∈ (Text.dropEndWhile p text).getLast?, p c = false := by
  obtain ⟨hsplit, hall, hstop⟩ := takeWhile_dropWhile_eq_iff.1
    (⟨rfl, rfl⟩ : text.reverse.takeWhile p = _ ∧ text.reverse.dropWhile p = _)
  refine ⟨(text.reverse.takeWhile p).reverse, ?_, ?_, ?_⟩
  · unfold Text.dropEndWhile
    rw [← List.reverse_append, ← hsplit, List.reverse_reverse]
  · intro c hc
    exact hall c (List.mem_reverse.1 hc)
  · unfold Text.dropEndWhile
    rw [List.getLast?_reverse]
    exact hstop

theorem dropEndWhile_ne_nil (h : ∃ c ∈ text, p c = false) : Text.dropEndWhile p text ≠ [] := by
  obtain ⟨c, hc, hp⟩ := h
  obtain ⟨gap, hgap, hall, -⟩ := dropEndWhile_spec p text
  intro hnil
  rw [hgap, hnil, List.nil_append] at hc
  rw [hall c hc] at hp
  exact absurd hp (by simp)

theorem dropEndWhile_of_getLast? (h : ∀ c ∈ text.getLast?, p c = false) :
    Text.dropEndWhile p text = text := by
  obtain ⟨gap, hgap, hall, -⟩ := dropEndWhile_spec p text
  rcases List.eq_nil_or_concat gap with rfl | ⟨front, last, rfl⟩
  · rw [List.append_nil] at hgap
    exact hgap.symm
  · rw [List.concat_eq_append] at hgap hall
    have hlast := h last (by rw [hgap, ← List.append_assoc, List.getLast?_concat]; rfl)
    rw [hall last (by simp)] at hlast
    exact absurd hlast (by simp)

theorem dropEndWhile_concat_of_neg {c : Char} (hc : p c = false) :
    Text.dropEndWhile p (text ++ [c]) = text ++ [c] := by
  unfold Text.dropEndWhile
  rw [List.reverse_append, List.reverse_singleton, List.singleton_append,
    List.dropWhile_cons_of_neg (by rw [hc]; decide), List.reverse_cons, List.reverse_reverse]

/-- What is taken off the beginning of a text is all its blanks there. -/
theorem trimStart_spec (text : List Char) :
    ∃ gap, text = gap ++ Text.trimStart text ∧ (∀ c ∈ gap, Text.isBlank c = true) ∧
      Stops Text.isBlank (Text.trimStart text) :=
  ⟨_, takeWhile_dropWhile_eq_iff.1 ⟨rfl, rfl⟩⟩

end Ends

/-- A character that a statement may lose at its ends: a blank or a semicolon. -/
def isFiller (c : Char) : Bool :=
  Text.isBlank c || c == ';'

theorem isFiller_iff {c : Char} : isFiller c = true ↔ Text.isBlank c = true ∨ c = ';' := by
  simp [isFiller]

theorem not_isWord_of_isFiller {c : Char} (h : isFiller c = true) : Text.isWord c = false := by
  rcases isFiller_iff.1 h with hblank | rfl
  · exact Text.not_isWord_of_isBlank hblank
  · decide

/-- Behind its blanks, a piece is what is left of it and what it loses. -/
theorem trimStart_eq_tidy_append (piece : List Char) :
    ∃ tail, Text.trimStart piece = tidy piece ++ tail ∧ ∀ c ∈ tail, isFiller c = true := by
  obtain ⟨tail, hpiece, htail, -⟩ := dropEndWhile_spec Text.isBlank (Text.trimStart piece)
  obtain ⟨marks, htrim, hmarks, -⟩ := dropEndWhile_spec (· = ';') (Text.trim piece)
  obtain ⟨gap, hkept, hgap, -⟩ :=
    dropEndWhile_spec Text.isBlank (Text.dropEndWhile (· = ';') (Text.trim piece))
  refine ⟨gap ++ (marks ++ tail), ?_, ?_⟩
  · calc Text.trimStart piece = Text.trim piece ++ tail := hpiece
      _ = Text.dropEndWhile (· = ';') (Text.trim piece) ++ marks ++ tail := by rw [← htrim]
      _ = tidy piece ++ gap ++ marks ++ tail := congrArg (· ++ marks ++ tail) hkept
      _ = tidy piece ++ (gap ++ (marks ++ tail)) := by simp
  · simp only [List.mem_append]
    rintro c (hc | hc | hc)
    · exact isFiller_iff.2 (.inl (hgap c hc))
    · exact isFiller_iff.2 (.inr (by simpa using hmarks c hc))
    · exact isFiller_iff.2 (.inl (htail c hc))

/-- A piece and what is left of it. -/
theorem exists_eq_tidy (piece : List Char) :
    ∃ lead tail, piece = lead ++ (tidy piece ++ tail) ∧ (∀ c ∈ lead, isFiller c = true) ∧
      ∀ c ∈ tail, isFiller c = true := by
  obtain ⟨tail, hpiece, htail⟩ := trimStart_eq_tidy_append piece
  obtain ⟨lead, hlead, hblank, -⟩ := trimStart_spec piece
  rw [hpiece] at hlead
  exact ⟨lead, tail, hlead, fun c hc => isFiller_iff.2 (.inl (hblank c hc)), htail⟩

/-- A piece that ends with a statement loses its blanks, and a semicolon behind them. -/
theorem tidy_eq_trim {piece front back : List Char} (hpiece : Text.trimStart piece = front ++ back)
    (hback : ∃ c ∈ back, Text.isBlank c = false) (hno : ';' ∉ back) :
    tidy piece = Text.trim piece ∧ tidy (piece ++ [';']) = Text.trim piece := by
  have hne : back ≠ [] := by
    rintro rfl
    exact absurd hback (by simp)
  have hlast : ∀ kept : List Char, kept ≠ [] → kept ⊆ back →
      ∀ c ∈ (front ++ kept).getLast?, decide (c = ';') = false := by
    intro kept hkept hsub c hc
    exact decide_eq_false fun heq => hno (heq ▸ hsub (mem_of_getLast?_append hkept hc))
  have hstart : ∃ c ∈ piece, Text.isBlank c = false := by
    obtain ⟨c, hc, hblank⟩ := hback
    refine ⟨c, (List.dropWhile_sublist Text.isBlank).subset ?_, hblank⟩
    rw [show piece.dropWhile Text.isBlank = front ++ back from hpiece]
    exact List.mem_append_right front hc
  constructor
  · have htrim : Text.trim piece = front ++ Text.trimEnd back := by
      unfold Text.trim
      rw [hpiece]
      exact dropEndWhile_append_of_mem hback
    obtain ⟨-, -, -, hends⟩ := dropEndWhile_spec Text.isBlank (Text.trimStart piece)
    rw [show Text.dropEndWhile Text.isBlank (Text.trimStart piece) = Text.trim piece from rfl,
      htrim] at hends
    obtain ⟨gap, hsplit, -⟩ := dropEndWhile_spec Text.isBlank back
    have hsub : Text.trimEnd back ⊆ back := by
      intro c hc
      rw [hsplit]
      exact List.mem_append_left gap hc
    have hkept : Text.trimEnd back ≠ [] := dropEndWhile_ne_nil hback
    unfold tidy
    rw [htrim, dropEndWhile_of_getLast? (hlast _ hkept hsub)]
    exact dropEndWhile_of_getLast? hends
  · unfold tidy Text.trim
    have happend : Text.trimStart (piece ++ [';']) = front ++ back ++ [';'] := by
      rw [← hpiece]
      exact dropWhile_append_of_mem hstart
    have hend : Text.trimEnd (front ++ back ++ [';']) = front ++ back ++ [';'] :=
      dropEndWhile_concat_of_neg (by decide)
    rw [happend, hend, dropEndWhile_concat (by simp),
      dropEndWhile_of_getLast? (hlast back hne (List.Subset.refl _)), hpiece]

/-! ## Statements -/

/-- The statements come from the pieces that have something in them. -/
theorem splitStatements_eq (script : String) :
    splitStatements script =
      ((pieces script.toList).filter fun piece => tidy piece ≠ []).map fun piece =>
        String.ofList (tidy piece ++ [';']) := by
  unfold splitStatements
  rw [List.filter_map, List.map_map]
  rfl

theorem mem_splitStatements_iff {script statement : String} :
    statement ∈ splitStatements script ↔
      ∃ piece ∈ pieces script.toList, tidy piece ≠ [] ∧
        statement = String.ofList (tidy piece ++ [';']) := by
  rw [splitStatements_eq, List.mem_map]
  simp only [List.mem_filter, decide_eq_true_eq, and_assoc, @eq_comm _ statement]

end TableScribe
