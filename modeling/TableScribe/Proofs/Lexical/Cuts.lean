import TableScribe.Proofs.Lexical.Rendering

/-!
# The cuts of a scan

A scan cuts one piece after the other off a text until nothing is left or nothing matches.

1. `Cuts before text cuts rest`: the cuts that follow each other from `text` down to `rest`. Put
   together again, the pieces and `rest` are `text` (`Cuts.cutOff_append`).
2. `exists_cuts_of_scanFrom`: what the scan answers with is read off its cuts. A scan that succeeds
   leaves nothing; one that fails stops before an `Unmatched` text.
3. `unmatched_spec`: the text that a fault reports goes on up to the next place where a pattern
   matches. There is no blank in it, because blanks always match, and so trimming it takes nothing
   away.
4. `exists_keyword_of_cuts`: a key word at the head of the tokens stands in the text behind blanks
   only, if no cut is a comment.
-/

namespace TableScribe

open Matcher Pattern

/-! ## Places where a pattern matches -/

/-- Some pattern of the table matches where the text `front ++ rest` goes on with `rest`. -/
def MatchesAt (front rest : List Char) : Prop :=
  ∃ p ∈ table, ∃ found after, p.matcher front.getLast? rest = some (found, after)

theorem isSome_firstCut?_iff {before : Option Char} {text : List Char} :
    (firstCut? before text).isSome = true ↔
      ∃ p ∈ table, ∃ found after, p.matcher before text = some (found, after) := by
  unfold firstCut?
  rw [List.findSome?_isSome_iff]
  constructor
  · rintro ⟨p, hp, hcut⟩
    obtain ⟨cut, hcut⟩ := Option.isSome_iff_exists.1 hcut
    exact ⟨p, hp, _, _, (cut?_eq_some.1 hcut).2⟩
  · rintro ⟨p, hp, found, after, hm⟩
    refine ⟨p, hp, Option.isSome_iff_exists.2 ⟨⟨p, found, after⟩, ?_⟩⟩
    exact cut?_eq_some.2 ⟨rfl, hm⟩

theorem matchesAt_iff {front rest : List Char} :
    MatchesAt front rest ↔ (firstCut? front.getLast? rest).isSome = true :=
  isSome_firstCut?_iff.symm

/-- A pattern matches wherever there is a blank. -/
theorem matchesAt_blank {c : Char} (hc : Text.isBlank c = true) (front rest : List Char) :
    MatchesAt front (c :: rest) := by
  refine ⟨blanks, by decide, c :: rest.takeWhile Text.isBlank, rest.dropWhile Text.isBlank, ?_⟩
  show some1 Text.isBlank (c :: rest) = _
  rw [some1, if_pos hc]

/-! ## Texts that nothing matches -/

/-- In the text `front ++ (lexeme ++ back)` no pattern matches at any place of the lexeme, which
has no blank, and one matches behind it unless the text ends there. -/
structure Unmatched (front lexeme back : List Char) : Prop where
  ne_nil : lexeme ≠ []
  no_blank : ∀ c ∈ lexeme, Text.isBlank c = false
  no_match : ∀ passed left, lexeme = passed ++ left → left ≠ [] →
    ¬ MatchesAt (front ++ passed) (left ++ back)
  stops : back = [] ∨ MatchesAt (front ++ lexeme) back

/-- What is passed over is the beginning of the text up to the first place that matches. -/
theorem unmatched_spec (front text : List Char) :
    ∃ back, text = unmatched front.getLast? text ++ back ∧
      (∀ passed left, unmatched front.getLast? text = passed ++ left → left ≠ [] →
        ¬ MatchesAt (front ++ passed) (left ++ back)) ∧
      (back = [] ∨ MatchesAt (front ++ unmatched front.getLast? text) back) := by
  -- What has been passed over goes to the front, where word boundaries look at its last character.
  induction text generalizing front with
  | nil =>
    refine ⟨[], rfl, fun passed left h hne => ?_, .inl rfl⟩
    exact absurd (List.append_eq_nil_iff.1 h.symm).2 hne
  | cons c rest ih =>
    by_cases hc : MatchesAt front (c :: rest)
    · have hnil : unmatched front.getLast? (c :: rest) = [] := by
        rw [unmatched, if_pos (matchesAt_iff.1 hc)]
      rw [hnil]
      refine ⟨c :: rest, rfl, fun passed left h hne => ?_, .inr ?_⟩
      · exact absurd (List.append_eq_nil_iff.1 h.symm).2 hne
      · rwa [List.append_nil]
    · have hcons : unmatched front.getLast? (c :: rest) =
          c :: unmatched (front ++ [c]).getLast? rest := by
        rw [unmatched, if_neg fun h => hc (matchesAt_iff.2 h), List.getLast?_concat]
      obtain ⟨back, hback, hno, hstops⟩ := ih (front ++ [c])
      rw [hcons]
      refine ⟨back, by rw [List.cons_append, ← hback], fun passed left h hne => ?_, ?_⟩
      · cases passed with
        | nil =>
          rw [List.nil_append] at h
          rw [← h, List.append_nil, List.cons_append, ← hback]
          exact hc
        | cons first passed =>
          rw [List.cons_append, List.cons.injEq] at h
          obtain ⟨rfl, h⟩ := h
          rw [List.append_cons]
          exact hno passed left h hne
      · rw [List.append_cons]
        exact hstops

/-- Where no pattern matches, the scan reports a text in which none does. -/
theorem unmatched_of_no_match {front : List Char} {c : Char} {rest : List Char}
    (h : firstCut? front.getLast? (c :: rest) = none) :
    ∃ back, c :: rest = unmatched front.getLast? (c :: rest) ++ back ∧
      Unmatched front (unmatched front.getLast? (c :: rest)) back := by
  obtain ⟨back, hback, hno, hstops⟩ := unmatched_spec front (c :: rest)
  refine ⟨back, hback, ⟨?_, fun b hb => ?_, hno, hstops⟩⟩
  · rw [unmatched, h]
    exact List.cons_ne_nil _ _
  · -- At a blank the pattern of blanks would match.
    obtain ⟨passed, left, hsplit⟩ := List.append_of_mem hb
    rw [← Bool.not_eq_true]
    intro hblank
    exact hno passed (b :: left) hsplit (List.cons_ne_nil _ _) (matchesAt_blank hblank _ _)

/-- Trimming takes nothing away from a text that does not end with a blank. -/
theorem trimEnd_of_no_blank {text : List Char} (h : ∀ c ∈ text, Text.isBlank c = false) :
    Text.trimEnd text = text := by
  unfold Text.trimEnd Text.dropEndWhile
  have hstop : text.reverse.dropWhile Text.isBlank = text.reverse := by
    cases hr : text.reverse with
    | nil => rfl
    | cons c rest =>
      have hc : c ∈ text := by
        rw [← List.mem_reverse, hr]
        exact List.mem_cons_self
      rw [List.dropWhile_cons_of_neg]
      rw [h c hc]
      exact Bool.false_ne_true
  rw [hstop, List.reverse_reverse]

/-! ## Cuts after each other -/

/-- Each cut is the one that the first matching pattern makes where the one before has stopped. -/
inductive Cuts : Option Char → List Char → List Cut → List Char → Prop
  | nil {before : Option Char} {text : List Char} : Cuts before text [] text
  | cons {before : Option Char} {text rest : List Char} {cut : Cut} {cuts : List Cut}
      (h : firstCut? before text = some cut) (ht : Cuts cut.found.getLast? cut.rest cuts rest) :
      Cuts before text (cut :: cuts) rest

/-- The text that the cuts have cut off. -/
def cutOff (cuts : List Cut) : List Char :=
  cuts.flatMap (·.found)

/-- The tokens of the cuts, the first of which is made at the byte `offset`. -/
def tokensOf (offset : Nat) : List Cut → List Token
  | [] => []
  | cut :: cuts => cut.tokens offset (tokensOf (offset + byteLength cut.found) cuts)

theorem cutOff_cons (cut : Cut) (cuts : List Cut) : cutOff (cut :: cuts) = cut.found ++ cutOff cuts :=
  List.flatMap_cons

/-- Nothing is lost by cutting. -/
theorem Cuts.cutOff_append {before : Option Char} {text rest : List Char} {cuts : List Cut}
    (h : Cuts before text cuts rest) : text = cutOff cuts ++ rest := by
  induction h with
  | nil => rfl
  | cons h _ ih => rw [cutOff_cons, List.append_assoc, ← ih, found_append_rest h]

theorem getLast?_append_found {before : Option Char} {text : List Char} {cut : Cut}
    (h : firstCut? before text = some cut) (front : List Char) :
    (front ++ cut.found).getLast? = cut.found.getLast? := by
  have hne : cut.found ≠ [] := consumes_matcher before cut.pattern (matcher_of_firstCut? h).2
  rw [List.getLast?_append, List.getLast?_eq_some_getLast hne, Option.some_or]

/-- The cuts that leave no token are blanks and comments. -/
theorem eq_blanks_of_kind? {p : Pattern} (hk : p.kind? = none) (hno : p ≠ comment) :
    p = blanks := by
  cases p with
  | blanks => rfl
  | comment => exact absurd rfl hno
  | _ => exact absurd hk (by simp [kind?])

/-- A cut that leaves a key word has found its spelling, with word boundaries on both sides. -/
theorem keyword_of_firstCut? {before : Option Char} {text : List Char} {cut : Cut} {word : Keyword}
    (h : firstCut? before text = some cut) (hk : cut.pattern.kind? = some (.keyword word)) :
    cut.pattern = keyword word ∧ Spells cut.found word ∧ before.any Text.isWord = false ∧
      Stops Text.isWord cut.rest := by
  have hp := eq_keyword_of_kind? (lexeme_of_firstCut? h hk) hk
  have hm := (matcher_of_firstCut? h).2
  rw [hp] at hm
  exact ⟨hp, (keyword_matches_iff.1 hm).2⟩

/-- If there is no comment and the first token is a key word, the text goes on with blanks and that
word, and the other tokens are cut off behind it. -/
theorem exists_keyword_of_cuts {before : Option Char} {text rest : List Char} {cuts : List Cut}
    (h : Cuts before text cuts rest) (hno : ∀ cut ∈ cuts, cut.pattern ≠ comment) {offset : Nat}
    {next : Token} {tokens : List Token} (hl : tokensOf offset cuts = next :: tokens)
    {word : Keyword} (hk : next.kind = .keyword word) :
    ∃ gap found after later stop, text = gap ++ (found ++ after) ∧
      (∀ c ∈ gap, Text.isBlank c = true) ∧ Spells found word ∧ Stops Text.isWord after ∧
      Cuts found.getLast? after later rest ∧ tokensOf stop later = tokens ∧ later ⊆ cuts := by
  induction h generalizing offset with
  | nil => exact absurd hl (by simp [tokensOf])
  | @cons before text rest cut cuts hcut hcuts ih =>
    rw [tokensOf, Cut.tokens] at hl
    rw [← found_append_rest hcut]
    cases hkind : cut.pattern.kind? with
    | none =>
      rw [hkind] at hl
      obtain ⟨gap, found, after, later, stop, hrest, hgap, hfound⟩ :=
        ih (fun other hmem => hno other (List.mem_cons_of_mem cut hmem)) hl
      have hm := (matcher_of_firstCut? hcut).2
      rw [eq_blanks_of_kind? hkind (hno cut List.mem_cons_self)] at hm
      have hblank := (some1_eq_some_iff.1 hm).2.2.1
      obtain ⟨hspells, hstop, hlater, htokens, hsub⟩ := hfound
      refine ⟨cut.found ++ gap, found, after, later, stop, by rw [hrest, List.append_assoc], ?_,
        hspells, hstop, hlater, htokens, List.subset_cons_of_subset cut hsub⟩
      intro c hc
      exact (List.mem_append.1 hc).elim (hblank c) (hgap c)
    | some kind =>
      rw [hkind, List.cons.injEq] at hl
      have hword : kind = .keyword word := by
        rw [← hk, ← hl.1]
      rw [hword] at hkind
      obtain ⟨-, hspells, -, hstop⟩ := keyword_of_firstCut? hcut hkind
      exact ⟨[], cut.found, cut.rest, cuts, _, rfl, by simp, hspells, hstop, hcuts, hl.2,
        List.subset_cons_of_subset cut (List.Subset.refl _)⟩

/-- A comment among the cuts stands in the text. -/
theorem isInfix_of_comment {before : Option Char} {text rest : List Char} {cuts : List Cut}
    (h : Cuts before text cuts rest) :
    ∀ cut ∈ cuts, cut.pattern = comment → ['-', '-'] <:+: text := by
  induction h with
  | nil => exact fun cut hmem => absurd hmem (by simp)
  | @cons before text rest first cuts hcut _ ih =>
    intro cut hmem hp
    rw [← found_append_rest hcut]
    rcases List.mem_cons.1 hmem with rfl | hmem
    · have hm := (matcher_of_firstCut? hcut).2
      rw [hp] at hm
      obtain ⟨-, body, hfound, -, -⟩ := comment_matches_iff.1 hm
      rw [hfound]
      exact ⟨[], body ++ cut.rest, rfl⟩
    · exact (ih cut hmem hp).trans (List.suffix_append first.found first.rest).isInfix

theorem scanFrom_of_no_match {front : List Char} {c : Char} {rest : List Char}
    (h : firstCut? front.getLast? (c :: rest) = none) (offset : Nat) :
    scanFrom front.getLast? offset (c :: rest) =
      .error (.unrecognized (String.ofList (unmatched front.getLast? (c :: rest))) offset) := by
  obtain ⟨back, -, hunmatched⟩ := unmatched_of_no_match h
  rw [scanFrom]
  split
  · rw [trimEnd_of_no_blank hunmatched.no_blank]
  · rename_i cut hcut
    rw [h] at hcut
    exact absurd hcut (by simp)

/-- A scan makes cuts until nothing is left, and its tokens are theirs; or it stops where nothing
matches, and reports what stands there. -/
theorem exists_cuts_of_scanFrom (front text : List Char) (offset : Nat) :
    (∃ cuts, Cuts front.getLast? text cuts [] ∧
        scanFrom front.getLast? offset text = .ok (tokensOf offset cuts)) ∨
      ∃ cuts lexeme back, Cuts front.getLast? text cuts (lexeme ++ back) ∧
        Unmatched (front ++ cutOff cuts) lexeme back ∧
        scanFrom front.getLast? offset text =
          .error (.unrecognized (String.ofList lexeme) (offset + byteLength (cutOff cuts))) := by
  -- The recursion is that of the scan, from cut to cut; each cut joins the text in front.
  cases text with
  | nil => exact .inl ⟨[], .nil, by rw [scanFrom]; rfl⟩
  | cons c rest =>
    cases hcut : firstCut? front.getLast? (c :: rest) with
    | none =>
      obtain ⟨back, htext, hunmatched⟩ := unmatched_of_no_match hcut
      refine .inr ⟨[], _, back, ?_, ?_, scanFrom_of_no_match hcut offset⟩
      · rw [← htext]
        exact .nil
      · rwa [show cutOff [] = [] from rfl, List.append_nil]
    | some cut =>
      have hshorter := length_rest_lt_of_firstCut? hcut
      rw [scanFrom_of_firstCut? hcut, ← getLast?_append_found hcut front]
      rcases exists_cuts_of_scanFrom (front ++ cut.found) cut.rest (offset + byteLength cut.found)
        with ⟨cuts, hcuts, hscan⟩ | ⟨cuts, lexeme, back, hcuts, hunmatched, hscan⟩
      · rw [getLast?_append_found hcut] at hcuts
        rw [hscan]
        exact .inl ⟨cut :: cuts, .cons hcut hcuts, rfl⟩
      · rw [getLast?_append_found hcut] at hcuts
        refine .inr ⟨cut :: cuts, lexeme, back, .cons hcut hcuts, ?_, ?_⟩
        · rwa [cutOff_cons, ← List.append_assoc]
        · rw [hscan, cutOff_cons, byteLength_append, ← Nat.add_assoc]
          rfl
termination_by text.length
decreasing_by exact hshorter

theorem exists_cuts_of_scan (statement : String) :
    (∃ cuts, Cuts none statement.toList cuts [] ∧ scan statement = .ok (tokensOf 0 cuts)) ∨
      ∃ cuts lexeme back, Cuts none statement.toList cuts (lexeme ++ back) ∧
        Unmatched (cutOff cuts) lexeme back ∧
        scan statement =
          .error (.unrecognized (String.ofList lexeme) (byteLength (cutOff cuts))) := by
  have h := exists_cuts_of_scanFrom [] statement.toList 0
  simp only [List.getLast?_nil, List.nil_append, Nat.zero_add] at h
  exact h

theorem cuts_of_scan {statement : String} {tokens : List Token}
    (h : scan statement = .ok tokens) :
    ∃ cuts, Cuts none statement.toList cuts [] ∧ tokens = tokensOf 0 cuts := by
  rcases exists_cuts_of_scan statement with ⟨cuts, hcuts, hscan⟩ | ⟨cuts, lexeme, back, -, -, hscan⟩
  · rw [h, Except.ok.injEq] at hscan
    exact ⟨cuts, hcuts, hscan⟩
  · rw [h] at hscan
    exact absurd hscan (by simp)

/-- A result is known from its value, which can be computed. -/
theorem eq_ok_of_toOption {ε α : Type} {result : Except ε α} {value : α}
    (h : result.toOption = some value) : result = .ok value := by
  cases result with
  | error fault => exact absurd h (by simp [Except.toOption])
  | ok found =>
    injection h with h
    rw [h]

theorem scan_eq_ok_of_toOption {statement : String} {tokens : List Token}
    (h : (scan statement).toOption = some tokens) : scan statement = .ok tokens :=
  eq_ok_of_toOption h

end TableScribe
