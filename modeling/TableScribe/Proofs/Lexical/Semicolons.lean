import TableScribe.Proofs.Lexical.Layout

/-!
# Scanning up to a semicolon

A semicolon ends every lexeme but texts between quotes and comments, as blanks and the end of a text
do. So a text without semicolons and comments is scanned into the same tokens when a semicolon and
anything else follow (`Cuts.scansAs_semicolon`), and blanks at its end make no difference.

1. `matcher_of_fenced`: what a pattern matches depends on the next character only, and not on
   which `Fenced` text follows.
2. `firstCut?_of_blanks`: a cut that is made in front of blanks is made in front of a semicolon.
3. Blanks and comments in front of a text leave its tokens as they are (`Gap.scansAs`).
-/

namespace TableScribe

open Matcher Pattern

/-! ## Texts that nothing goes on into -/

/-- The text is over or goes on with a blank or a semicolon. -/
def Fenced (text : List Char) : Prop :=
  ∀ c ∈ text.head?, Text.isBlank c = true ∨ c = ';'

theorem fenced_of_blanks {blanks : List Char} (h : ∀ c ∈ blanks, Text.isBlank c = true) :
    Fenced blanks :=
  fun c hc => .inl (h c (List.mem_of_mem_head? hc))

theorem fenced_semicolon (later : List Char) : Fenced (';' :: later) :=
  fun _ hc => .inr (Option.mem_some_iff.1 hc).symm

/-- A class without blanks and semicolons stops at the end of `inner` as well in front of one such
text as in front of another. -/
theorem Fenced.stops {p : Char → Bool} {inner text other : List Char} (ho : Fenced other)
    (hblank : ∀ c, Text.isBlank c = true → p c = false) (hsemicolon : p ';' = false)
    (h : Stops p (inner ++ text)) : Stops p (inner ++ other) := by
  refine stops_append_iff.2 ⟨(stops_append_iff.1 h).1, fun _ c hc => ?_⟩
  rcases ho c hc with hb | rfl
  · exact hblank c hb
  · exact hsemicolon

namespace Pattern

/-! ## Operators -/

/-- The signs of two characters are tried first. -/
theorem operatorSign_of_pair :
    ∀ sign ∈ operatorSigns, sign.length = 2 →
      ∀ rest, operatorSign (sign ++ rest) = some (sign, rest) := by
  simp only [operatorSigns, List.mem_cons, List.not_mem_nil, or_false]
  rintro sign (rfl | rfl | rfl | rfl | rfl | rfl | rfl | rfl | rfl | rfl | rfl | rfl) hlength rest
  all_goals first | rfl | exact absurd hlength (by decide)

theorem plain_of_mem_operatorSigns {sign : List Char} (h : sign ∈ operatorSigns) {c : Char}
    (hc : c ∈ sign) : isPlain c = true ∧ c ≠ ';' := by
  have hall : ∀ sign ∈ operatorSigns, sign.all (fun c => isPlain c && c != ';') = true := by decide
  have hplain := List.all_eq_true.1 (hall sign h) c hc
  rw [Bool.and_eq_true, bne_iff_ne] at hplain
  exact hplain

/-- An operator is the longest one that stands there. -/
theorem operatorSign_eq_some_iff {text found rest : List Char} :
    operatorSign text = some (found, rest) ↔
      text = found ++ rest ∧ found ∈ operatorSigns ∧
        ∀ c ∈ rest.head?, found ++ [c] ∉ operatorSigns := by
  constructor
  · intro h
    obtain ⟨rfl, hmem⟩ := mem_of_operatorSign h
    refine ⟨rfl, hmem, fun c hc hlonger => ?_⟩
    obtain ⟨tail, rfl⟩ := List.head?_eq_some_iff.1 hc
    have hlengths : ∀ sign ∈ operatorSigns, 1 ≤ sign.length ∧ sign.length ≤ 2 := by decide
    have hfound := hlengths found hmem
    have hlength := hlengths _ hlonger
    rw [List.length_append, List.length_singleton] at hlength
    have hpair := operatorSign_of_pair _ hlonger (by simp; omega) tail
    rw [List.append_assoc, List.singleton_append, h, Option.some.injEq, Prod.mk.injEq] at hpair
    exact absurd hpair.2 (List.cons_ne_self c tail)
  · rintro ⟨rfl, hmem, hlongest⟩
    by_cases hlength : found.length = 2
    · exact operatorSign_of_pair found hmem hlength rest
    -- One character is left, and the next one does not make it a longer sign.
    have hnext : ∀ c ∈ rest.head?, (c = '>' → found ≠ ['<']) ∧
        (c = '=' → found ≠ ['<'] ∧ found ≠ ['>'] ∧ found ≠ ['!']) := by
      intro c hc
      refine ⟨?_, ?_⟩
      · rintro rfl rfl
        exact hlongest '>' hc (by decide)
      · rintro rfl
        refine ⟨?_, ?_, ?_⟩ <;>
          · rintro rfl
            exact hlongest '=' hc (by decide)
    simp only [operatorSigns, List.mem_cons, List.not_mem_nil, or_false] at hmem
    cases rest with
    | nil =>
      rcases hmem with rfl | rfl | rfl | rfl | rfl | rfl | rfl | rfl | rfl | rfl | rfl | rfl <;> rfl
    | cons c tail =>
      have hc := hnext c rfl
      rcases hmem with rfl | rfl | rfl | rfl | rfl | rfl | rfl | rfl | rfl | rfl | rfl | rfl
      all_goals first
        | rfl
        | exact absurd rfl hlength
        | simp_all [operatorSign, orElse, andThen, exactly, oneOf, Matcher.optional]

/-! ## Matches in front of one such text and of another -/

section Fenced

variable {p : Pattern} {before : Option Char} {found inner text other : List Char}

/-- A match is not affected by what stands behind, as long as nothing goes on into it. -/
theorem matcher_of_fenced (hc : p ≠ comment) (hb : p ≠ blanks) (ho : Fenced other)
    (h : p.matcher before (found ++ (inner ++ text)) = some (found, inner ++ text)) :
    p.matcher before (found ++ (inner ++ other)) = some (found, inner ++ other) := by
  have hword : Stops Text.isWord (inner ++ text) → Stops Text.isWord (inner ++ other) :=
    ho.stops (fun _ => Text.not_isWord_of_isBlank) (by decide)
  have hdigit : Stops Text.isDigit (inner ++ text) → Stops Text.isDigit (inner ++ other) :=
    ho.stops (fun _ => Text.not_isDigit_of_isBlank) (by decide)
  cases p with
  | keyword word =>
    obtain ⟨-, hspells, hbefore, hstop⟩ := keyword_matches_iff.1 h
    exact keyword_matches_iff.2 ⟨rfl, hspells, hbefore, hword hstop⟩
  | notNull =>
    obtain ⟨first, gap, second, hspells, hfound, -, hbefore, hstop⟩ := notNull_matches_iff.1 h
    exact notNull_matches_iff.2 ⟨first, gap, second, hspells, hfound, rfl, hbefore, hword hstop⟩
  | real =>
    obtain ⟨-, hreal, hstop⟩ := real_matches_iff.1 h
    exact real_matches_iff.2 ⟨rfl, hreal, hdigit hstop⟩
  | integer =>
    obtain ⟨-, hinteger, hstop⟩ := integer_matches_iff.1 h
    exact integer_matches_iff.2 ⟨rfl, hinteger, hdigit hstop⟩
  | length => exact length_matches_iff.2 ⟨rfl, (length_matches_iff.1 h).2⟩
  | blanks => exact absurd rfl hb
  | comment => exact absurd rfl hc
  | single mark kind => exact exactly_eq_some_iff.2 ⟨rfl, (exactly_eq_some_iff.1 h).2⟩
  | operator =>
    obtain ⟨-, hmem, hlongest⟩ := operatorSign_eq_some_iff.1 h
    refine operatorSign_eq_some_iff.2 ⟨rfl, hmem, fun c hc => ?_⟩
    cases inner with
    | cons first inner => exact hlongest c hc
    | nil =>
      -- Neither a blank nor a semicolon is the second character of a sign.
      intro hlonger
      obtain ⟨hplain, hne⟩ := plain_of_mem_operatorSigns hlonger List.mem_concat_self
      rcases ho c hc with hblank | rfl
      · rw [(isPlain_iff.1 hplain).2.2] at hblank
        exact absurd hblank (by simp)
      · exact hne rfl
  | enclosed quote kind => exact enclosed_matches_iff.2 ⟨rfl, (enclosed_matches_iff.1 h).2⟩
  | name =>
    obtain ⟨-, hne, hall, hbefore, hstop⟩ := name_matches_iff.1 h
    exact name_matches_iff.2 ⟨rfl, hne, hall, hbefore, hword hstop⟩

end Fenced

/-- A quote begins nothing but a text between quotes. -/
theorem eq_enclosed_of_starts {quote : Char} {kind : TokenKind} (hq : enclosed quote kind ∈ table) :
    ∀ p ∈ table, p.starts quote = true → p = enclosed quote kind := by
  simp only [table, List.mem_cons, enclosed.injEq, reduceCtorEq, List.not_mem_nil, or_false,
    false_or] at hq
  rcases hq with ⟨rfl, rfl⟩ | ⟨rfl, rfl⟩ <;> decide

/-- A match that goes on past a semicolon is a comment or stands between quotes. -/
theorem eq_of_semicolon_mem {p : Pattern} {before : Option Char} {text front back rest : List Char}
    (hne : front ≠ []) (h : p.matcher before text = some (front ++ ';' :: back, rest)) :
    p = comment ∨ ∃ quote kind, p = enclosed quote kind := by
  have hmem : ';' ∈ front ++ ';' :: back := List.mem_append_right front List.mem_cons_self
  have hclass : ∀ {q : Char → Bool}, q ';' = false → (∀ c ∈ front ++ ';' :: back, q c = true) →
      False := by
    intro q hq hall
    rw [hall ';' hmem] at hq
    exact absurd hq (by simp)
  have hinteger : ∀ {whole : List Char}, ';' ∈ whole → ¬ IsInteger whole := by
    rintro _ hwhole ⟨sign, digits, rfl, hsign, -, hall⟩
    rcases List.mem_append.1 hwhole with hwhole | hwhole
    · rcases hsign with rfl | rfl
      · exact absurd hwhole List.not_mem_nil
      · exact absurd hwhole (by decide)
    · exact absurd (hall ';' hwhole) (by decide)
  cases p with
  | comment => exact .inl rfl
  | enclosed quote kind => exact .inr ⟨quote, kind, rfl⟩
  | keyword word =>
    exact (hclass (by decide) (isWord_of_spells (keyword_matches_iff.1 h).2.1)).elim
  | notNull =>
    obtain ⟨first, gap, second, hspells, hfound, -⟩ := notNull_matches_iff.1 h
    rw [hfound] at hmem
    rcases List.mem_append.1 hmem with hmem | hmem
    · exact absurd (isWord_of_spells hspells.not ';' hmem) (by decide)
    rcases List.mem_append.1 hmem with hmem | hmem
    · exact absurd (hspells.blank ';' hmem) (by decide)
    · exact absurd (isWord_of_spells hspells.null ';' hmem) (by decide)
  | real =>
    obtain ⟨-, ⟨whole, digits, hfound, hwhole, -, hall⟩, -⟩ := real_matches_iff.1 h
    rw [hfound] at hmem
    rcases List.mem_append.1 hmem with hmem | hmem
    · exact absurd hwhole (hinteger hmem)
    · rcases List.mem_cons.1 hmem with hdot | hmem
      · exact absurd hdot (by decide)
      · exact absurd (hall ';' hmem) (by decide)
  | integer => exact absurd (integer_matches_iff.1 h).2.1 (hinteger hmem)
  | length =>
    obtain ⟨-, digits, hfound, -, hall⟩ := length_matches_iff.1 h
    rw [hfound] at hmem
    simp only [List.mem_cons, List.mem_append, List.not_mem_nil, or_false] at hmem
    rcases hmem with hopen | hmem | hclose
    · exact absurd hopen (by decide)
    · exact absurd (hall ';' hmem) (by decide)
    · exact absurd hclose (by decide)
  | blanks => exact (hclass (by decide) (some1_eq_some_iff.1 h).2.2.1).elim
  | single mark kind =>
    have hfound := congrArg List.length (exactly_eq_some_iff.1 h).2
    have hlength := List.length_pos_iff.2 hne
    simp only [List.length_append, List.length_cons, List.length_nil] at hfound
    omega
  | operator =>
    exact absurd rfl (plain_of_mem_operatorSigns (operatorSign_eq_some_iff.1 h).2.1 hmem).2
  | name => exact (hclass (by decide) (name_matches_iff.1 h).2.2.1).elim

/-- Any other match ends before the semicolon. -/
theorem ends_before_semicolon {p : Pattern} {before : Option Char}
    {front later found rest : List Char}
    (hne : front ≠ []) (hc : p ≠ comment) (hquote : ∀ quote kind, p ≠ enclosed quote kind)
    (h : p.matcher before (front ++ ';' :: later) = some (found, rest)) :
    ∃ inner, front = found ++ inner ∧ rest = inner ++ ';' :: later := by
  rcases List.append_eq_append_iff.1 (splits_matcher before p h) with hwithin | ⟨back, rfl, hrest⟩
  · exact hwithin
  cases back with
  | nil => exact ⟨[], by simp, hrest.symm⟩
  | cons first back =>
    rw [List.cons_append, List.cons.injEq] at hrest
    rw [← hrest.1] at h
    rcases eq_of_semicolon_mem hne h with hcomment | ⟨quote, kind, henclosed⟩
    · exact absurd hcomment hc
    · exact absurd henclosed (hquote quote kind)

/-- A text without two minus signs in a row does not begin with a comment. -/
theorem not_comment_of_no_dashes {before : Option Char} {front back found rest : List Char}
    (hno : ¬ ['-', '-'] <:+: front) (hback : Fenced back) :
    comment.matcher before (front ++ back) ≠ some (found, rest) := by
  intro h
  obtain ⟨-, body, rfl, -⟩ := comment_matches_iff.1 h
  have hsplit : '-' :: '-' :: body ++ rest = front ++ back := splits_matcher before comment h
  have hminus : '-' ∉ back.head? := by
    intro hmem
    exact absurd (hback '-' hmem) (by decide)
  rcases front with _ | ⟨first, _ | ⟨second, others⟩⟩
  · exact hminus (by rw [← List.nil_append back, ← hsplit]; rfl)
  · exact hminus (by rw [← show _ = back from (List.cons.inj hsplit).2]; rfl)
  · obtain ⟨hfirst, htail⟩ := List.cons.inj hsplit
    refine hno ⟨[], others, ?_⟩
    rw [← hfirst, ← (List.cons.inj htail).1]
    rfl

/-- A cut that is made in front of blanks at the end of a text is also made in front of a
semicolon. -/
theorem firstCut?_of_blanks {p : Pattern} {before : Option Char} {found inner gap : List Char}
    (h : firstCut? before (found ++ (inner ++ gap)) = some ⟨p, found, inner ++ gap⟩)
    (hgap : ∀ c ∈ gap, Text.isBlank c = true) (hno : ¬ ['-', '-'] <:+: found ++ inner)
    (later : List Char) :
    firstCut? before (found ++ (inner ++ ';' :: later)) =
      some ⟨p, found, inner ++ ';' :: later⟩ := by
  obtain ⟨hp, hm, hearlier⟩ := firstCut?_eq_some_iff.1 h
  obtain ⟨c, tail, rfl⟩ := List.exists_cons_of_ne_nil (consumes_matcher before p hm)
  have hstarts : ∀ {q : Pattern} {text other rest : List Char},
      q.matcher before (c :: tail ++ text) = some (other, rest) → q.starts c = true := by
    intro q text other rest hq
    obtain ⟨first, others, htext, hfirst⟩ := starts_of_matcher hq
    rwa [(List.cons.inj htext).1]
  have hpc : p ≠ comment := by
    rintro rfl
    rw [← List.append_assoc] at hm
    exact not_comment_of_no_dashes hno (fenced_of_blanks hgap) hm
  refine firstCut?_eq_some_iff.2 ⟨hp, ?_, fun q hq => Option.eq_none_iff_forall_ne_some.2 ?_⟩
  · by_cases hb : p = blanks
    · subst hb
      have hsome : some1 Text.isBlank (c :: tail ++ (inner ++ gap)) =
          some (c :: tail, inner ++ gap) := hm
      obtain ⟨-, hne, hall, hstop⟩ := some1_eq_some_iff.1 hsome
      have hsemicolon : Stops Text.isBlank (inner ++ ';' :: later) :=
        stops_append_iff.2 ⟨(stops_append_iff.1 hstop).1, fun _ => stops_cons.2 (by decide)⟩
      exact some1_eq_some_iff.2 ⟨rfl, hne, hall, hsemicolon⟩
    · exact matcher_of_fenced hpc hb (fenced_semicolon later) hm
  · -- An earlier pattern would match within the text, and so in front of the blanks as well.
    rintro ⟨other, rest⟩ hother
    obtain ⟨hqtable, hqp⟩ := mem_table_of_earlier hq
    have hqb : q ≠ blanks := by
      rintro rfl
      have hblank := not_isBlank_of_starts hp (hstarts hm) hqp.symm
      rw [show Text.isBlank c = true from hstarts hother] at hblank
      exact absurd hblank (by simp)
    have hqc : q ≠ comment := by
      rintro rfl
      rw [← List.append_assoc] at hother
      exact not_comment_of_no_dashes hno (fenced_semicolon later) hother
    have hquote : ∀ quote kind, q ≠ enclosed quote kind := by
      rintro quote kind rfl
      have hquote := hstarts hm
      rw [show c = quote from eq_of_beq (hstarts hother)] at hquote
      exact hqp (eq_enclosed_of_starts hqtable p hp hquote).symm
    rw [← List.append_assoc] at hother
    have hne : c :: tail ++ inner ≠ [] := List.cons_ne_nil c _
    obtain ⟨back, hfront, rfl⟩ := ends_before_semicolon hne hqc hquote hother
    rw [hfront, List.append_assoc] at hother
    have hearly := matcher_of_fenced hqc hqb (fenced_of_blanks hgap) hother
    rw [← List.append_assoc, ← hfront, List.append_assoc, hearlier q hq] at hearly
    exact absurd hearly (by simp)

/-! ## What stands before a text -/

/-- Of what stands before a text, only whether it is a word character matters. -/
theorem matcher_congr {before other : Option Char}
    (h : before.any Text.isWord = other.any Text.isWord) (p : Pattern) :
    p.matcher before = p.matcher other := by
  have hwords : ∀ m, wholeWords m before = wholeWords m other := by
    intro m
    funext text
    unfold wholeWords Text.atBoundary
    rw [h]
  cases p with
  | keyword word => exact hwords _
  | notNull => exact hwords _
  | name => exact hwords _
  | _ => rfl

theorem firstCut?_nil (before : Option Char) : firstCut? before [] = none := by
  refine Option.eq_none_iff_forall_ne_some.2 fun cut hcut => ?_
  exact absurd (length_rest_lt_of_firstCut? hcut) (Nat.not_lt_zero _)

theorem firstCut?_congr {before other : Option Char}
    (h : before.any Text.isWord = other.any Text.isWord) (text : List Char) :
    firstCut? before text = firstCut? other text := by
  unfold firstCut? cut?
  simp only [matcher_congr h]

/-- Where there is a blank, all blanks that follow are cut off, whatever stands before. -/
theorem firstCut?_blank {c : Char} (hc : Text.isBlank c = true) (before : Option Char)
    (rest : List Char) :
    firstCut? before (c :: rest) =
      some ⟨blanks, c :: rest.takeWhile Text.isBlank, rest.dropWhile Text.isBlank⟩ := by
  have hm : some1 Text.isBlank (c :: rest) = some (_, _) := if_pos hc
  refine firstCut?_of_matcher (by decide) hm fun q hq hstarts => ?_
  obtain ⟨hqtable, hqb⟩ := mem_table_of_earlier hq
  rw [not_isBlank_of_starts hqtable hstarts hqb] at hc
  exact absurd hc (by simp)

theorem firstCut?_comment {before : Option Char} {body rest : List Char} (hbody : '\n' ∉ body)
    (hrest : ∀ c ∈ rest.head?, c = '\n') :
    firstCut? before ('-' :: '-' :: body ++ rest) = some ⟨comment, '-' :: '-' :: body, rest⟩ := by
  have hm : comment.matcher before ('-' :: '-' :: body ++ rest) = some (_, rest) :=
    comment_matches_iff.2 ⟨rfl, body, rfl, hbody, hrest⟩
  have hnumbers : ∀ q ∈ earlier comment, q.starts '-' = true → q = real ∨ q = integer := by decide
  have hstop : Stops Text.isDigit ('-' :: body ++ rest) := stops_cons.2 (by decide)
  refine firstCut?_of_matcher (by decide) hm fun q hq hstarts => ?_
  refine Option.eq_none_iff_forall_ne_some.2 ?_
  rintro ⟨found, tail⟩ hother
  rcases hnumbers q hq hstarts with rfl | rfl
  · obtain ⟨htext, ⟨whole, digits, rfl, hwhole, -⟩, -⟩ := real_matches_iff.1 hother
    rw [List.append_assoc] at htext
    exact not_stops_of_minus hwhole htext hstop
  · obtain ⟨htext, hwhole, -⟩ := integer_matches_iff.1 hother
    exact not_stops_of_minus hwhole htext hstop

theorem firstCut?_semicolon (before : Option Char) (rest : List Char) :
    firstCut? before (';' :: rest) = some ⟨single ';' .semicolon, [';'], rest⟩ := by
  have hm : (single ';' .semicolon).matcher before (';' :: rest) = some ([';'], rest) :=
    exactly_eq_some_iff.2 ⟨rfl, rfl⟩
  have hnone : ∀ q ∈ earlier (single ';' .semicolon), q.starts ';' = false := by decide
  refine firstCut?_of_matcher (by decide) hm fun q hq hstarts => ?_
  rw [hnone q hq] at hstarts
  exact absurd hstarts (by simp)

end Pattern

/-! ## Blanks and comments in front of a text -/

section Scans

variable {before : Option Char} {text rest : List Char} {contents : List (TokenKind × String)}

theorem ScansAs.congr {other : Option Char} (h : ScansAs before text contents)
    (hcut : firstCut? before text = firstCut? other text) : ScansAs other text contents := by
  intro offset
  obtain ⟨tokens, hscan, hcontents⟩ := h offset
  refine ⟨tokens, ?_, hcontents⟩
  cases text with
  | nil =>
    rw [← hscan, scanFrom, scanFrom]
  | cons c rest =>
    cases hc : firstCut? before (c :: rest) with
    | some cut =>
      rw [scanFrom_of_firstCut? hc] at hscan
      rw [scanFrom_of_firstCut? (hcut ▸ hc), hscan]
    | none =>
      rw [scanFrom] at hscan
      split at hscan
      · exact absurd hscan (by simp)
      · rename_i cut hcut
        rw [hc] at hcut
        exact absurd hcut (by simp)

theorem scanFrom_blank {c : Char} (hc : Text.isBlank c = true) (before : Option Char)
    (offset : Nat) (rest : List Char) :
    scanFrom before offset (c :: rest) =
      scanFrom (c :: rest.takeWhile Text.isBlank).getLast?
        (offset + byteLength (c :: rest.takeWhile Text.isBlank)) (rest.dropWhile Text.isBlank) := by
  rw [scanFrom_of_firstCut? (firstCut?_blank hc before rest)]
  exact congrFun Except.map_id _

/-- A blank in front of a text leaves its tokens as they are. -/
theorem ScansAs.blank {c : Char} (hc : Text.isBlank c = true)
    (hb : before.any Text.isWord = false) (h : ScansAs before text contents)
    (other : Option Char) : ScansAs other (c :: text) contents := by
  intro offset
  rw [scanFrom_blank hc]
  have hword : (some c).any Text.isWord = false := Text.not_isWord_of_isBlank hc
  cases text with
  | nil => exact h.congr (firstCut?_congr (hb.trans hword.symm) _) _
  | cons d text =>
    by_cases hd : Text.isBlank d = true
    · -- The blank joins those that the text begins with.
      obtain ⟨tokens, hscan, hcontents⟩ := h (offset + c.utf8Size)
      rw [scanFrom_blank hd] at hscan
      rw [List.takeWhile_cons_of_pos hd, List.dropWhile_cons_of_pos hd, byteLength_cons,
        ← Nat.add_assoc, List.getLast?_cons_cons]
      exact ⟨tokens, hscan, hcontents⟩
    · rw [List.takeWhile_cons_of_neg hd, List.dropWhile_cons_of_neg hd]
      exact h.congr (firstCut?_congr (hb.trans hword.symm) _) _

/-- It does not matter what a text follows that is over or begins with a blank. -/
theorem ScansAs.of_blank (hblank : ∀ c ∈ text.head?, Text.isBlank c = true)
    (h : ScansAs before text contents) (other : Option Char) : ScansAs other text contents := by
  refine h.congr ?_
  cases text with
  | nil => rw [firstCut?_nil, firstCut?_nil]
  | cons c rest => rw [firstCut?_blank (hblank c rfl), firstCut?_blank (hblank c rfl)]

/-- Blanks and comments in front of a text leave its tokens as they are. -/
theorem Gap.scansAs {gap : List Char} (hg : Gap gap rest)
    (h : ∀ before, before.any Text.isWord = false → ScansAs before rest contents)
    (hb : before.any Text.isWord = false) : ScansAs before (gap ++ rest) contents := by
  induction hg generalizing before with
  | nil => exact h before hb
  | blank hc _ ih => exact ScansAs.blank hc hb (ih h hb) before
  | @comment body gap rest hbody hstop _ ih =>
    intro offset
    have hline : ∀ c ∈ (gap ++ rest).head?, Text.isBlank c = true := by
      intro c hc
      rw [hstop c hc]
      decide
    have hcut : firstCut? before ('-' :: '-' :: body ++ (gap ++ rest)) = some _ :=
      firstCut?_comment hbody hstop
    obtain ⟨tokens, hscan, hcontents⟩ :=
      (ih h hb).of_blank hline ('-' :: '-' :: body).getLast?
        (offset + byteLength ('-' :: '-' :: body))
    refine ⟨tokens, ?_, hcontents⟩
    show scanFrom before offset ('-' :: '-' :: (body ++ gap ++ rest)) = _
    rw [List.append_assoc]
    show scanFrom before offset ('-' :: '-' :: body ++ (gap ++ rest)) = _
    rw [scanFrom_of_firstCut? hcut, hscan]
    rfl

end Scans

/-! ## Cuts in front of a semicolon -/

theorem not_isBlank_of_all {p : Char → Bool} {text : List Char}
    (hp : ∀ c, Text.isBlank c = true → p c = false) (hall : ∀ c ∈ text, p c = true) :
    ∀ c ∈ text.getLast?, Text.isBlank c = false := by
  intro c hc
  rw [← Bool.not_eq_true]
  intro hblank
  have hpc := hall c (List.mem_of_mem_getLast? hc)
  rw [hp c hblank] at hpc
  exact absurd hpc (by simp)

/-- A lexeme does not end with a blank. -/
theorem Pattern.Lexeme.not_isBlank_of_getLast? {p : Pattern} {found : List Char}
    (h : Lexeme p found) : ∀ c ∈ found.getLast?, Text.isBlank c = false := by
  have hmark : ∀ {front : List Char} {mark : Char}, Text.isBlank mark = false →
      ∀ c ∈ (front ++ [mark]).getLast?, Text.isBlank c = false := by
    intro front mark hmark c hc
    rw [List.getLast?_concat, Option.mem_some_iff] at hc
    rwa [← hc]
  have hend : ∀ {front back : List Char}, back ≠ [] →
      (∀ c ∈ back.getLast?, Text.isBlank c = false) →
      ∀ c ∈ (front ++ back).getLast?, Text.isBlank c = false := by
    intro front back hne hback c hc
    rw [List.getLast?_append, List.getLast?_eq_some_getLast hne, Option.some_or,
      ← List.getLast?_eq_some_getLast hne] at hc
    exact hback c hc
  have hword := @Text.not_isWord_of_isBlank
  have hdigit := @Text.not_isDigit_of_isBlank
  have hinteger : ∀ {whole : List Char}, IsInteger whole →
      ∀ c ∈ whole.getLast?, Text.isBlank c = false := by
    rintro _ ⟨sign, digits, rfl, -, hne, hall⟩
    exact hend hne (not_isBlank_of_all (fun _ => hdigit) hall)
  cases h with
  | keyword h => exact not_isBlank_of_all (fun _ => hword) (isWord_of_spells h)
  | notNull h =>
    have hnull := not_isBlank_of_all (fun _ => hword) (isWord_of_spells h.null)
    rw [← List.append_assoc]
    exact hend (ne_nil_of_spells h.null) hnull
  | real h =>
    obtain ⟨whole, digits, rfl, -, hne, hall⟩ := h
    rw [List.append_cons]
    exact hend hne (not_isBlank_of_all (fun _ => hdigit) hall)
  | integer h => exact hinteger h
  | length hne hall =>
    rw [← List.cons_append]
    exact hmark (by decide)
  | single hp => exact @hmark [] _ (isPlain_iff.1 (isPlain_of_single hp)).2.2
  | operator h =>
    intro c hc
    exact (isPlain_iff.1 (plain_of_mem_operatorSigns h (List.mem_of_getLast? hc)).1).2.2
  | enclosed hp h =>
    rw [← List.cons_append]
    exact hmark (isPlain_iff.1 (isPlain_of_enclosed hp)).2.2
  | name h => exact not_isBlank_of_all (fun _ => hword) h.isWord

/-- The kinds and lexemes of the tokens that the cuts leave. -/
def contentsOf : List Cut → List (TokenKind × String)
  | [] => []
  | cut :: cuts =>
    match cut.pattern.kind? with
    | none => contentsOf cuts
    | some kind => (kind, String.ofList cut.found) :: contentsOf cuts

theorem contents_tokensOf (offset : Nat) (cuts : List Cut) :
    (tokensOf offset cuts).map Token.content = contentsOf cuts := by
  induction cuts generalizing offset with
  | nil => rfl
  | cons cut cuts ih =>
    rw [tokensOf, contentsOf, Cut.tokens]
    cases cut.pattern.kind? with
    | none => exact ih _
    | some kind => exact congrArg _ (ih _)

/-- A cut leaves its token, if it is of a kind, and then come the tokens of the rest. -/
theorem ScansAs.of_cut {before : Option Char} {text : List Char} {cut : Cut}
    {cuts : List Cut} {contents : List (TokenKind × String)} (h : firstCut? before text = some cut)
    (hrest : ScansAs cut.found.getLast? cut.rest (contentsOf cuts ++ contents)) :
    ScansAs before text (contentsOf (cut :: cuts) ++ contents) := by
  intro offset
  obtain ⟨tokens, hscan, hcontents⟩ := hrest (offset + byteLength cut.found)
  refine ⟨cut.tokens offset tokens, ?_, ?_⟩
  · rw [scanFrom_of_firstCut? h, hscan]
    rfl
  · rw [contentsOf, Cut.tokens]
    cases cut.pattern.kind? with
    | none => exact hcontents
    | some kind => exact congrArg _ hcontents

/-- A cut ends before the blanks at the end of a text that is not all blanks. -/
theorem found_within {before : Option Char} {text front gap : List Char} {cut : Cut}
    (hcut : firstCut? before text = some cut) (htext : text = front ++ gap) (hfront : front ≠ [])
    (hgap : ∀ c ∈ gap, Text.isBlank c = true)
    (hlast : gap = [] ∨ ∀ c ∈ front.getLast?, Text.isBlank c = false)
    (hno : ¬ ['-', '-'] <:+: front) :
    ∃ inner, front = cut.found ++ inner ∧ cut.rest = inner ++ gap := by
  have hm := (matcher_of_firstCut? hcut).2
  have hsplit : cut.found ++ cut.rest = front ++ gap := (found_append_rest hcut).trans htext
  rcases List.append_eq_append_iff.1 hsplit with hinner | ⟨back, hfound, hback⟩
  · exact hinner
  by_cases hnil : back = []
  · subst hnil
    exact ⟨[], by rw [hfound]; simp, hback.symm⟩
  exfalso
  have hpc : cut.pattern ≠ comment := by
    intro hc
    rw [hc, htext] at hm
    exact not_comment_of_no_dashes hno (fenced_of_blanks hgap) hm
  have hne : gap ≠ [] := by
    rw [hback]
    exact List.append_ne_nil_of_left_ne_nil hnil _
  cases hk : cut.pattern.kind? with
  | none =>
    rw [eq_blanks_of_kind? hk hpc] at hm
    have hall := (some1_eq_some_iff.1 hm).2.2.1
    have hmem : front.getLast hfront ∈ cut.found := by
      rw [hfound]
      exact List.mem_append_left _ (List.getLast_mem hfront)
    have hblank := hlast.resolve_left hne _ (List.getLast?_eq_some_getLast hfront)
    rw [hall _ hmem] at hblank
    exact absurd hblank (by simp)
  | some kind =>
    have hends := (lexeme_of_firstCut? hcut hk).not_isBlank_of_getLast? (back.getLast hnil) (by
      rw [hfound, List.getLast?_append, List.getLast?_eq_some_getLast hnil, Option.some_or]
      exact Option.mem_some_self _)
    have hmem : back.getLast hnil ∈ gap := by
      rw [hback]
      exact List.mem_append_left _ (List.getLast_mem hnil)
    rw [hgap _ hmem] at hends
    exact absurd hends (by simp)

/-- A text without comments that can be scanned is scanned into the same tokens when its blanks at
the end give way to a semicolon and to anything behind that. -/
theorem Cuts.scansAs_semicolon {before : Option Char} {text rest : List Char} {cuts : List Cut}
    (h : Cuts before text cuts rest) (hrest : rest = []) {front gap later : List Char}
    {contents : List (TokenKind × String)} (htext : text = front ++ gap)
    (hgap : ∀ c ∈ gap, Text.isBlank c = true)
    (hlast : gap = [] ∨ ∀ c ∈ front.getLast?, Text.isBlank c = false)
    (hno : ¬ ['-', '-'] <:+: front) (hlater : ScansAs (some ';') later contents) :
    ScansAs before (front ++ ';' :: later)
      (contentsOf cuts ++ (.semicolon, ";") :: contents) := by
  induction h generalizing front gap with
  | @nil before =>
    rw [hrest] at htext
    obtain ⟨rfl, -⟩ := List.append_eq_nil_iff.1 htext.symm
    have hcut : firstCut? before ([';'] ++ later) = some _ := firstCut?_semicolon before later
    exact ScansAs.cut hcut rfl hlater
  | @cons before text rest cut cuts hcut _ ih =>
    obtain ⟨hp, hm⟩ := matcher_of_firstCut? hcut
    by_cases hfront : front = []
    · subst hfront
      rw [List.nil_append] at htext
      have hb : cut.pattern = blanks := by
        obtain ⟨c, tail, hc, hstarts⟩ := starts_of_matcher hm
        refine Classical.byContradiction fun hb => ?_
        have hblank := hgap c (by rw [← htext, hc]; exact List.mem_cons_self)
        rw [not_isBlank_of_starts hp hstarts hb] at hblank
        exact absurd hblank (by simp)
      have hkept : ∀ c ∈ cut.rest, Text.isBlank c = true := by
        intro c hc
        refine hgap c ?_
        rw [← htext, ← found_append_rest hcut]
        exact List.mem_append_right _ hc
      have hscans := ih hrest (List.nil_append _).symm hkept (.inr (by simp)) hno
      rw [List.nil_append] at hscans ⊢
      rw [contentsOf, hb]
      exact hscans.congr (by rw [firstCut?_semicolon, firstCut?_semicolon])
    · obtain ⟨inner, rfl, hinner⟩ := found_within hcut htext hfront hgap hlast hno
      have hcut' : firstCut? before (cut.found ++ (inner ++ ';' :: later)) =
          some ⟨cut.pattern, cut.found, inner ++ ';' :: later⟩ := by
        refine firstCut?_of_blanks ?_ hgap hno later
        rw [← hinner, found_append_rest hcut]
        exact hcut
      have hends : gap = [] ∨ ∀ c ∈ inner.getLast?, Text.isBlank c = false := by
        refine hlast.imp_right fun hlast c hc => hlast c ?_
        rw [List.getLast?_append, hc, Option.some_or]
        exact Option.mem_some_self c
      have hdashes : ¬ ['-', '-'] <:+: inner :=
        fun hdashes => hno (hdashes.trans (List.suffix_append _ _).isInfix)
      have hscans := ScansAs.of_cut hcut' (ih hrest hinner hgap hends hdashes)
      rw [List.append_assoc]
      exact hscans

/-! ## Cuts behind blanks -/

theorem Cuts.congr {before other : Option Char} {text rest : List Char} {cuts : List Cut}
    (h : Cuts before text cuts rest) (hb : before.any Text.isWord = other.any Text.isWord) :
    Cuts other text cuts rest := by
  cases h with
  | nil => exact .nil
  | cons hcut ht => exact .cons (firstCut?_congr hb _ ▸ hcut) ht

/-- Without its blanks at the front a text is cut into the same tokens. -/
theorem Cuts.exists_trimStart {text : List Char} {cuts : List Cut} (h : Cuts none text cuts []) :
    ∃ later, Cuts none (Text.trimStart text) later [] ∧ contentsOf later = contentsOf cuts := by
  cases text with
  | nil => exact ⟨cuts, h, rfl⟩
  | cons c rest =>
    by_cases hc : Text.isBlank c = true
    · cases h with
      | @cons _ _ _ cut cuts hcut ht =>
        rw [firstCut?_blank hc, Option.some.injEq] at hcut
        subst hcut
        have hstart : Text.trimStart (c :: rest) = rest.dropWhile Text.isBlank :=
          List.dropWhile_cons_of_pos hc
        have hword : (c :: rest.takeWhile Text.isBlank).getLast?.any Text.isWord = false := by
          have hblank : ∀ b ∈ c :: rest.takeWhile Text.isBlank, Text.isBlank b = true :=
            List.forall_mem_cons.2 ⟨hc, List.all_eq_true.1 List.all_takeWhile⟩
          rw [List.getLast?_eq_some_getLast (List.cons_ne_nil c _)]
          exact Text.not_isWord_of_isBlank (hblank _ (List.getLast_mem _))
        rw [hstart]
        exact ⟨cuts, ht.congr hword, rfl⟩
    · rw [show Text.trimStart (c :: rest) = c :: rest from List.dropWhile_cons_of_neg hc]
      exact ⟨cuts, h, rfl⟩

/-- A text without semicolons leaves no semicolon among its tokens. -/
theorem Cuts.ne_semicolon {before : Option Char} {text rest : List Char} {cuts : List Cut}
    (h : Cuts before text cuts rest) (hno : ';' ∉ text) :
    ∀ content ∈ contentsOf cuts, content.1 ≠ .semicolon := by
  have hpattern : ∀ p ∈ table, p.kind? = some .semicolon → p = single ';' .semicolon := by decide
  induction h with
  | nil => exact fun content hmem => absurd hmem List.not_mem_nil
  | @cons before text rest cut cuts hcut _ ih =>
    obtain ⟨hp, hm⟩ := matcher_of_firstCut? hcut
    rw [← found_append_rest hcut, List.mem_append, not_or] at hno
    have hlater := ih hno.2
    rw [contentsOf]
    cases hk : cut.pattern.kind? with
    | none => exact hlater
    | some kind =>
      refine List.forall_mem_cons.2 ⟨?_, hlater⟩
      rintro rfl
      rw [hpattern _ hp hk] at hm
      refine hno.1 ?_
      rw [(exactly_eq_some_iff.1 hm).2]
      exact List.mem_cons_self

end TableScribe
