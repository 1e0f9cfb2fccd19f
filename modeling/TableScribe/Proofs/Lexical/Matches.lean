import TableScribe.Lexical.Pattern
import TableScribe.Proofs.Lexical.Characters

/-!
# What the matchers match

For each matcher, which beginnings of a text it takes: `m text = some (found, rest)` is brought into
the form `text = found ++ rest` with conditions on `found` and on how `rest` begins. Repetition
takes all that it can, so `rest` has to stop it (`Stops`).

1. Repetitions and spelled words (`some1_eq_some_iff`, `foldedWord_eq_some_iff`).
2. Key words, names and `NOT NULL`, which stand between the edges of words
   (`keyword_matches_iff`, `name_matches_iff`, `notNull_matches_iff`).
3. Numbers (`integer_matches_iff`, `real_matches_iff`), texts between delimiters
   (`length_matches_iff`, `enclosed_matches_iff`), comments (`comment_matches_iff`), and operators
   (`mem_of_operatorSign`).
-/

namespace TableScribe

namespace Matcher

/-- The text does not begin with a character of the class. -/
def Stops (p : Char → Bool) (text : List Char) : Prop :=
  ∀ c ∈ text.head?, p c = false

theorem Stops.nil (p : Char → Bool) : Stops p [] :=
  fun _ h => absurd h (by simp)

theorem stops_cons {p : Char → Bool} {c : Char} {rest : List Char} :
    Stops p (c :: rest) ↔ p c = false := by
  unfold Stops
  simp

/-- How a text begins is decided by its front, if that is not empty. -/
theorem stops_append_iff {p : Char → Bool} {front back : List Char} :
    Stops p (front ++ back) ↔ Stops p front ∧ (front = [] → Stops p back) := by
  cases front with
  | nil => simp [Stops.nil]
  | cons c rest => simp [stops_cons]

theorem Stops.any {p : Char → Bool} {text : List Char} :
    Stops p text ↔ text.head?.any p = false := by
  cases text with
  | nil => simp [Stops]
  | cons c rest => simp [stops_cons]

/-! ## Repetition -/

/-- A text has one longest beginning of characters of the class. -/
theorem takeWhile_dropWhile_eq_iff {p : Char → Bool} {text found rest : List Char} :
    text.takeWhile p = found ∧ text.dropWhile p = rest ↔
      text = found ++ rest ∧ (∀ c ∈ found, p c = true) ∧ Stops p rest := by
  constructor
  · rintro ⟨rfl, rfl⟩
    refine ⟨List.takeWhile_append_dropWhile.symm, List.all_eq_true.1 List.all_takeWhile, ?_⟩
    intro c hc
    have hstop := List.head?_dropWhile_not p text
    rw [Option.mem_def.1 hc] at hstop
    simpa using hstop
  · rintro ⟨rfl, hall, hstop⟩
    have hrest : rest.takeWhile p = [] ∧ rest.dropWhile p = rest := by
      cases rest with
      | nil => exact ⟨rfl, rfl⟩
      | cons c rest =>
        rw [stops_cons] at hstop
        simp [hstop]
    rw [List.takeWhile_append_of_pos hall, List.dropWhile_append_of_pos hall, hrest.1, hrest.2,
      List.append_nil]
    exact ⟨rfl, rfl⟩

theorem many_eq_some_iff {p : Char → Bool} {text found rest : List Char} :
    many p text = some (found, rest) ↔
      text = found ++ rest ∧ (∀ c ∈ found, p c = true) ∧ Stops p rest := by
  unfold many
  rw [Option.some.injEq, Prod.mk.injEq]
  exact takeWhile_dropWhile_eq_iff

theorem some1_eq_some_iff {p : Char → Bool} {text found rest : List Char} :
    some1 p text = some (found, rest) ↔
      text = found ++ rest ∧ found ≠ [] ∧ (∀ c ∈ found, p c = true) ∧ Stops p rest := by
  constructor
  · intro h
    have hne := consumes_some1 p h
    cases text with
    | nil => exact absurd h (by simp [some1])
    | cons c text =>
      rw [some1] at h
      split at h
      · rename_i hc
        rw [Option.some.injEq, Prod.mk.injEq] at h
        obtain ⟨htext, hall, hstop⟩ := takeWhile_dropWhile_eq_iff.1 (show
          (c :: text).takeWhile p = found ∧ (c :: text).dropWhile p = rest by simpa [hc] using h)
        exact ⟨htext, hne, hall, hstop⟩
      · exact absurd h (by simp)
  · rintro ⟨rfl, hne, hall, hstop⟩
    obtain ⟨c, found, rfl⟩ := List.exists_cons_of_ne_nil hne
    have hc : p c = true := hall c (by simp)
    obtain ⟨h1, h2⟩ := takeWhile_dropWhile_eq_iff.2 ⟨rfl, hall, hstop⟩
    rw [List.cons_append] at h1 h2 ⊢
    rw [some1, if_pos hc]
    rw [List.takeWhile_cons_of_pos hc] at h1
    rw [List.dropWhile_cons_of_pos hc] at h2
    rw [h1, h2]

/-- Two ways to cut a text after characters of the class are the same if both stop there. -/
theorem eq_of_stops {p : Char → Bool} {found rest other tail : List Char}
    (h : found ++ rest = other ++ tail) (hf : ∀ c ∈ found, p c = true) (hr : Stops p rest)
    (ho : ∀ c ∈ other, p c = true) (ht : Stops p tail) : found = other ∧ rest = tail := by
  obtain ⟨h1, h2⟩ := takeWhile_dropWhile_eq_iff.2 ⟨rfl, hf, hr⟩
  obtain ⟨h3, h4⟩ := takeWhile_dropWhile_eq_iff.2 ⟨h, ho, ht⟩
  exact ⟨h1.symm.trans h3, h2.symm.trans h4⟩

/-! ## Spelled words -/

theorem foldedWord_eq_some_iff {word text found rest : List Char} :
    foldedWord word text = some (found, rest) ↔
      text = found ++ rest ∧ found.map Text.foldLetter = word := by
  induction word generalizing text found with
  | nil =>
    rw [foldedWord, Option.some.injEq, Prod.mk.injEq, List.map_eq_nil_iff]
    constructor
    · rintro ⟨rfl, rfl⟩
      exact ⟨rfl, rfl⟩
    · rintro ⟨rfl, rfl⟩
      exact ⟨rfl, rfl⟩
  | cons letter word ih =>
    cases text with
    | nil =>
      simp only [foldedWord]
      constructor
      · intro h
        exact absurd h (by simp)
      · rintro ⟨htext, hfound⟩
        rw [(List.append_eq_nil_iff.1 htext.symm).1] at hfound
        exact absurd hfound (by simp)
    | cons c text =>
      rw [foldedWord]
      constructor
      · intro h
        split at h
        · rename_i hc
          obtain ⟨⟨more, tail⟩, hm, heq⟩ := Option.map_eq_some_iff.1 h
          rw [Prod.mk.injEq] at heq
          obtain ⟨rfl, rfl⟩ := heq
          obtain ⟨rfl, rfl⟩ := ih.1 hm
          exact ⟨rfl, by rw [List.map_cons, hc]⟩
        · exact absurd h (by simp)
      · rintro ⟨htext, hfound⟩
        cases found with
        | nil => exact absurd hfound (by simp)
        | cons first found =>
          rw [List.cons_append, List.cons.injEq] at htext
          rw [List.map_cons, List.cons.injEq] at hfound
          obtain ⟨rfl, rfl⟩ := htext
          rw [if_pos hfound.1, ih.2 ⟨rfl, hfound.2⟩]
          rfl

/-! ## Single characters -/

theorem exactly_eq_some_iff {c : Char} {text found rest : List Char} :
    exactly c text = some (found, rest) ↔ text = found ++ rest ∧ found = [c] := by
  unfold exactly
  cases text with
  | nil =>
    simp only [oneOf]
    constructor
    · intro h
      exact absurd h (by simp)
    · rintro ⟨htext, rfl⟩
      exact absurd htext (by simp)
  | cons first text =>
    rw [oneOf]
    constructor
    · intro h
      split at h
      · rename_i hc
        rw [Option.some.injEq, Prod.mk.injEq] at h
        obtain ⟨rfl, rfl⟩ := h
        exact ⟨rfl, by rw [eq_of_beq hc]⟩
      · exact absurd h (by simp)
    · rintro ⟨htext, rfl⟩
      rw [List.singleton_append, List.cons.injEq] at htext
      obtain ⟨rfl, rfl⟩ := htext
      rw [if_pos (beq_self_eq_true first)]

theorem oneOf_eq_some {p : Char → Bool} {text found rest : List Char}
    (h : oneOf p text = some (found, rest)) :
    ∃ c, text = c :: rest ∧ found = [c] ∧ p c = true := by
  cases text with
  | nil => exact absurd h (by simp [oneOf])
  | cons c tail =>
    rw [oneOf] at h
    split at h
    · rename_i hc
      rw [Option.some.injEq, Prod.mk.injEq] at h
      obtain ⟨rfl, rfl⟩ := h
      exact ⟨c, rfl, rfl, hc⟩
    · exact absurd h (by simp)

theorem exactly_cons {c : Char} {text found rest : List Char}
    (h : exactly c text = some (found, rest)) : ∃ tail, text = c :: tail := by
  obtain ⟨rfl, rfl⟩ := exactly_eq_some_iff.1 h
  exact ⟨rest, rfl⟩

/-! ## Whole words -/

/-- A match that begins and ends with word characters is one of whole words if no word character
stands directly before or after it. -/
theorem wholeWords_eq_some_iff {m : Matcher} {before : Option Char} {text found rest : List Char}
    (hs : Splits m) (hfirst : found.head?.any Text.isWord = true)
    (hlast : found.getLast?.any Text.isWord = true) :
    wholeWords m before text = some (found, rest) ↔
      m text = some (found, rest) ∧ before.any Text.isWord = false ∧ Stops Text.isWord rest := by
  rw [wholeWords_eq_some, Stops.any]
  unfold Text.atBoundary
  rw [hlast]
  constructor
  · rintro ⟨hb, hm, ha⟩
    have hhead : text.head?.any Text.isWord = true := by
      rw [← hs hm]
      cases found with
      | nil => exact absurd hfirst (by simp)
      | cons c found => exact hfirst
    rw [hhead] at hb
    exact ⟨hm, by simpa using hb, by simpa using ha⟩
  · rintro ⟨hm, hb, ha⟩
    have hhead : text.head?.any Text.isWord = true := by
      rw [← hs hm]
      cases found with
      | nil => exact absurd hfirst (by simp)
      | cons c found => exact hfirst
    rw [hhead, hb, ha]
    exact ⟨rfl, hm, rfl⟩

end Matcher

open Matcher

namespace Pattern

theorem head_last_of_all {p : Char → Bool} {found : List Char} (hne : found ≠ [])
    (h : ∀ c ∈ found, p c = true) :
    found.head?.any p = true ∧ found.getLast?.any p = true := by
  rw [List.head?_eq_some_head hne, List.getLast?_eq_some_getLast hne]
  exact ⟨h _ (List.head_mem hne), h _ (List.getLast_mem hne)⟩

/-- The word that a text begins with is the key word, in some letter case. -/
def Spells (found : List Char) (word : Keyword) : Prop :=
  found.map Text.foldLetter = word.spelling.toList

theorem isSpelling_of_spells {found : List Char} {word : Keyword} (h : Spells found word) :
    ∀ c ∈ found, Text.isSpelling (Text.foldLetter c) = true := by
  intro c hc
  have hmem : Text.foldLetter c ∈ word.spelling.toList := by
    rw [← h]
    exact List.mem_map_of_mem hc
  exact Text.isSpelling_of_mem hmem

theorem isWord_of_spells {found : List Char} {word : Keyword} (h : Spells found word) :
    ∀ c ∈ found, Text.isWord c = true :=
  fun c hc => Text.isWord_of_foldLetter (isSpelling_of_spells h c hc)

theorem ne_nil_of_spells {found : List Char} {word : Keyword} (h : Spells found word) :
    found ≠ [] := by
  intro hnil
  rw [hnil] at h
  exact spelling_ne_nil word h.symm

theorem keyword_matches_iff {word : Keyword} {before : Option Char}
    {text found rest : List Char} :
    (keyword word).matcher before text = some (found, rest) ↔
      text = found ++ rest ∧ Spells found word ∧ before.any Text.isWord = false ∧
        Stops Text.isWord rest := by
  show wholeWords (foldedWord word.spelling.toList) before text = _ ↔ _
  constructor
  · intro h
    have hm := (wholeWords_eq_some.1 h).2.1
    obtain ⟨htext, hspells⟩ := foldedWord_eq_some_iff.1 hm
    obtain ⟨hfirst, hlast⟩ :=
      head_last_of_all (ne_nil_of_spells hspells) (isWord_of_spells hspells)
    obtain ⟨-, hb, hstop⟩ :=
      (wholeWords_eq_some_iff (splits_foldedWord _) hfirst hlast).1 h
    exact ⟨htext, hspells, hb, hstop⟩
  · rintro ⟨htext, hspells, hb, hstop⟩
    obtain ⟨hfirst, hlast⟩ :=
      head_last_of_all (ne_nil_of_spells hspells) (isWord_of_spells hspells)
    exact (wholeWords_eq_some_iff (splits_foldedWord _) hfirst hlast).2
      ⟨foldedWord_eq_some_iff.2 ⟨htext, hspells⟩, hb, hstop⟩

theorem name_matches_iff {before : Option Char} {text found rest : List Char} :
    name.matcher before text = some (found, rest) ↔
      text = found ++ rest ∧ found ≠ [] ∧ (∀ c ∈ found, Text.isWord c = true) ∧
        before.any Text.isWord = false ∧ Stops Text.isWord rest := by
  show wholeWords (some1 Text.isWord) before text = _ ↔ _
  constructor
  · intro h
    have hm := (wholeWords_eq_some.1 h).2.1
    obtain ⟨htext, hne, hall, -⟩ := some1_eq_some_iff.1 hm
    obtain ⟨hfirst, hlast⟩ := head_last_of_all hne hall
    obtain ⟨-, hb, hstop⟩ := (wholeWords_eq_some_iff (splits_some1 _) hfirst hlast).1 h
    exact ⟨htext, hne, hall, hb, hstop⟩
  · rintro ⟨htext, hne, hall, hb, hstop⟩
    obtain ⟨hfirst, hlast⟩ := head_last_of_all hne hall
    exact (wholeWords_eq_some_iff (splits_some1 _) hfirst hlast).2
      ⟨some1_eq_some_iff.2 ⟨htext, hne, hall, hstop⟩, hb, hstop⟩

/-- The words `NOT` and `NULL` with blanks between them. -/
structure SpellsNotNull (first blanks second : List Char) : Prop where
  not : Spells first .notWord
  blanks_ne_nil : blanks ≠ []
  blank : ∀ c ∈ blanks, Text.isBlank c = true
  null : Spells second .null

theorem not_isBlank_of_isWord {c : Char} (h : Text.isWord c = true) : Text.isBlank c = false := by
  rw [← Bool.not_eq_true]
  intro hb
  rw [Text.not_isWord_of_isBlank hb] at h
  exact absurd h (by simp)

/-- A key word goes on with a character that is no blank. -/
theorem stops_isBlank_of_spells {found : List Char} {word : Keyword} (h : Spells found word)
    (rest : List Char) : Stops Text.isBlank (found ++ rest) := by
  obtain ⟨c, found, rfl⟩ := List.exists_cons_of_ne_nil (ne_nil_of_spells h)
  rw [List.cons_append, stops_cons]
  exact not_isBlank_of_isWord (isWord_of_spells h c (by simp))

/-- The two words, before their surroundings are looked at. -/
def twoWords : Matcher :=
  andThen (foldedWord ['N', 'O', 'T'])
    (andThen (some1 Text.isBlank) (foldedWord ['N', 'U', 'L', 'L']))

theorem splits_twoWords : Splits twoWords :=
  splits_andThen (splits_foldedWord _) (splits_andThen (splits_some1 _) (splits_foldedWord _))

theorem twoWords_eq_some_iff {text found rest : List Char} :
    twoWords text = some (found, rest) ↔
      ∃ first blanks second, SpellsNotNull first blanks second ∧
        found = first ++ (blanks ++ second) ∧ text = found ++ rest := by
  unfold twoWords
  rw [andThen_eq_some]
  constructor
  · rintro ⟨first, middle, more, h1, h2, rfl⟩
    obtain ⟨blanks, tail, second, h3, h4, rfl⟩ := andThen_eq_some.1 h2
    obtain ⟨rfl, hnot⟩ := foldedWord_eq_some_iff.1 h1
    obtain ⟨rfl, hne, hblank, -⟩ := some1_eq_some_iff.1 h3
    obtain ⟨rfl, hnull⟩ := foldedWord_eq_some_iff.1 h4
    exact ⟨first, blanks, second, ⟨hnot, hne, hblank, hnull⟩, rfl, by simp⟩
  · rintro ⟨first, blanks, second, h, rfl, rfl⟩
    have hblanks : some1 Text.isBlank (blanks ++ (second ++ rest)) =
        some (blanks, second ++ rest) :=
      some1_eq_some_iff.2 ⟨rfl, h.blanks_ne_nil, h.blank, stops_isBlank_of_spells h.null rest⟩
    refine ⟨first, blanks ++ (second ++ rest), blanks ++ second, ?_, ?_, rfl⟩
    · exact foldedWord_eq_some_iff.2 ⟨by simp, h.not⟩
    · exact andThen_eq_some.2 ⟨blanks, second ++ rest, second, hblanks,
        foldedWord_eq_some_iff.2 ⟨rfl, h.null⟩, rfl⟩

theorem notNull_matches_iff {before : Option Char} {text found rest : List Char} :
    notNull.matcher before text = some (found, rest) ↔
      ∃ first blanks second, SpellsNotNull first blanks second ∧
        found = first ++ (blanks ++ second) ∧ text = found ++ rest ∧
        before.any Text.isWord = false ∧ Stops Text.isWord rest := by
  have hends : ∀ {first blanks second : List Char}, SpellsNotNull first blanks second →
      (first ++ (blanks ++ second)).head?.any Text.isWord = true ∧
        (first ++ (blanks ++ second)).getLast?.any Text.isWord = true := by
    intro first blanks second h
    have h1 := head_last_of_all (ne_nil_of_spells h.not) (isWord_of_spells h.not)
    have h2 := head_last_of_all (ne_nil_of_spells h.null) (isWord_of_spells h.null)
    obtain ⟨c, first, rfl⟩ := List.exists_cons_of_ne_nil (ne_nil_of_spells h.not)
    refine ⟨h1.1, ?_⟩
    obtain ⟨front, last, rfl⟩ :=
      (List.eq_nil_or_concat second).resolve_left (ne_nil_of_spells h.null)
    rw [List.concat_eq_append, List.getLast?_concat] at h2
    rw [List.concat_eq_append, ← List.append_assoc, ← List.append_assoc, List.getLast?_concat]
    exact h2.2
  show wholeWords twoWords before text = _ ↔ _
  constructor
  · intro h
    obtain ⟨first, blanks, second, hspells, rfl, htext⟩ :=
      twoWords_eq_some_iff.1 (wholeWords_eq_some.1 h).2.1
    obtain ⟨hfirst, hlast⟩ := hends hspells
    obtain ⟨-, hb, hstop⟩ := (wholeWords_eq_some_iff splits_twoWords hfirst hlast).1 h
    exact ⟨first, blanks, second, hspells, rfl, htext, hb, hstop⟩
  · rintro ⟨first, blanks, second, hspells, rfl, htext, hb, hstop⟩
    obtain ⟨hfirst, hlast⟩ := hends hspells
    exact (wholeWords_eq_some_iff splits_twoWords hfirst hlast).2
      ⟨twoWords_eq_some_iff.2 ⟨first, blanks, second, hspells, rfl, htext⟩, hb, hstop⟩

/-! ## Numbers -/

/-- Digits with or without a minus sign. -/
def IsInteger (found : List Char) : Prop :=
  ∃ sign digits, found = sign ++ digits ∧ (sign = [] ∨ sign = ['-']) ∧ digits ≠ [] ∧
    ∀ c ∈ digits, Text.isDigit c = true

theorem integer_matches_iff {before : Option Char} {text found rest : List Char} :
    integer.matcher before text = some (found, rest) ↔
      text = found ++ rest ∧ IsInteger found ∧ Stops Text.isDigit rest := by
  show andThen (Matcher.optional (exactly '-')) (some1 Text.isDigit) text = _ ↔ _
  rw [andThen_eq_some]
  constructor
  · rintro ⟨sign, middle, digits, h1, h2, rfl⟩
    obtain ⟨rfl, hne, hall, hstop⟩ := some1_eq_some_iff.1 h2
    rcases Option.or_eq_some_iff.1 h1 with h1 | ⟨-, h1⟩
    · obtain ⟨rfl, rfl⟩ := exactly_eq_some_iff.1 h1
      exact ⟨by simp, ⟨['-'], digits, rfl, .inr rfl, hne, hall⟩, hstop⟩
    · rw [Option.some.injEq, Prod.mk.injEq] at h1
      obtain ⟨rfl, rfl⟩ := h1
      exact ⟨rfl, ⟨[], digits, rfl, .inl rfl, hne, hall⟩, hstop⟩
  · rintro ⟨rfl, ⟨sign, digits, rfl, hsign, hne, hall⟩, hstop⟩
    refine ⟨sign, digits ++ rest, digits, ?_, some1_eq_some_iff.2 ⟨rfl, hne, hall, hstop⟩, rfl⟩
    rcases hsign with rfl | rfl
    · have hno : exactly '-' (digits ++ rest) = none := by
        obtain ⟨c, digits, rfl⟩ := List.exists_cons_of_ne_nil hne
        have hc : Text.isDigit c = true := hall c (by simp)
        refine if_neg ?_
        rw [beq_iff_eq]
        rintro rfl
        exact absurd hc (by decide)
      show (exactly '-' ([] ++ digits ++ rest)).or _ = _
      rw [List.nil_append, hno, Option.none_or]
    · rfl

/-- An integer, a dot and digits. -/
def IsReal (found : List Char) : Prop :=
  ∃ whole digits, found = whole ++ '.' :: digits ∧ IsInteger whole ∧ digits ≠ [] ∧
    ∀ c ∈ digits, Text.isDigit c = true

theorem real_matches_iff {before : Option Char} {text found rest : List Char} :
    real.matcher before text = some (found, rest) ↔
      text = found ++ rest ∧ IsReal found ∧ Stops Text.isDigit rest := by
  show andThen (integer.matcher before) (andThen (exactly '.') (some1 Text.isDigit)) text = _ ↔ _
  rw [andThen_eq_some]
  constructor
  · rintro ⟨whole, middle, more, h1, h2, rfl⟩
    obtain ⟨dot, tail, digits, h3, h4, rfl⟩ := andThen_eq_some.1 h2
    obtain ⟨rfl, hwhole, -⟩ := integer_matches_iff.1 h1
    obtain ⟨rfl, rfl⟩ := exactly_eq_some_iff.1 h3
    obtain ⟨rfl, hne, hall, hstop⟩ := some1_eq_some_iff.1 h4
    exact ⟨by simp, ⟨whole, digits, by simp, hwhole, hne, hall⟩, hstop⟩
  · rintro ⟨rfl, ⟨whole, digits, rfl, hwhole, hne, hall⟩, hstop⟩
    have hdot : Stops Text.isDigit ('.' :: (digits ++ rest)) := stops_cons.2 (by decide)
    refine ⟨whole, '.' :: (digits ++ rest), '.' :: digits, ?_, ?_, rfl⟩
    · exact integer_matches_iff.2 ⟨by simp, hwhole, hdot⟩
    · exact andThen_eq_some.2 ⟨['.'], digits ++ rest, digits, exactly_eq_some_iff.2 ⟨rfl, rfl⟩,
        some1_eq_some_iff.2 ⟨rfl, hne, hall, hstop⟩, rfl⟩

/-! ## Delimited texts, comments and operators -/

theorem length_matches_iff {before : Option Char} {text found rest : List Char} :
    length.matcher before text = some (found, rest) ↔
      text = found ++ rest ∧ ∃ digits, found = '(' :: (digits ++ [')']) ∧ digits ≠ [] ∧
        ∀ c ∈ digits, Text.isDigit c = true := by
  show andThen (exactly '(') (andThen (some1 Text.isDigit) (exactly ')')) text = _ ↔ _
  rw [andThen_eq_some]
  constructor
  · rintro ⟨opening, middle, more, h1, h2, rfl⟩
    obtain ⟨digits, tail, closing, h3, h4, rfl⟩ := andThen_eq_some.1 h2
    obtain ⟨rfl, rfl⟩ := exactly_eq_some_iff.1 h1
    obtain ⟨rfl, hne, hall, -⟩ := some1_eq_some_iff.1 h3
    obtain ⟨rfl, rfl⟩ := exactly_eq_some_iff.1 h4
    exact ⟨by simp, digits, rfl, hne, hall⟩
  · rintro ⟨rfl, digits, rfl, hne, hall⟩
    have hstop : Stops Text.isDigit ([')'] ++ rest) := stops_cons.2 (by decide)
    refine ⟨['('], digits ++ ([')'] ++ rest), digits ++ [')'], ?_, ?_, rfl⟩
    · exact exactly_eq_some_iff.2 ⟨by simp, rfl⟩
    · exact andThen_eq_some.2 ⟨digits, [')'] ++ rest, [')'],
        some1_eq_some_iff.2 ⟨rfl, hne, hall, hstop⟩, exactly_eq_some_iff.2 ⟨rfl, rfl⟩, rfl⟩

/-- Everything up to the next such character or to the end. -/
theorem manyNot_eq_some_iff {mark : Char} {text found rest : List Char} :
    many (· != mark) text = some (found, rest) ↔
      text = found ++ rest ∧ mark ∉ found ∧ ∀ c ∈ rest.head?, c = mark := by
  rw [many_eq_some_iff]
  refine and_congr_right fun _ => and_congr ?_ ?_
  · constructor
    · intro hall hmem
      exact absurd (hall mark hmem) (by simp)
    · rintro hmem c hc
      rw [bne_iff_ne]
      rintro rfl
      exact hmem hc
  · unfold Stops
    simp only [bne_eq_false_iff_eq]

theorem enclosed_matches_iff {quote : Char} {kind : TokenKind} {before : Option Char}
    {text found rest : List Char} :
    (enclosed quote kind).matcher before text = some (found, rest) ↔
      text = found ++ rest ∧ ∃ inner, found = quote :: (inner ++ [quote]) ∧ quote ∉ inner := by
  show andThen (exactly quote) (andThen (many (· != quote)) (exactly quote)) text = _ ↔ _
  rw [andThen_eq_some]
  constructor
  · rintro ⟨opening, middle, more, h1, h2, rfl⟩
    obtain ⟨inner, tail, closing, h3, h4, rfl⟩ := andThen_eq_some.1 h2
    obtain ⟨rfl, rfl⟩ := exactly_eq_some_iff.1 h1
    obtain ⟨rfl, hinner, -⟩ := manyNot_eq_some_iff.1 h3
    obtain ⟨rfl, rfl⟩ := exactly_eq_some_iff.1 h4
    exact ⟨by simp, inner, rfl, hinner⟩
  · rintro ⟨rfl, inner, rfl, hinner⟩
    refine ⟨[quote], inner ++ ([quote] ++ rest), inner ++ [quote], ?_, ?_, rfl⟩
    · exact exactly_eq_some_iff.2 ⟨by simp, rfl⟩
    · exact andThen_eq_some.2 ⟨inner, [quote] ++ rest, [quote],
        manyNot_eq_some_iff.2 ⟨rfl, hinner, by simp⟩, exactly_eq_some_iff.2 ⟨rfl, rfl⟩, rfl⟩

/-- A comment goes on up to a line break or to the end of the text. -/
theorem comment_matches_iff {before : Option Char} {text found rest : List Char} :
    comment.matcher before text = some (found, rest) ↔
      text = found ++ rest ∧ ∃ body, found = '-' :: '-' :: body ∧ '\n' ∉ body ∧
        ∀ c ∈ rest.head?, c = '\n' := by
  show andThen (exactly '-') (andThen (exactly '-') (many (· != '\n'))) text = _ ↔ _
  rw [andThen_eq_some]
  constructor
  · rintro ⟨first, middle, more, h1, h2, rfl⟩
    obtain ⟨second, tail, body, h3, h4, rfl⟩ := andThen_eq_some.1 h2
    obtain ⟨rfl, rfl⟩ := exactly_eq_some_iff.1 h1
    obtain ⟨rfl, rfl⟩ := exactly_eq_some_iff.1 h3
    obtain ⟨rfl, hbody, hrest⟩ := manyNot_eq_some_iff.1 h4
    exact ⟨by simp, body, rfl, hbody, hrest⟩
  · rintro ⟨rfl, body, rfl, hbody, hrest⟩
    refine ⟨['-'], '-' :: (body ++ rest), '-' :: body, exactly_eq_some_iff.2 ⟨rfl, rfl⟩, ?_, rfl⟩
    exact andThen_eq_some.2 ⟨['-'], body ++ rest, body, exactly_eq_some_iff.2 ⟨rfl, rfl⟩,
      manyNot_eq_some_iff.2 ⟨rfl, hbody, hrest⟩, rfl⟩

/-- The operators one by one. -/
def operatorSigns : List (List Char) :=
  [['<', '>'], ['<', '='], ['<'], ['>', '='], ['>'], ['!', '='], ['!'], ['+'], ['*'], ['/'], ['%'],
    ['-']]

theorem mem_of_operatorSign {text found rest : List Char}
    (h : operatorSign text = some (found, rest)) :
    text = found ++ rest ∧ found ∈ operatorSigns := by
  refine ⟨(splits_operatorSign h).symm, ?_⟩
  rcases Option.or_eq_some_iff.1 h with h | ⟨-, h⟩
  · obtain ⟨first, middle, second, h1, h2, rfl⟩ := andThen_eq_some.1 h
    obtain ⟨-, rfl⟩ := exactly_eq_some_iff.1 h1
    obtain ⟨-, rfl⟩ := exactly_eq_some_iff.1 h2
    decide
  rcases Option.or_eq_some_iff.1 h with h | ⟨-, h⟩
  · obtain ⟨first, middle, second, h1, h2, rfl⟩ := andThen_eq_some.1 h
    obtain ⟨c, -, rfl, hc⟩ := oneOf_eq_some h1
    have hsecond : second = [] ∨ second = ['='] := by
      rcases Option.or_eq_some_iff.1 h2 with h2 | ⟨-, h2⟩
      · exact .inr (exactly_eq_some_iff.1 h2).2
      · rw [Option.some.injEq, Prod.mk.injEq] at h2
        exact .inl h2.1.symm
    rw [decide_eq_true_eq] at hc
    rcases hc with rfl | rfl | rfl <;> rcases hsecond with rfl | rfl <;> decide
  · obtain ⟨c, -, rfl, hc⟩ := oneOf_eq_some h
    rw [decide_eq_true_eq] at hc
    rcases hc with rfl | rfl | rfl | rfl | rfl <;> decide

end Pattern

end TableScribe
