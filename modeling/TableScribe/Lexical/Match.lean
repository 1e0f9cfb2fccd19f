import TableScribe.Text.Blank
import TableScribe.Text.Digit
import TableScribe.Text.LetterCase
import TableScribe.Text.Word

/-!
# Matching the beginning of a text

A `Matcher` looks at the beginning of a text and cuts it into the part that it matches and the
rest. Repetition takes as many characters as it can; no pattern of the language ever has to give one
back. `Matcher.Splits` says that nothing is lost or changed; every matcher here has it.
-/

namespace TableScribe

/-- Cuts a text into a matched beginning and the rest. -/
abbrev Matcher := List Char → Option (List Char × List Char)

namespace Matcher

/-- What is matched, followed by the rest, is the text. -/
def Splits (m : Matcher) : Prop :=
  ∀ ⦃text found rest⦄, m text = some (found, rest) → found ++ rest = text

/-- Only a non-empty beginning is matched. -/
def Consumes (m : Matcher) : Prop :=
  ∀ ⦃text found rest⦄, m text = some (found, rest) → found ≠ []

/-! ## One character and many -/

/-- One character of the class. -/
def oneOf (p : Char → Bool) : Matcher
  | c :: rest => if p c then some ([c], rest) else none
  | [] => none

def exactly (c : Char) : Matcher :=
  oneOf (· == c)

/-- All the characters of the class that the text begins with, possibly none. -/
def many (p : Char → Bool) : Matcher :=
  fun text => some (text.takeWhile p, text.dropWhile p)

/-- All the characters of the class that the text begins with, at least one. -/
def some1 (p : Char → Bool) : Matcher
  | c :: rest => if p c then some (c :: rest.takeWhile p, rest.dropWhile p) else none
  | [] => none

/-- The word, in any letter case; it is given in capitals. -/
def foldedWord : List Char → Matcher
  | [], text => some ([], text)
  | _ :: _, [] => none
  | letter :: word, c :: rest =>
    if Text.foldLetter c = letter then
      (foldedWord word rest).map fun (found, rest) => (c :: found, rest)
    else none

/-! ## Combining matchers -/

/-- One match directly followed by another. -/
def andThen (first next : Matcher) : Matcher := fun text =>
  match first text with
  | none => none
  | some (found, rest) => (next rest).map fun (more, rest) => (found ++ more, rest)

/-- The match if there is one, and otherwise nothing of the text. -/
def optional (m : Matcher) : Matcher := fun text =>
  (m text).or (some ([], text))

/-- The first match, or the second where there is no first. -/
def orElse (first second : Matcher) : Matcher := fun text =>
  (first text).or (second text)

/-- A match whose two ends are edges of words. -/
def wholeWords (m : Matcher) (before : Option Char) : Matcher := fun text =>
  if Text.atBoundary before text.head? then
    match m text with
    | none => none
    | some (found, rest) =>
      if Text.atBoundary found.getLast? rest.head? then some (found, rest) else none
  else none

/-! ## Nothing is lost -/

theorem splits_oneOf (p : Char → Bool) : Splits (oneOf p) := by
  intro text found rest h
  cases text with
  | nil => simp [oneOf] at h
  | cons c cs =>
    by_cases hc : p c
    · simp [oneOf, hc] at h
      simp [← h.1, ← h.2]
    · simp [oneOf, hc] at h

theorem consumes_oneOf (p : Char → Bool) : Consumes (oneOf p) := by
  intro text found rest h
  cases text with
  | nil => simp [oneOf] at h
  | cons c cs =>
    by_cases hc : p c
    · simp [oneOf, hc] at h
      simp [← h.1]
    · simp [oneOf, hc] at h

theorem splits_exactly (c : Char) : Splits (exactly c) :=
  splits_oneOf _

theorem consumes_exactly (c : Char) : Consumes (exactly c) :=
  consumes_oneOf _

theorem splits_many (p : Char → Bool) : Splits (many p) := by
  intro text found rest h
  simp [many] at h
  simp [← h.1, ← h.2]

theorem splits_some1 (p : Char → Bool) : Splits (some1 p) := by
  intro text found rest h
  cases text with
  | nil => simp [some1] at h
  | cons c cs =>
    by_cases hc : p c
    · simp [some1, hc] at h
      simp [← h.1, ← h.2]
    · simp [some1, hc] at h

theorem consumes_some1 (p : Char → Bool) : Consumes (some1 p) := by
  intro text found rest h
  cases text with
  | nil => simp [some1] at h
  | cons c cs =>
    by_cases hc : p c
    · simp [some1, hc] at h
      simp [← h.1]
    · simp [some1, hc] at h

theorem splits_foldedWord (word : List Char) : Splits (foldedWord word) := by
  intro text found rest h
  induction word generalizing text found with
  | nil =>
    simp [foldedWord] at h
    simp [← h.1, ← h.2]
  | cons letter word ih =>
    cases text with
    | nil => simp [foldedWord] at h
    | cons c cs =>
      by_cases hc : Text.foldLetter c = letter
      · simp [foldedWord, hc] at h
        obtain ⟨tail, hx, rfl⟩ := h
        simp [ih hx]
      · simp [foldedWord, hc] at h

theorem consumes_foldedWord {word : List Char} (hw : word ≠ []) : Consumes (foldedWord word) := by
  intro text found rest h
  cases word with
  | nil => exact absurd rfl hw
  | cons letter word =>
    cases text with
    | nil => simp [foldedWord] at h
    | cons c cs =>
      by_cases hc : Text.foldLetter c = letter
      · simp [foldedWord, hc] at h
        obtain ⟨tail, _, rfl⟩ := h
        simp
      · simp [foldedWord, hc] at h

theorem andThen_eq_some {first next : Matcher} {text found rest : List Char} :
    andThen first next text = some (found, rest) ↔
      ∃ head middle more, first text = some (head, middle) ∧ next middle = some (more, rest) ∧
        found = head ++ more := by
  unfold andThen
  cases h : first text with
  | none => simp
  | some p =>
    obtain ⟨head, middle⟩ := p
    simp only [Option.map_eq_some_iff, Option.some.injEq, Prod.mk.injEq, Prod.exists]
    constructor
    · rintro ⟨more, rest', hn, rfl, rfl⟩
      exact ⟨head, middle, more, ⟨rfl, rfl⟩, hn, rfl⟩
    · rintro ⟨head', middle', more, ⟨rfl, rfl⟩, hn, rfl⟩
      exact ⟨more, rest, hn, rfl, rfl⟩

theorem splits_andThen {first next : Matcher} (hf : Splits first) (hn : Splits next) :
    Splits (andThen first next) := by
  intro text found rest h
  obtain ⟨head, middle, more, h1, h2, rfl⟩ := andThen_eq_some.1 h
  rw [List.append_assoc, hn h2, hf h1]

theorem consumes_andThen {first : Matcher} (next : Matcher) (hf : Consumes first) :
    Consumes (andThen first next) := by
  intro text found rest h
  obtain ⟨head, middle, more, h1, _, rfl⟩ := andThen_eq_some.1 h
  have := hf h1
  simp [this]

theorem consumes_andThen_right (first : Matcher) {next : Matcher} (hn : Consumes next) :
    Consumes (andThen first next) := by
  intro text found rest h
  obtain ⟨head, middle, more, _, h2, rfl⟩ := andThen_eq_some.1 h
  have := hn h2
  simp [this]

theorem splits_optional {m : Matcher} (hm : Splits m) : Splits (optional m) := by
  intro text found rest h
  cases hx : m text with
  | none =>
    simp [optional, hx] at h
    simp [← h.1, ← h.2]
  | some p =>
    simp [optional, hx] at h
    exact hm (h ▸ hx)

theorem splits_orElse {first second : Matcher} (hf : Splits first) (hs : Splits second) :
    Splits (orElse first second) := by
  intro text found rest h
  rcases Option.or_eq_some_iff.1 h with h | ⟨_, h⟩
  · exact hf h
  · exact hs h

theorem consumes_orElse {first second : Matcher} (hf : Consumes first) (hs : Consumes second) :
    Consumes (orElse first second) := by
  intro text found rest h
  rcases Option.or_eq_some_iff.1 h with h | ⟨_, h⟩
  · exact hf h
  · exact hs h

theorem wholeWords_eq_some {m : Matcher} {before : Option Char} {text found rest : List Char} :
    wholeWords m before text = some (found, rest) ↔
      Text.atBoundary before text.head? = true ∧ m text = some (found, rest) ∧
        Text.atBoundary found.getLast? rest.head? = true := by
  unfold wholeWords
  by_cases hb : Text.atBoundary before text.head? = true
  · cases hm : m text with
    | none => simp [hb]
    | some p =>
      obtain ⟨f, r⟩ := p
      by_cases ha : Text.atBoundary f.getLast? r.head? = true
      · simp [hb, ha]
        rintro rfl rfl
        exact ha
      · simp [hb, ha]
        rintro rfl rfl
        simpa using ha
  · simp [hb]

theorem splits_wholeWords {m : Matcher} (hm : Splits m) (before : Option Char) :
    Splits (wholeWords m before) :=
  fun _ _ _ h => hm (wholeWords_eq_some.1 h).2.1

theorem consumes_wholeWords {m : Matcher} (hm : Consumes m) (before : Option Char) :
    Consumes (wholeWords m before) :=
  fun _ _ _ h => hm (wholeWords_eq_some.1 h).2.1

/-- The rest is shorter than the text. -/
theorem length_rest_lt {m : Matcher} (hs : Splits m) (hc : Consumes m) {text found rest : List Char}
    (h : m text = some (found, rest)) : rest.length < text.length := by
  have h1 := hs h
  have h2 := List.length_pos_iff.2 (hc h)
  rw [← h1, List.length_append]
  omega

end Matcher

end TableScribe
