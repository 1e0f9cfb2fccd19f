import TableScribe.Lexical.Match
import TableScribe.Lexical.Token

/-!
# The patterns of the language

`Pattern.table` lists what a statement is made of. At any place the first pattern of the table that
matches decides, however long its match is; so a pattern stands before those that match a part of
its text: `NOT NULL` before `NOT`, a number with a point before one without, a number in
parentheses before a parenthesis, and every key word before a name.

Words are matched whole: a key word or a name begins and ends at the edge of a word. Numbers are
not, so that a number may be followed directly by a letter.
-/

namespace TableScribe

inductive Pattern
  | keyword (word : Keyword)
  | notNull
  | real
  | integer
  | length
  | blanks
  | comment
  | single (c : Char) (kind : TokenKind)
  | operator
  | enclosed (quote : Char) (kind : TokenKind)
  | name
  deriving DecidableEq, Repr

namespace Pattern

open Matcher

/-- An optional minus sign and digits. -/
def signedDigits : Matcher :=
  andThen (optional (exactly '-')) (some1 Text.isDigit)

/-- The operators of one or two characters. -/
def operatorSign : Matcher :=
  orElse (andThen (exactly '<') (exactly '>')) <|
    orElse (andThen (oneOf fun c => c = '<' ∨ c = '>' ∨ c = '!') (optional (exactly '='))) <|
      oneOf fun c => c = '+' ∨ c = '*' ∨ c = '/' ∨ c = '%' ∨ c = '-'

/-- The matcher of a pattern; `before` is the character that the text follows. -/
def matcher (before : Option Char) : Pattern → Matcher
  | keyword word => wholeWords (foldedWord word.spelling.toList) before
  | notNull =>
    wholeWords
      (andThen (foldedWord ['N', 'O', 'T'])
        (andThen (some1 Text.isBlank) (foldedWord ['N', 'U', 'L', 'L'])))
      before
  | real => andThen signedDigits (andThen (exactly '.') (some1 Text.isDigit))
  | integer => signedDigits
  | length => andThen (exactly '(') (andThen (some1 Text.isDigit) (exactly ')'))
  | blanks => some1 Text.isBlank
  | comment => andThen (exactly '-') (andThen (exactly '-') (many (· != '\n')))
  | single c _ => exactly c
  | operator => operatorSign
  | enclosed quote _ => andThen (exactly quote) (andThen (many (· != quote)) (exactly quote))
  | name => wholeWords (some1 Text.isWord) before

/-- The kind of token a pattern makes; blanks and comments make none. -/
def kind? : Pattern → Option TokenKind
  | keyword word => some (.keyword word)
  | notNull => some .notNull
  | real => some .realLiteral
  | integer => some .integerLiteral
  | length => some .length
  | blanks => none
  | comment => none
  | single _ kind => some kind
  | operator => some .operator
  | enclosed _ kind => some kind
  | name => some .name

/-- All patterns; the first that matches decides. -/
def table : List Pattern :=
  [keyword .create, keyword .table, keyword .ifWord, notNull, keyword .notWord,
    keyword .existsWord, keyword .primary, keyword .key, keyword .default, keyword .null,
    keyword .autoIncrement, keyword .unique, keyword .check, keyword .comment, keyword .boolean,
    keyword .integer, keyword .int, keyword .varchar, keyword .text, keyword .real, keyword .enum,
    keyword .timestamp, keyword .currentTimestamp, real, integer, length, blanks, comment,
    single '(' .leftParen, single ')' .rightParen, single ',' .comma, single ';' .semicolon,
    single '=' .equals, operator, single '.' .dot, enclosed '\x27' .stringLiteral,
    enclosed '\x60' .quotedName, name]

/-! ## Every pattern cuts off a non-empty beginning -/

theorem splits_signedDigits : Splits signedDigits :=
  splits_andThen (splits_optional (splits_exactly _)) (splits_some1 _)

theorem consumes_signedDigits : Consumes signedDigits :=
  consumes_andThen_right _ (consumes_some1 _)

theorem splits_operatorSign : Splits operatorSign :=
  splits_orElse (splits_andThen (splits_exactly _) (splits_exactly _)) <|
    splits_orElse (splits_andThen (splits_oneOf _) (splits_optional (splits_exactly _))) <|
      splits_oneOf _

theorem consumes_operatorSign : Consumes operatorSign :=
  consumes_orElse (consumes_andThen _ (consumes_exactly _)) <|
    consumes_orElse (consumes_andThen _ (consumes_oneOf _)) (consumes_oneOf _)

theorem spelling_ne_nil (word : Keyword) : word.spelling.toList ≠ [] := by
  cases word <;> simp [Keyword.spelling]

theorem splits_matcher (before : Option Char) (p : Pattern) : Splits (p.matcher before) := by
  cases p with
  | keyword word => exact splits_wholeWords (splits_foldedWord _) _
  | notNull =>
    exact splits_wholeWords
      (splits_andThen (splits_foldedWord _) (splits_andThen (splits_some1 _) (splits_foldedWord _)))
      _
  | real =>
    exact splits_andThen splits_signedDigits (splits_andThen (splits_exactly _) (splits_some1 _))
  | integer => exact splits_signedDigits
  | length =>
    exact splits_andThen (splits_exactly _) (splits_andThen (splits_some1 _) (splits_exactly _))
  | blanks => exact splits_some1 _
  | comment =>
    exact splits_andThen (splits_exactly _) (splits_andThen (splits_exactly _) (splits_many _))
  | single c kind => exact splits_exactly _
  | operator => exact splits_operatorSign
  | enclosed quote kind =>
    exact splits_andThen (splits_exactly _) (splits_andThen (splits_many _) (splits_exactly _))
  | name => exact splits_wholeWords (splits_some1 _) _

theorem consumes_matcher (before : Option Char) (p : Pattern) : Consumes (p.matcher before) := by
  cases p with
  | keyword word => exact consumes_wholeWords (consumes_foldedWord (spelling_ne_nil word)) _
  | notNull =>
    exact consumes_wholeWords (consumes_andThen _ (consumes_foldedWord (by simp))) _
  | real => exact consumes_andThen _ consumes_signedDigits
  | integer => exact consumes_signedDigits
  | length => exact consumes_andThen _ (consumes_exactly _)
  | blanks => exact consumes_some1 _
  | comment => exact consumes_andThen _ (consumes_exactly _)
  | single c kind => exact consumes_exactly _
  | operator => exact consumes_operatorSign
  | enclosed quote kind => exact consumes_andThen _ (consumes_exactly _)
  | name => exact consumes_wholeWords (consumes_some1 _) _

/-! ## The first pattern that matches -/

/-- What the first matching pattern of the table cuts off a text. -/
structure Cut where
  pattern : Pattern
  found : List Char
  rest : List Char
  deriving DecidableEq, Repr

/-- The cut that a pattern makes. -/
def cut? (before : Option Char) (text : List Char) (p : Pattern) : Option Cut :=
  (p.matcher before text).map fun (found, rest) => ⟨p, found, rest⟩

/-- The cut that the first matching pattern of the table makes. -/
def firstCut? (before : Option Char) (text : List Char) : Option Cut :=
  table.findSome? (cut? before text)

theorem cut?_eq_some {before : Option Char} {text : List Char} {p : Pattern} {cut : Cut} :
    cut? before text p = some cut ↔
      cut.pattern = p ∧ p.matcher before text = some (cut.found, cut.rest) := by
  obtain ⟨q, found, rest⟩ := cut
  simp only [cut?, Option.map_eq_some_iff, Prod.exists, Cut.mk.injEq]
  constructor
  · rintro ⟨f, r, h, rfl, rfl, rfl⟩
    exact ⟨rfl, h⟩
  · rintro ⟨rfl, h⟩
    exact ⟨found, rest, h, rfl, rfl, rfl⟩

theorem matcher_of_firstCut? {before : Option Char} {text : List Char} {cut : Cut}
    (h : firstCut? before text = some cut) :
    cut.pattern ∈ table ∧ cut.pattern.matcher before text = some (cut.found, cut.rest) := by
  obtain ⟨p, hp, hc⟩ := List.exists_of_findSome?_eq_some h
  obtain ⟨rfl, hm⟩ := cut?_eq_some.1 hc
  exact ⟨hp, hm⟩

/-- Nothing is lost at a cut. -/
theorem found_append_rest {before : Option Char} {text : List Char} {cut : Cut}
    (h : firstCut? before text = some cut) : cut.found ++ cut.rest = text :=
  splits_matcher before cut.pattern (matcher_of_firstCut? h).2

/-- A cut makes the text shorter. -/
theorem length_rest_lt_of_firstCut? {before : Option Char} {text : List Char} {cut : Cut}
    (h : firstCut? before text = some cut) : cut.rest.length < text.length :=
  length_rest_lt (splits_matcher before cut.pattern) (consumes_matcher before cut.pattern)
    (matcher_of_firstCut? h).2

end Pattern

end TableScribe
