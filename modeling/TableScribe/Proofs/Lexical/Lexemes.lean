import TableScribe.Proofs.Lexical.Matches

/-!
# Lexemes

Where a text is cut does not depend on much of it. `Lexeme p found` describes the texts that the
pattern `p` cuts off, without reference to the other patterns or to what stands around:

1. what is cut off is a lexeme of its pattern (`lexeme_of_firstCut?`);
2. a lexeme that follows a blank or nothing, and is followed by a space or by nothing, is cut off by
   its pattern (`firstCut?_of_lexeme`). The one exception is `NOT` in front of a blank and `NULL`.

A pattern matches only where the first character fits it (`Pattern.starts`), and for this reason
most patterns that stand in the table before that of a lexeme fail. The others would need a
character behind the lexeme that is not there, or would make the lexeme one of their own.
-/

namespace TableScribe

open Matcher

namespace Pattern

/-! ## First characters -/

/-- Whether a match of the pattern can begin with the character. -/
def starts (c : Char) : Pattern → Bool
  | keyword word => word.spelling.toList.head? == some (Text.foldLetter c)
  | notNull => Keyword.notWord.spelling.toList.head? == some (Text.foldLetter c)
  | real => c == '-' || Text.isDigit c
  | integer => c == '-' || Text.isDigit c
  | length => c == '('
  | blanks => Text.isBlank c
  | comment => c == '-'
  | single mark _ => c == mark
  | operator => ['<', '>', '!', '+', '*', '/', '%', '-'].contains c
  | enclosed quote _ => c == quote
  | name => Text.isWord c

theorem starts_integer {found : List Char} (h : IsInteger found) :
    ∃ c tail, found = c :: tail ∧ starts c integer = true := by
  obtain ⟨sign, digits, rfl, hsign, hne, hall⟩ := h
  obtain ⟨c, digits, rfl⟩ := List.exists_cons_of_ne_nil hne
  rcases hsign with rfl | rfl
  · exact ⟨c, digits, rfl, by simp [starts, hall c (by simp)]⟩
  · exact ⟨'-', c :: digits, rfl, rfl⟩

theorem starts_keyword {found : List Char} {word : Keyword} (h : Spells found word) :
    ∃ c tail, found = c :: tail ∧ starts c (keyword word) = true := by
  obtain ⟨c, tail, rfl⟩ := List.exists_cons_of_ne_nil (ne_nil_of_spells h)
  refine ⟨c, tail, rfl, ?_⟩
  show (word.spelling.toList.head? == some (Text.foldLetter c)) = true
  rw [← show _ = word.spelling.toList from h]
  exact beq_self_eq_true _

theorem operatorSigns_start :
    ∀ sign ∈ operatorSigns, sign.head?.any (fun c => starts c operator) = true := by
  decide

/-- A matched text begins with a character that fits the pattern. -/
theorem starts_of_matcher {p : Pattern} {before : Option Char} {text found rest : List Char}
    (h : p.matcher before text = some (found, rest)) :
    ∃ c tail, text = c :: tail ∧ p.starts c = true := by
  cases p with
  | keyword word =>
    obtain ⟨rfl, hspells, -⟩ := keyword_matches_iff.1 h
    obtain ⟨c, tail, rfl, hc⟩ := starts_keyword hspells
    exact ⟨c, tail ++ rest, rfl, hc⟩
  | notNull =>
    obtain ⟨first, blanks, second, hspells, rfl, rfl, -⟩ := notNull_matches_iff.1 h
    obtain ⟨c, tail, rfl, hc⟩ := starts_keyword hspells.not
    exact ⟨c, _, rfl, hc⟩
  | real =>
    obtain ⟨rfl, ⟨whole, digits, rfl, hwhole, -⟩, -⟩ := real_matches_iff.1 h
    obtain ⟨c, tail, rfl, hc⟩ := starts_integer hwhole
    exact ⟨c, _, rfl, hc⟩
  | integer =>
    obtain ⟨rfl, hfound, -⟩ := integer_matches_iff.1 h
    obtain ⟨c, tail, rfl, hc⟩ := starts_integer hfound
    exact ⟨c, _, rfl, hc⟩
  | length =>
    obtain ⟨head, middle, more, h1, -⟩ := andThen_eq_some.1 h
    obtain ⟨tail, rfl⟩ := exactly_cons h1
    exact ⟨'(', tail, rfl, rfl⟩
  | blanks =>
    obtain ⟨rfl, hne, hall, -⟩ := some1_eq_some_iff.1 h
    obtain ⟨c, tail, rfl⟩ := List.exists_cons_of_ne_nil hne
    exact ⟨c, tail ++ rest, rfl, hall c (by simp)⟩
  | comment =>
    obtain ⟨head, middle, more, h1, -⟩ := andThen_eq_some.1 h
    obtain ⟨tail, rfl⟩ := exactly_cons h1
    exact ⟨'-', tail, rfl, rfl⟩
  | single mark kind =>
    obtain ⟨tail, rfl⟩ := exactly_cons h
    exact ⟨mark, tail, rfl, beq_self_eq_true mark⟩
  | operator =>
    obtain ⟨rfl, hfound⟩ := mem_of_operatorSign h
    have hstart := operatorSigns_start found hfound
    cases found with
    | nil => exact absurd hstart (by simp)
    | cons c tail => exact ⟨c, tail ++ rest, rfl, hstart⟩
  | enclosed quote kind =>
    obtain ⟨head, middle, more, h1, -⟩ := andThen_eq_some.1 h
    obtain ⟨tail, rfl⟩ := exactly_cons h1
    exact ⟨quote, tail, rfl, beq_self_eq_true quote⟩
  | name =>
    obtain ⟨rfl, hne, hall, -⟩ := name_matches_iff.1 h
    obtain ⟨c, tail, rfl⟩ := List.exists_cons_of_ne_nil hne
    exact ⟨c, tail ++ rest, rfl, hall c (by simp)⟩

theorem matcher_eq_none {p : Pattern} {before : Option Char} {c : Char} {tail : List Char}
    (h : p.starts c = false) : p.matcher before (c :: tail) = none := by
  refine Option.eq_none_iff_forall_ne_some.2 ?_
  rintro ⟨found, rest⟩ hm
  obtain ⟨first, others, htext, hstarts⟩ := starts_of_matcher hm
  rw [List.cons.injEq] at htext
  rw [← htext.1, h] at hstarts
  exact absurd hstarts (by simp)

/-! ## Patterns before a pattern -/

/-- The patterns that the table tries before the given one. -/
def earlier (p : Pattern) : List Pattern :=
  table.takeWhile (· != p)

theorem table_nodup : table.Nodup := by decide

theorem earlier_eq_of_split {p : Pattern} {front later : List Pattern}
    (h : table = front ++ p :: later) : earlier p = front := by
  have hnodup := table_nodup
  rw [h] at hnodup
  have hfront : ∀ q ∈ front, (q != p) = true := by
    intro q hq
    rw [bne_iff_ne]
    exact (List.nodup_append.1 hnodup).2.2 q hq p (by simp)
  unfold earlier
  rw [h, List.takeWhile_append_of_pos hfront, List.takeWhile_cons_of_neg (by simp),
    List.append_nil]

/-- The first matching pattern is one that matches while those before it do not. -/
theorem firstCut?_eq_some_iff {p : Pattern} {before : Option Char} {text found rest : List Char} :
    firstCut? before text = some ⟨p, found, rest⟩ ↔
      p ∈ table ∧ p.matcher before text = some (found, rest) ∧
        ∀ q ∈ earlier p, q.matcher before text = none := by
  have hnone : ∀ q, cut? before text q = none ↔ q.matcher before text = none := by
    intro q
    unfold cut?
    rw [Option.map_eq_none_iff]
  unfold firstCut?
  rw [List.findSome?_eq_some_iff]
  constructor
  · rintro ⟨front, q, later, htable, hcut, hfront⟩
    obtain ⟨rfl, hm⟩ := cut?_eq_some.1 hcut
    refine ⟨by rw [htable]; simp, hm, ?_⟩
    rw [earlier_eq_of_split htable]
    exact fun q hq => (hnone q).1 (hfront q hq)
  · rintro ⟨hp, hm, hearlier⟩
    obtain ⟨front, later, htable⟩ := List.append_of_mem hp
    rw [earlier_eq_of_split htable] at hearlier
    exact ⟨front, p, later, htable, cut?_eq_some.2 ⟨rfl, hm⟩,
      fun q hq => (hnone q).2 (hearlier q hq)⟩

theorem firstCut?_of_matcher {p : Pattern} {before : Option Char} {c : Char}
    {tail found rest : List Char} (hp : p ∈ table)
    (hm : p.matcher before (c :: tail) = some (found, rest))
    (hearlier : ∀ q ∈ earlier p, q.starts c = true → q.matcher before (c :: tail) = none) :
    firstCut? before (c :: tail) = some ⟨p, found, rest⟩ := by
  refine firstCut?_eq_some_iff.2 ⟨hp, hm, fun q hq => ?_⟩
  cases hc : q.starts c with
  | true => exact hearlier q hq hc
  | false => exact matcher_eq_none hc

/-! ## Lexemes that are not words -/

/-- The text is over or goes on with a space. -/
def Spaced (text : List Char) : Prop :=
  text = [] ∨ ∃ rest, text = ' ' :: rest

theorem Spaced.stops {text : List Char} (h : Spaced text) {p : Char → Bool}
    (hp : p ' ' = false) : Stops p text := by
  rcases h with rfl | ⟨rest, rfl⟩
  · exact .nil p
  · exact stops_cons.2 hp

theorem Spaced.ne_cons {text tail : List Char} {c : Char} (h : Spaced text) (hc : c ≠ ' ') :
    text ≠ c :: tail := by
  rintro rfl
  rcases h with h | ⟨rest, h⟩
  · exact absurd h (by simp)
  · rw [List.cons.injEq] at h
    exact hc h.1

theorem operatorSign_of_spaced {found rest : List Char} (h : found ∈ operatorSigns)
    (hs : Spaced rest) : operatorSign (found ++ rest) = some (found, rest) := by
  simp only [operatorSigns, List.mem_cons, List.not_mem_nil, or_false] at h
  rcases hs with rfl | ⟨rest, rfl⟩ <;>
    rcases h with rfl | rfl | rfl | rfl | rfl | rfl | rfl | rfl | rfl | rfl | rfl | rfl <;> rfl

/-! ## Lexemes and where they come from -/

/-- A word of which no other pattern makes something: it spells no key word and does not begin with
a digit, which would be a number. -/
structure IsName (found : List Char) : Prop where
  ne_nil : found ≠ []
  isWord : ∀ c ∈ found, Text.isWord c = true
  noKeyword : ∀ word, ¬ Spells found word
  noDigit : ∀ c ∈ found.head?, Text.isDigit c = false

/-- The text is one that the pattern cuts off. -/
inductive Lexeme : Pattern → List Char → Prop
  | keyword {word : Keyword} {found : List Char} (h : Spells found word) :
      Lexeme (keyword word) found
  | notNull {first blanks second : List Char} (h : SpellsNotNull first blanks second) :
      Lexeme notNull (first ++ (blanks ++ second))
  | real {found : List Char} (h : IsReal found) : Lexeme real found
  | integer {found : List Char} (h : IsInteger found) : Lexeme integer found
  | length {digits : List Char} (hne : digits ≠ [])
      (hall : ∀ c ∈ digits, Text.isDigit c = true) : Lexeme length ('(' :: (digits ++ [')']))
  | single {mark : Char} {kind : TokenKind} (hp : single mark kind ∈ table) :
      Lexeme (single mark kind) [mark]
  | operator {found : List Char} (h : found ∈ operatorSigns) : Lexeme operator found
  | enclosed {quote : Char} {kind : TokenKind} {inner : List Char}
      (hp : enclosed quote kind ∈ table) (h : quote ∉ inner) :
      Lexeme (enclosed quote kind) (quote :: (inner ++ [quote]))
  | name {found : List Char} (h : IsName found) : Lexeme name found

theorem keyword_mem_earlier_name (word : Keyword) : keyword word ∈ earlier name := by
  cases word <;> decide

/-- Where an integer fails, there is no digit. -/
theorem not_isDigit_of_integer {before : Option Char} {c : Char} {tail : List Char}
    (h : integer.matcher before (c :: tail) = none) : Text.isDigit c = false := by
  rw [← Bool.not_eq_true]
  intro hc
  have hsplit := takeWhile_dropWhile_eq_iff.1
    (⟨rfl, rfl⟩ : (c :: tail).takeWhile Text.isDigit = _ ∧ (c :: tail).dropWhile Text.isDigit = _)
  obtain ⟨htext, hall, hstop⟩ := hsplit
  have hne : (c :: tail).takeWhile Text.isDigit ≠ [] := by
    rw [List.takeWhile_cons_of_pos hc]
    exact List.cons_ne_nil _ _
  have hm : integer.matcher before (c :: tail) = some (_, _) :=
    integer_matches_iff.2 ⟨htext, ⟨[], _, rfl, .inl rfl, hne, hall⟩, hstop⟩
  rw [h] at hm
  exact absurd hm (by simp)

/-- What is cut off is a lexeme of the pattern that cuts it off. -/
theorem lexeme_of_firstCut? {p : Pattern} {before : Option Char} {text found rest : List Char}
    {kind : TokenKind} (h : firstCut? before text = some ⟨p, found, rest⟩)
    (hk : p.kind? = some kind) : Lexeme p found := by
  obtain ⟨hp, hm, hearlier⟩ := firstCut?_eq_some_iff.1 h
  cases p with
  | keyword word => exact .keyword (keyword_matches_iff.1 hm).2.1
  | notNull =>
    obtain ⟨first, blanks, second, hspells, rfl, -⟩ := notNull_matches_iff.1 hm
    exact .notNull hspells
  | real => exact .real (real_matches_iff.1 hm).2.1
  | integer => exact .integer (integer_matches_iff.1 hm).2.1
  | length =>
    obtain ⟨-, digits, rfl, hne, hall⟩ := length_matches_iff.1 hm
    exact .length hne hall
  | blanks => exact absurd hk (by simp [kind?])
  | comment => exact absurd hk (by simp [kind?])
  | single mark kind =>
    obtain ⟨-, rfl⟩ := exactly_eq_some_iff.1 hm
    exact .single hp
  | operator => exact .operator (mem_of_operatorSign hm).2
  | enclosed quote kind =>
    obtain ⟨-, inner, rfl, hinner⟩ := enclosed_matches_iff.1 hm
    exact .enclosed hp hinner
  | name =>
    obtain ⟨rfl, hne, hall, hb, hstop⟩ := name_matches_iff.1 hm
    refine .name ⟨hne, hall, fun word hspells => ?_, fun c hc => ?_⟩
    · have hkeyword := keyword_matches_iff.2 ⟨rfl, hspells, hb, hstop⟩
      rw [hearlier _ (keyword_mem_earlier_name word)] at hkeyword
      exact absurd hkeyword (by simp)
    · obtain ⟨tail, rfl⟩ := List.head?_eq_some_iff.1 hc
      exact not_isDigit_of_integer (hearlier integer (by decide))

/-! ## Words are cut off again -/

/-- Key words, names and `NOT NULL`. -/
def isWordy : Pattern → Bool
  | keyword _ | notNull | name => true
  | _ => false

/-- The character belongs to no class that a pattern repeats. -/
def isPlain (c : Char) : Bool :=
  !Text.isWord c && !Text.isDigit c && !Text.isBlank c

theorem isPlain_iff {c : Char} :
    isPlain c = true ↔
      Text.isWord c = false ∧ Text.isDigit c = false ∧ Text.isBlank c = false := by
  unfold isPlain
  rw [Bool.and_eq_true, Bool.and_eq_true, and_assoc]
  simp

/-- The marks of the table belong to no class. -/
theorem isPlain_of_single {mark : Char} {kind : TokenKind} (h : single mark kind ∈ table) :
    isPlain mark = true := by
  have hall : table.all (fun p => match p with
    | single mark _ => isPlain mark
    | _ => true) = true := by decide
  exact List.all_eq_true.1 hall _ h

theorem isPlain_of_enclosed {quote : Char} {kind : TokenKind} (h : enclosed quote kind ∈ table) :
    isPlain quote = true := by
  have hall : table.all (fun p => match p with
    | enclosed quote _ => isPlain quote
    | _ => true) = true := by decide
  exact List.all_eq_true.1 hall _ h

theorem isPlain_of_operator {c : Char} (h : operator.starts c = true) : isPlain c = true := by
  have hall : ['<', '>', '!', '+', '*', '/', '%', '-'].all isPlain = true := by decide
  exact List.all_eq_true.1 hall c (List.contains_iff_mem.1 h)

theorem isSpelling_of_starts {word : Keyword} {c : Char} (h : starts c (keyword word) = true) :
    Text.isSpelling (Text.foldLetter c) = true := by
  obtain ⟨tail, hl⟩ := List.head?_eq_some_iff.1 (eq_of_beq h)
  have hmem : Text.foldLetter c ∈ word.spelling.toList := by simp [hl]
  exact Text.isSpelling_of_mem hmem

/-- Only blanks begin with a blank. -/
theorem not_isBlank_of_starts {p : Pattern} {c : Char} (hp : p ∈ table) (h : p.starts c = true)
    (hne : p ≠ blanks) : Text.isBlank c = false := by
  have hnumber : (c == '-' || Text.isDigit c) = true → Text.isBlank c = false := by
    intro hc
    rw [← Bool.not_eq_true]
    intro hb
    rw [Text.not_isDigit_of_isBlank hb, Bool.or_false, beq_iff_eq] at hc
    rw [hc] at hb
    exact absurd hb (by decide)
  cases p with
  | keyword word => exact not_isBlank_of_isWord (Text.isWord_of_foldLetter (isSpelling_of_starts h))
  | notNull =>
    have hspelling := isSpelling_of_starts (show starts c (keyword .notWord) = true from h)
    exact not_isBlank_of_isWord (Text.isWord_of_foldLetter hspelling)
  | name => exact not_isBlank_of_isWord h
  | real => exact hnumber h
  | integer => exact hnumber h
  | length =>
    rw [eq_of_beq h]
    decide
  | blanks => exact absurd rfl hne
  | comment =>
    rw [eq_of_beq h]
    decide
  | single mark kind =>
    rw [eq_of_beq h]
    exact (isPlain_iff.1 (isPlain_of_single hp)).2.2
  | operator => exact (isPlain_iff.1 (isPlain_of_operator h)).2.2
  | enclosed quote kind =>
    rw [eq_of_beq h]
    exact (isPlain_iff.1 (isPlain_of_enclosed hp)).2.2

/-- Only words begin with a word character that is no digit. -/
theorem isWordy_of_starts {p : Pattern} {c : Char} (hp : p ∈ table) (hw : Text.isWord c = true)
    (hd : Text.isDigit c = false) (h : p.starts c = true) : p.isWordy = true := by
  have hne : ∀ mark, Text.isWord mark = false → c ≠ mark := by
    rintro mark hmark rfl
    rw [hw] at hmark
    exact absurd hmark (by simp)
  cases p with
  | keyword word => rfl
  | notNull => rfl
  | name => rfl
  | real =>
    simp only [starts, hd, Bool.or_false, beq_iff_eq] at h
    exact absurd h (hne '-' (by decide))
  | integer =>
    simp only [starts, hd, Bool.or_false, beq_iff_eq] at h
    exact absurd h (hne '-' (by decide))
  | length => exact absurd (eq_of_beq h) (hne '(' (by decide))
  | blanks =>
    rw [Text.not_isWord_of_isBlank h] at hw
    exact absurd hw (by simp)
  | comment => exact absurd (eq_of_beq h) (hne '-' (by decide))
  | single mark kind =>
    exact absurd (eq_of_beq h) (hne mark (isPlain_iff.1 (isPlain_of_single hp)).1)
  | operator =>
    rw [(isPlain_iff.1 (isPlain_of_operator h)).1] at hw
    exact absurd hw (by simp)
  | enclosed quote kind =>
    exact absurd (eq_of_beq h) (hne quote (isPlain_iff.1 (isPlain_of_enclosed hp)).1)

theorem mem_table_of_earlier {p q : Pattern} (h : q ∈ earlier p) : q ∈ table ∧ q ≠ p := by
  refine ⟨(List.takeWhile_sublist _).subset h, ?_⟩
  have hall : ∀ a ∈ earlier p, (a != p) = true := List.all_eq_true.1 List.all_takeWhile
  exact bne_iff_ne.1 (hall q h)

/-- The text goes on with a blank and the word `NULL`. -/
def NullFollows (text : List Char) : Prop :=
  ∃ blanks second rest, text = blanks ++ (second ++ rest) ∧ blanks ≠ [] ∧
    (∀ c ∈ blanks, Text.isBlank c = true) ∧ Spells second .null ∧ Stops Text.isWord rest

theorem not_nullFollows_nil : ¬ NullFollows [] := by
  rintro ⟨blanks, second, rest, htext, hne, -⟩
  exact hne (List.append_eq_nil_iff.1 htext.symm).1

section Word

variable {before : Option Char} {word rest : List Char}

/-- A key word that matches where a word stands is that word. -/
theorem spells_of_matcher {other : Keyword} {found tail : List Char}
    (hw : ∀ c ∈ word, Text.isWord c = true) (hs : Stops Text.isWord rest)
    (h : (keyword other).matcher before (word ++ rest) = some (found, tail)) :
    Spells word other := by
  obtain ⟨htext, hspells, -, hstop⟩ := keyword_matches_iff.1 h
  obtain ⟨rfl, -⟩ := eq_of_stops htext hw hs (isWord_of_spells hspells) hstop
  exact hspells

theorem nullFollows_of_matcher {found tail : List Char}
    (hw : ∀ c ∈ word, Text.isWord c = true) (hs : Stops Text.isWord rest)
    (h : notNull.matcher before (word ++ rest) = some (found, tail)) :
    Spells word .notWord ∧ NullFollows rest := by
  obtain ⟨first, blanks, second, hspells, rfl, htext, -, hstop⟩ := notNull_matches_iff.1 h
  obtain ⟨c, others, hblanks⟩ := List.exists_cons_of_ne_nil hspells.blanks_ne_nil
  have hblank : Text.isBlank c = true := hspells.blank c (by simp [hblanks])
  have hfirst : Stops Text.isWord (blanks ++ (second ++ tail)) := by
    rw [hblanks, List.cons_append, stops_cons]
    exact Text.not_isWord_of_isBlank hblank
  rw [List.append_assoc, List.append_assoc] at htext
  obtain ⟨rfl, rfl⟩ := eq_of_stops htext hw hs (isWord_of_spells hspells.not) hfirst
  exact ⟨hspells.not, blanks, second, tail, rfl, hspells.blanks_ne_nil, hspells.blank,
    hspells.null, hstop⟩

/-- A word is cut off by the pattern that matches it if it spells no earlier key word and is not the
`NOT` of `NOT NULL`. -/
theorem firstCut?_of_word {p : Pattern} {found tail : List Char} (hp : p ∈ table)
    (hm : p.matcher before (word ++ rest) = some (found, tail)) (hne : word ≠ [])
    (hw : ∀ c ∈ word, Text.isWord c = true) (hd : ∀ c ∈ word.head?, Text.isDigit c = false)
    (hs : Stops Text.isWord rest)
    (hkeyword : ∀ other, Spells word other → keyword other ∉ earlier p)
    (hnull : Spells word .notWord → NullFollows rest → notNull ∉ earlier p)
    (hname : name ∉ earlier p) : firstCut? before (word ++ rest) = some ⟨p, found, tail⟩ := by
  refine firstCut?_eq_some_iff.2 ⟨hp, hm, fun q hq => ?_⟩
  refine Option.eq_none_iff_forall_ne_some.2 ?_
  rintro ⟨other, others⟩ hother
  obtain ⟨c, word, rfl⟩ := List.exists_cons_of_ne_nil hne
  obtain ⟨first, tail, htext, hstarts⟩ := starts_of_matcher hother
  rw [List.cons_append, List.cons.injEq] at htext
  rw [← htext.1] at hstarts
  have hwordy := isWordy_of_starts (mem_table_of_earlier hq).1 (hw c (by simp)) (hd c rfl) hstarts
  cases q with
  | keyword other => exact hkeyword other (spells_of_matcher hw hs hother) hq
  | notNull =>
    obtain ⟨hspells, hfollows⟩ := nullFollows_of_matcher hw hs hother
    exact hnull hspells hfollows hq
  | name => exact hname hq
  | _ => exact absurd hwordy (by simp [isWordy])

/-- No two key words are spelled alike. -/
theorem spelling_injective {one other : Keyword} (h : one.spelling = other.spelling) :
    one = other := by
  have hall : ∀ one ∈ Keyword.all, ∀ other ∈ Keyword.all, one.spelling = other.spelling →
      one = other := by decide
  exact hall one (Keyword.mem_all one) other (Keyword.mem_all other) h

theorem eq_of_spells {one other : Keyword} (h1 : Spells word one) (h2 : Spells word other) :
    one = other :=
  spelling_injective (String.toList_inj.1 (h1.symm.trans h2))

theorem not_isDigit_of_spells {given : Keyword} (h : Spells word given) :
    ∀ c ∈ word, Text.isDigit c = false :=
  fun c hc => Text.not_isDigit_of_foldLetter (isSpelling_of_spells h c hc)

theorem keyword_mem_table (given : Keyword) : keyword given ∈ table := by
  cases given <;> decide

theorem firstCut?_keyword {given : Keyword} (h : Spells word given)
    (hb : before.any Text.isWord = false) (hs : Stops Text.isWord rest)
    (hno : given = .notWord → ¬ NullFollows rest) :
    firstCut? before (word ++ rest) = some ⟨keyword given, word, rest⟩ := by
  have hm := keyword_matches_iff.2 ⟨rfl, h, hb, hs⟩
  refine firstCut?_of_word (keyword_mem_table given) hm (ne_nil_of_spells h) (isWord_of_spells h)
    (fun c hc => not_isDigit_of_spells h c (List.mem_of_mem_head? hc)) hs ?_ ?_ ?_
  · intro other hother hmem
    rw [eq_of_spells hother h] at hmem
    exact (mem_table_of_earlier hmem).2 rfl
  · intro hnot hfollows
    exact absurd hfollows (hno (eq_of_spells h hnot))
  · cases given <;> decide

theorem firstCut?_name (h : IsName word) (hb : before.any Text.isWord = false)
    (hs : Stops Text.isWord rest) :
    firstCut? before (word ++ rest) = some ⟨name, word, rest⟩ := by
  have hm := name_matches_iff.2 ⟨rfl, h.ne_nil, h.isWord, hb, hs⟩
  refine firstCut?_of_word (by decide) hm h.ne_nil h.isWord h.noDigit hs ?_ ?_ (by decide)
  · intro other hother
    exact absurd hother (h.noKeyword other)
  · intro hnot
    exact absurd hnot (h.noKeyword .notWord)

end Word

theorem stops_isWord_of_blanks {blanks : List Char} (hne : blanks ≠ [])
    (h : ∀ c ∈ blanks, Text.isBlank c = true) (rest : List Char) :
    Stops Text.isWord (blanks ++ rest) := by
  obtain ⟨c, blanks, rfl⟩ := List.exists_cons_of_ne_nil hne
  rw [List.cons_append, stops_cons]
  exact Text.not_isWord_of_isBlank (h c (by simp))

theorem firstCut?_notNull {before : Option Char} {first blanks second rest : List Char}
    (h : SpellsNotNull first blanks second) (hb : before.any Text.isWord = false)
    (hs : Stops Text.isWord rest) :
    firstCut? before (first ++ (blanks ++ second) ++ rest) =
      some ⟨notNull, first ++ (blanks ++ second), rest⟩ := by
  have hm : notNull.matcher before (first ++ (blanks ++ second) ++ rest) = some (_, rest) :=
    notNull_matches_iff.2 ⟨first, blanks, second, h, rfl, rfl, hb, hs⟩
  rw [List.append_assoc, List.append_assoc] at hm ⊢
  refine firstCut?_of_word (by decide) hm (ne_nil_of_spells h.not) (isWord_of_spells h.not)
    (fun c hc => not_isDigit_of_spells h.not c (List.mem_of_mem_head? hc))
    (stops_isWord_of_blanks h.blanks_ne_nil h.blank _) ?_ ?_ (by decide)
  · intro other hother
    rw [eq_of_spells hother h.not]
    decide
  · intro _ _ hmem
    exact (mem_table_of_earlier hmem).2 rfl

/-! ## Numbers and marks are cut off again -/

section Spaced

variable {before : Option Char} {found rest : List Char}

/-- What stands before the numbers in the table does not begin like a number. -/
theorem not_starts_of_integer {p : Pattern} {c : Char} (hc : starts c integer = true)
    (hp : p.isWordy = true) (hne : p ≠ name) : p.starts c = false := by
  have hspelling : Text.isSpelling (Text.foldLetter c) = false := by
    rw [← Bool.not_eq_true]
    intro hspelling
    rcases Bool.or_eq_true_iff.1 hc with hminus | hdigit
    · rw [eq_of_beq hminus] at hspelling
      exact absurd hspelling (by decide)
    · rw [Text.not_isDigit_of_foldLetter hspelling] at hdigit
      exact absurd hdigit (by simp)
  have hkeyword : ∀ word : Keyword, starts c (keyword word) = false := by
    intro word
    rw [← Bool.not_eq_true]
    intro hstarts
    rw [isSpelling_of_starts hstarts] at hspelling
    exact absurd hspelling (by simp)
  cases p with
  | keyword word => exact hkeyword word
  | notNull => exact hkeyword .notWord
  | name => exact absurd rfl hne
  | _ => exact absurd hp (by simp [isWordy])

theorem firstCut?_real (h : IsReal found) (hs : Spaced rest) :
    firstCut? before (found ++ rest) = some ⟨real, found, rest⟩ := by
  have hm : real.matcher before (found ++ rest) = some (found, rest) :=
    real_matches_iff.2 ⟨rfl, h, hs.stops (by decide)⟩
  obtain ⟨c, tail, htext, hstarts⟩ := starts_of_matcher hm
  rw [htext] at hm ⊢
  refine firstCut?_of_matcher (by decide) hm fun q hq hc => ?_
  have hwordy : ∀ q ∈ earlier real, q.isWordy = true ∧ q ≠ name := by decide
  rw [not_starts_of_integer hstarts (hwordy q hq).1 (hwordy q hq).2] at hc
  exact absurd hc (by simp)

theorem firstCut?_integer (h : IsInteger found) (hs : Spaced rest) :
    firstCut? before (found ++ rest) = some ⟨integer, found, rest⟩ := by
  have hm : integer.matcher before (found ++ rest) = some (found, rest) :=
    integer_matches_iff.2 ⟨rfl, h, hs.stops (by decide)⟩
  have hreal : real.matcher before (found ++ rest) = none := by
    refine Option.eq_none_iff_forall_ne_some.2 ?_
    rintro ⟨other, tail⟩ hother
    obtain ⟨htext, ⟨whole, digits, rfl, hwhole, -⟩, -⟩ := real_matches_iff.1 hother
    have hwhole : integer.matcher before (found ++ rest) = some (whole, '.' :: (digits ++ tail)) :=
      integer_matches_iff.2 ⟨by rw [htext]; simp, hwhole, stops_cons.2 (by decide)⟩
    rw [hm, Option.some.injEq, Prod.mk.injEq] at hwhole
    exact hs.ne_cons (by decide) hwhole.2
  obtain ⟨c, tail, htext, hstarts⟩ := starts_of_matcher hm
  rw [htext] at hm hreal ⊢
  refine firstCut?_of_matcher (by decide) hm fun q hq hc => ?_
  have hwordy : ∀ q ∈ earlier integer, q = real ∨ (q.isWordy = true ∧ q ≠ name) := by decide
  rcases hwordy q hq with rfl | ⟨hword, hname⟩
  · exact hreal
  · rw [not_starts_of_integer hstarts hword hname] at hc
    exact absurd hc (by simp)

theorem firstCut?_length {digits : List Char} (hne : digits ≠ [])
    (hall : ∀ c ∈ digits, Text.isDigit c = true) :
    firstCut? before ('(' :: (digits ++ [')']) ++ rest) =
      some ⟨length, '(' :: (digits ++ [')']), rest⟩ := by
  have hm : length.matcher before ('(' :: (digits ++ [')']) ++ rest) = some (_, rest) :=
    length_matches_iff.2 ⟨rfl, digits, rfl, hne, hall⟩
  refine firstCut?_of_matcher (by decide) hm fun q hq hc => ?_
  have hnone : ∀ q ∈ earlier length, q.starts '(' = false := by decide
  rw [hnone q hq] at hc
  exact absurd hc (by simp)

/-- Of the marks only an opening parenthesis may be the beginning of something else. -/
theorem eq_length_of_starts {mark : Char} {kind : TokenKind} (hp : single mark kind ∈ table) :
    ∀ q ∈ earlier (single mark kind), q.starts mark = true → q = length := by
  simp only [table, List.mem_cons, single.injEq, reduceCtorEq, List.not_mem_nil, or_false,
    false_or] at hp
  rcases hp with ⟨rfl, rfl⟩ | ⟨rfl, rfl⟩ | ⟨rfl, rfl⟩ | ⟨rfl, rfl⟩ | ⟨rfl, rfl⟩ | ⟨rfl, rfl⟩ <;>
    decide

theorem firstCut?_single {mark : Char} {kind : TokenKind} (hp : single mark kind ∈ table)
    (hs : Spaced rest) :
    firstCut? before ([mark] ++ rest) = some ⟨single mark kind, [mark], rest⟩ := by
  have hm : (single mark kind).matcher before ([mark] ++ rest) = some ([mark], rest) :=
    exactly_eq_some_iff.2 ⟨rfl, rfl⟩
  refine firstCut?_of_matcher hp hm fun q hq hc => ?_
  rw [eq_length_of_starts hp q hq hc]
  -- A number in parentheses has a digit where this text has a space or nothing.
  refine Option.eq_none_iff_forall_ne_some.2 ?_
  rintro ⟨found, tail⟩ hlength
  obtain ⟨htext, digits, rfl, hne, hall⟩ := length_matches_iff.1 hlength
  obtain ⟨digit, digits, rfl⟩ := List.exists_cons_of_ne_nil hne
  rw [List.cons_append, List.cons_append, List.cons.injEq] at htext
  have hdigit := hs.stops (show Text.isDigit ' ' = false by decide)
  rw [show rest = digit :: (digits ++ [')'] ++ tail) from htext.2, stops_cons,
    hall digit (by simp)] at hdigit
  exact absurd hdigit (by simp)

theorem firstCut?_enclosed {quote : Char} {kind : TokenKind} {inner : List Char}
    (hp : enclosed quote kind ∈ table) (h : quote ∉ inner) :
    firstCut? before (quote :: (inner ++ [quote]) ++ rest) =
      some ⟨enclosed quote kind, quote :: (inner ++ [quote]), rest⟩ := by
  have hm : (enclosed quote kind).matcher before (quote :: (inner ++ [quote]) ++ rest) =
      some (_, rest) := enclosed_matches_iff.2 ⟨rfl, inner, rfl, h⟩
  have hnone : ∀ q ∈ earlier (enclosed quote kind), q.starts quote = false := by
    simp only [table, List.mem_cons, enclosed.injEq, reduceCtorEq, List.not_mem_nil, or_false,
      false_or] at hp
    rcases hp with ⟨rfl, rfl⟩ | ⟨rfl, rfl⟩ <;> decide
  refine firstCut?_of_matcher hp hm fun q hq hc => ?_
  rw [hnone q hq] at hc
  exact absurd hc (by simp)

/-- After the minus sign of a number there is a digit. -/
theorem not_stops_of_minus {whole tail : List Char} (h : IsInteger whole)
    (htext : '-' :: rest = whole ++ tail) : ¬ Stops Text.isDigit rest := by
  obtain ⟨sign, digits, rfl, hsign, hne, hall⟩ := h
  obtain ⟨digit, digits, rfl⟩ := List.exists_cons_of_ne_nil hne
  have hdigit : Text.isDigit digit = true := hall digit (by simp)
  rcases hsign with rfl | rfl
  · rw [List.nil_append, List.cons_append, List.cons.injEq] at htext
    rw [← htext.1] at hdigit
    exact absurd hdigit (by decide)
  · rw [List.singleton_append, List.cons_append, List.cons.injEq, List.cons_append] at htext
    rw [htext.2, stops_cons, hdigit]
    simp

/-- A minus sign in front of a space begins neither a number nor a comment. -/
theorem minus_matches_none {p : Pattern} (hp : p = real ∨ p = integer ∨ p = comment)
    (hs : Spaced rest) : p.matcher before ('-' :: rest) = none := by
  have hstop := hs.stops (show Text.isDigit ' ' = false by decide)
  refine Option.eq_none_iff_forall_ne_some.2 ?_
  rintro ⟨found, tail⟩ hm
  rcases hp with rfl | rfl | rfl
  · obtain ⟨htext, ⟨whole, digits, rfl, hwhole, -⟩, -⟩ := real_matches_iff.1 hm
    rw [List.append_assoc] at htext
    exact not_stops_of_minus hwhole htext hstop
  · obtain ⟨htext, hwhole, -⟩ := integer_matches_iff.1 hm
    exact not_stops_of_minus hwhole htext hstop
  · have hcomment : andThen (exactly '-') (andThen (exactly '-') (many (· != '\n')))
        ('-' :: rest) = some (found, tail) := hm
    obtain ⟨first, middle, more, h1, h2, rfl⟩ := andThen_eq_some.1 hcomment
    obtain ⟨second, others, after, h3, -⟩ := andThen_eq_some.1 h2
    obtain ⟨htext, rfl⟩ := exactly_eq_some_iff.1 h1
    obtain ⟨rfl, rfl⟩ := exactly_eq_some_iff.1 h3
    rw [List.singleton_append, List.cons.injEq] at htext
    exact hs.ne_cons (by decide) htext.2

theorem firstCut?_operator (h : found ∈ operatorSigns) (hs : Spaced rest) :
    firstCut? before (found ++ rest) = some ⟨operator, found, rest⟩ := by
  have hm : operator.matcher before (found ++ rest) = some (found, rest) :=
    operatorSign_of_spaced h hs
  have hothers : ∀ sign ∈ operatorSigns, ∀ q ∈ earlier operator,
      sign.head?.any q.starts = true →
        sign = ['-'] ∧ (q = real ∨ q = integer ∨ q = comment) := by decide
  cases found with
  | nil => exact absurd h (by decide)
  | cons c tail =>
    refine firstCut?_of_matcher (by decide) hm fun q hq hc => ?_
    obtain ⟨hminus, hcases⟩ := hothers _ h q hq hc
    rw [List.cons.injEq] at hminus
    obtain ⟨rfl, rfl⟩ := hminus
    exact minus_matches_none hcases hs

/-- A lexeme is cut off by its pattern wherever no word character stands before it and a space or
nothing after it, unless it is the `NOT` of `NOT NULL`. -/
theorem firstCut?_of_lexeme {p : Pattern} (h : Lexeme p found)
    (hb : before.any Text.isWord = false) (hs : Spaced rest)
    (hno : p = keyword .notWord → ¬ NullFollows rest) :
    firstCut? before (found ++ rest) = some ⟨p, found, rest⟩ := by
  have hstop := hs.stops (show Text.isWord ' ' = false by decide)
  cases h with
  | keyword h => exact firstCut?_keyword h hb hstop fun hnot => hno (by rw [hnot])
  | notNull h => exact firstCut?_notNull h hb hstop
  | real h => exact firstCut?_real h hs
  | integer h => exact firstCut?_integer h hs
  | length hne hall => exact firstCut?_length hne hall
  | single hp => exact firstCut?_single hp hs
  | operator h => exact firstCut?_operator h hs
  | enclosed hp h => exact firstCut?_enclosed hp h
  | name h => exact firstCut?_name h hb hstop

/-- A lexeme by itself is cut off as a whole. -/
theorem firstCut?_lexeme {p : Pattern} (h : Lexeme p found) :
    firstCut? none found = some ⟨p, found, []⟩ := by
  have hcut : firstCut? none (found ++ []) = some ⟨p, found, []⟩ :=
    firstCut?_of_lexeme h rfl (.inl rfl) fun _ => not_nullFollows_nil
  rwa [List.append_nil] at hcut

/-- A lexeme begins with a character that fits its pattern, and so not with a blank. -/
theorem Lexeme.starts {p : Pattern} (h : Lexeme p found) :
    p ∈ table ∧ ∃ c tail, found = c :: tail ∧ p.starts c = true ∧ Text.isBlank c = false := by
  obtain ⟨hp, hm, -⟩ := firstCut?_eq_some_iff.1 (firstCut?_lexeme h)
  obtain ⟨c, tail, rfl, hc⟩ := starts_of_matcher hm
  have hne : p ≠ blanks := by
    rintro rfl
    cases h
  exact ⟨hp, c, tail, rfl, hc, not_isBlank_of_starts hp hc hne⟩

theorem Lexeme.stops_isBlank {p : Pattern} (h : Lexeme p found) (rest : List Char) :
    Stops Text.isBlank (found ++ rest) := by
  obtain ⟨-, c, tail, rfl, -, hc⟩ := h.starts
  exact stops_cons.2 hc

/-- Where `NULL` follows, it is the key word. -/
theorem Lexeme.eq_null {p : Pattern} (h : Lexeme p found) (hs : Spaced rest)
    (hfollows : NullFollows (' ' :: (found ++ rest))) : p = Pattern.keyword .null := by
  obtain ⟨blanks, second, tail, htext, -, hblank, hspells, hstop⟩ := hfollows
  obtain ⟨rfl, hrest⟩ := eq_of_stops (show [' '] ++ (found ++ rest) = _ from htext)
    Text.isBlank_space (h.stops_isBlank rest) hblank (stops_isBlank_of_spells hspells tail)
  have hword := isWord_of_spells hspells
  have hspaced := hs.stops (show Text.isWord ' ' = false by decide)
  have hwordy : p.isWordy = true := by
    obtain ⟨hp, c, found, rfl, hc, -⟩ := h.starts
    obtain ⟨first, second, rfl⟩ := List.exists_cons_of_ne_nil (ne_nil_of_spells hspells)
    rw [List.cons_append, List.cons_append, List.cons.injEq] at hrest
    obtain ⟨rfl, -⟩ := hrest
    exact isWordy_of_starts hp (hword c (by simp)) (not_isDigit_of_spells hspells c (by simp)) hc
  cases h with
  | keyword h =>
    obtain ⟨rfl, -⟩ := eq_of_stops hrest (isWord_of_spells h) hspaced hword hstop
    rw [eq_of_spells h hspells]
  | notNull h =>
    rw [List.append_assoc, List.append_assoc] at hrest
    obtain ⟨rfl, -⟩ := eq_of_stops hrest (isWord_of_spells h.not)
      (stops_isWord_of_blanks h.blanks_ne_nil h.blank _) hword hstop
    exact absurd (eq_of_spells h.not hspells) (by decide)
  | name h =>
    obtain ⟨rfl, -⟩ := eq_of_stops hrest h.isWord hspaced hword hstop
    exact absurd hspells (h.noKeyword .null)
  | _ => exact absurd hwordy (by simp [isWordy])

end Spaced

end Pattern

end TableScribe
