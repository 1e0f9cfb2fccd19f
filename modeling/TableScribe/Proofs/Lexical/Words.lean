import Mathlib.Data.List.Forall2
import TableScribe.Proofs.Statement.RoundTrip

/-!
# Words and what they are taken for

A token that begins like a word is a whole word of the text, and its spelling alone decides whether
it is a key word or a name.

1. `caseForms`: the characters that stand for a letter of a key word, one by one, and `FoldsTo`: the
   text has the letters of a key word in this sense.
2. `IsRun`: a longest run of word characters of a text.
3. `exists_cut_of_mem`: every token is a cut of the pattern table, where the text goes on behind
   what stands in front of the token.
4. `words_of_scan`: what this means for the words among the tokens of a text (`ReadAsWord`).
-/

namespace TableScribe

open Matcher Pattern

/-! ## Case folding -/

/-- The characters that are a letter of a key word when case is folded: the capital, the small
letter, the long s for `S` and the Kelvin sign for `K`. -/
def Text.caseForms (letter : Char) : List Char :=
  letter :: letter.toLower ::
    (if letter = 'S' then ['\u017f'] else if letter = 'K' then ['\u212a'] else [])

/-- The text is the key word when case is folded. -/
def FoldsTo (text : List Char) (word : Keyword) : Prop :=
  List.Forall₂ (fun c letter => c ∈ Text.caseForms letter) text word.spelling.toList

theorem mem_caseForms_iff {word : Keyword} {c letter : Char}
    (hletter : letter ∈ word.spelling.toList) :
    c ∈ Text.caseForms letter ↔ Text.foldLetter c = letter := by
  constructor
  · -- Stated with `all`, since the quantifiers could be decided over all characters there are.
    have hall : (word.spelling.toList.all fun letter =>
        (Text.caseForms letter).all (Text.foldLetter · = letter)) = true := by
      cases word <;> decide
    simp only [List.all_eq_true, decide_eq_true_eq] at hall
    exact hall letter hletter c
  · rintro rfl
    have hall : ∀ point ∈ Text.letterPoints,
        Char.ofNat point ∈ Text.caseForms (Text.foldLetter (Char.ofNat point)) := by
      decide +kernel
    have hc := hall c.toNat (Text.mem_letterPoints (Text.isSpelling_of_mem hletter))
    rwa [Char.ofNat_toNat] at hc

/-- The matcher of a key word folds case letter by letter. -/
theorem spells_iff_foldsTo {text : List Char} {word : Keyword} :
    Spells text word ↔ FoldsTo text word := by
  have hfolded : Spells text word ↔
      List.Forall₂ (fun c letter => Text.foldLetter c = letter) text word.spelling.toList := by
    unfold Spells
    rw [← List.forall₂_eq_eq_eq, List.forall₂_map_left_iff]
  unfold FoldsTo
  rw [hfolded, List.forall₂_iff_zip, List.forall₂_iff_zip]
  refine and_congr_right fun _ => forall₂_congr fun c letter => imp_congr_right fun hmem => ?_
  exact (mem_caseForms_iff (List.of_mem_zip hmem).2).symm

/-! ## Longest runs -/

/-- In the text `front ++ (word ++ back)` the word is a longest run of word characters. -/
structure IsRun (front word back : List Char) : Prop where
  ne_nil : word ≠ []
  isWord : ∀ c ∈ word, Text.isWord c = true
  starts : front.getLast?.any Text.isWord = false
  stops : Stops Text.isWord back

/-- The text begins with a word character that is no digit. -/
def BeginsWord (text : List Char) : Prop :=
  ∃ c ∈ text.head?, Text.isWord c = true ∧ Text.isDigit c = false

theorem isWordy_of_beginsWord {p : Pattern} {before : Option Char} {found rest : List Char}
    (h : firstCut? before (found ++ rest) = some ⟨p, found, rest⟩) (hbegins : BeginsWord found) :
    p.isWordy = true := by
  obtain ⟨hp, hm⟩ := matcher_of_firstCut? h
  obtain ⟨c, tail, htext, hstarts⟩ := starts_of_matcher hm
  obtain ⟨first, hfirst, hword, hdigit⟩ := hbegins
  obtain ⟨others, rfl⟩ := List.head?_eq_some_iff.1 hfirst
  rw [List.cons_append, List.cons.injEq] at htext
  rw [← htext.1] at hstarts
  exact isWordy_of_starts hp hword hdigit hstarts

theorem beginsWord_of_spells {found : List Char} {word : Keyword} (h : Spells found word)
    (rest : List Char) : BeginsWord (found ++ rest) := by
  obtain ⟨c, tail, rfl⟩ := List.exists_cons_of_ne_nil (ne_nil_of_spells h)
  exact ⟨c, rfl, isWord_of_spells h c List.mem_cons_self,
    not_isDigit_of_spells h c List.mem_cons_self⟩

/-- Key words, `NOT NULL` and names begin like a word, and nothing else does. -/
theorem beginsWord_iff {p : Pattern} {before : Option Char} {found rest : List Char}
    {kind : TokenKind} (h : firstCut? before (found ++ rest) = some ⟨p, found, rest⟩)
    (hk : p.kind? = some kind) : BeginsWord found ↔ p.isWordy = true := by
  refine ⟨isWordy_of_beginsWord h, fun hwordy => ?_⟩
  cases lexeme_of_firstCut? h hk with
  | keyword hspells =>
    rw [← List.append_nil found]
    exact beginsWord_of_spells hspells []
  | notNull hspells => exact beginsWord_of_spells hspells.not _
  | name hname =>
    obtain ⟨c, tail, rfl⟩ := List.exists_cons_of_ne_nil hname.ne_nil
    exact ⟨c, rfl, hname.isWord c List.mem_cons_self, hname.noDigit c rfl⟩
  | _ => exact absurd hwordy (by simp [isWordy])

/-! ## The words among the tokens -/

/-- Key words, names and `NOT NULL`. -/
def TokenKind.isWordy : TokenKind → Bool
  | keyword _ | notNull | name => true
  | _ => false

theorem isWordy_kind {p : Pattern} {kind : TokenKind} (hp : p ∈ table)
    (hk : p.kind? = some kind) : kind.isWordy = p.isWordy := by
  have hall : ∀ p ∈ table, ∀ kind ∈ p.kind?, kind.isWordy = p.isWordy := by
    decide
  exact hall p hp kind hk

/-- Key words, names and `NOT NULL` have a pattern each. -/
theorem kind_eq_iff {p q : Pattern} {kind other : TokenKind} (hp : p ∈ table) (hq : q ∈ table)
    (hk : p.kind? = some kind) (ho : q.kind? = some other) (hwordy : other.isWordy = true) :
    kind = other ↔ p = q := by
  have hall : ∀ q ∈ table, q.kind?.any TokenKind.isWordy = true →
      ∀ p ∈ table, p.kind? = q.kind? → p = q := by
    decide
  constructor
  · rintro rfl
    exact hall q hq (by rw [ho, Option.any_some, hwordy]) p hp (hk.trans ho.symm)
  · rintro rfl
    exact Option.some.inj (hk.symm.trans ho)

/-- What a token is that lies in the text `front ++ (lexeme ++ back)`, as far as words go. -/
structure ReadAsWord (front : List Char) (token : Token) (back : List Char) : Prop where
  /-- Key words, names and `NOT NULL` are the tokens that begin like a word. -/
  begins : BeginsWord token.lexeme.toList ↔ token.kind.isWordy = true
  /-- No word character stands directly in front of a word or behind it. -/
  run : BeginsWord token.lexeme.toList → token.kind ≠ .notNull →
    IsRun front token.lexeme.toList back
  keyword : BeginsWord token.lexeme.toList → token.kind ≠ .notNull →
    ∀ word, token.kind = .keyword word ↔ FoldsTo token.lexeme.toList word
  name : BeginsWord token.lexeme.toList → token.kind ≠ .notNull →
    (token.kind = .name ↔ ∀ word, ¬ FoldsTo token.lexeme.toList word)
  notNull : token.kind = .notNull → ∃ first blanks second,
    token.lexeme.toList = first ++ (blanks ++ second) ∧
      FoldsTo first .notWord ∧ IsRun front first (blanks ++ (second ++ back)) ∧
      blanks ≠ [] ∧ (∀ c ∈ blanks, Text.isBlank c = true) ∧
      FoldsTo second .null ∧ IsRun (front ++ (first ++ blanks)) second back
  /-- Behind a lone `NOT` there is no `NULL` with white space alone between them. -/
  apart : token.kind = .keyword .notWord → ∀ blanks second after,
    back = blanks ++ (second ++ after) → (∀ c ∈ blanks, Text.isBlank c = true) →
      FoldsTo second .null →
        ¬ IsRun (front ++ (token.lexeme.toList ++ blanks)) second after

section Cut

variable {p : Pattern} {front found back : List Char}

theorem isRun_of_spells {word : Keyword} (h : Spells found word)
    (hstarts : front.getLast?.any Text.isWord = false) (hstops : Stops Text.isWord back) :
    IsRun front found back :=
  ⟨ne_nil_of_spells h, isWord_of_spells h, hstarts, hstops⟩

/-- A word that is cut off is a longest run, and its pattern is that of the key word it spells. -/
theorem word_of_firstCut?
    (h : firstCut? front.getLast? (found ++ back) = some ⟨p, found, back⟩)
    (hwordy : p.isWordy = true) (hno : p ≠ notNull) :
    IsRun front found back ∧ (∀ word, p = keyword word ↔ FoldsTo found word) ∧
      (p = name ↔ ∀ word, ¬ FoldsTo found word) := by
  have hm := (matcher_of_firstCut? h).2
  simp only [← spells_iff_foldsTo]
  cases p with
  | keyword given =>
    obtain ⟨-, hspells, hstarts, hstops⟩ := keyword_matches_iff.1 hm
    refine ⟨isRun_of_spells hspells hstarts hstops, fun word => ⟨?_, fun hword => ?_⟩, ?_⟩
    · rintro ⟨⟩
      exact hspells
    · rw [eq_of_spells hspells hword]
    · exact iff_of_false (by simp) fun hnone => hnone given hspells
  | name =>
    obtain ⟨-, hne, hword, hstarts, hstops⟩ := name_matches_iff.1 hm
    cases lexeme_of_firstCut? h rfl with
    | name hname =>
      refine ⟨⟨hne, hword, hstarts, hstops⟩, fun word => ?_, iff_of_true rfl hname.noKeyword⟩
      exact iff_of_false (by simp) (hname.noKeyword word)
  | notNull => exact absurd rfl hno
  | _ => exact absurd hwordy (by simp [isWordy])

theorem getLast?_append_blanks {blanks : List Char} (hne : blanks ≠ [])
    (h : ∀ c ∈ blanks, Text.isBlank c = true) (text : List Char) :
    (text ++ blanks).getLast?.any Text.isWord = false := by
  rw [List.getLast?_append, List.getLast?_eq_some_getLast hne, Option.some_or, Option.any_some]
  exact Text.not_isWord_of_isBlank (h _ (List.getLast_mem hne))

theorem notNull_of_firstCut?
    (h : firstCut? front.getLast? (found ++ back) = some ⟨notNull, found, back⟩) :
    ∃ first blanks second, found = first ++ (blanks ++ second) ∧
      FoldsTo first .notWord ∧ IsRun front first (blanks ++ (second ++ back)) ∧
      blanks ≠ [] ∧ (∀ c ∈ blanks, Text.isBlank c = true) ∧
      FoldsTo second .null ∧ IsRun (front ++ (first ++ blanks)) second back := by
  obtain ⟨first, blanks, second, hspells, hfound, -, hstarts, hstops⟩ :=
    notNull_matches_iff.1 (matcher_of_firstCut? h).2
  have hbetween := stops_isWord_of_blanks hspells.blanks_ne_nil hspells.blank (second ++ back)
  have hbehind : (front ++ (first ++ blanks)).getLast?.any Text.isWord = false := by
    rw [← List.append_assoc]
    exact getLast?_append_blanks hspells.blanks_ne_nil hspells.blank _
  exact ⟨first, blanks, second, hfound, spells_iff_foldsTo.1 hspells.not,
    isRun_of_spells hspells.not hstarts hbetween, hspells.blanks_ne_nil, hspells.blank,
    spells_iff_foldsTo.1 hspells.null, isRun_of_spells hspells.null hbehind hstops⟩

/-- A lone `NOT` would have been taken together with a `NULL` behind it. -/
theorem apart_of_firstCut?
    (h : firstCut? front.getLast? (found ++ back) = some ⟨keyword .notWord, found, back⟩)
    {blanks second after : List Char} (hback : back = blanks ++ (second ++ after))
    (hblank : ∀ c ∈ blanks, Text.isBlank c = true) (hnull : FoldsTo second .null) :
    ¬ IsRun (front ++ (found ++ blanks)) second after := by
  intro hrun
  obtain ⟨-, hnot, -, hstops⟩ := keyword_matches_iff.1 (matcher_of_firstCut? h).2
  have hspells := spells_iff_foldsTo.2 hnull
  by_cases hnil : blanks = []
  · -- With nothing between them the two would be one run of word characters.
    rw [hback, hnil, List.nil_append] at hstops
    obtain ⟨c, tail, rfl⟩ := List.exists_cons_of_ne_nil hrun.ne_nil
    rw [List.cons_append, stops_cons, hrun.isWord c List.mem_cons_self] at hstops
    exact absurd hstops (by simp)
  · exact not_nullFollows_of_firstCut? h rfl
      ⟨blanks, second, after, hback, hnil, hblank, hspells, hrun.stops⟩

end Cut

theorem readAsWord_of_firstCut? {p : Pattern} {front back : List Char} {token : Token}
    (h : firstCut? front.getLast? (token.lexeme.toList ++ back) =
      some ⟨p, token.lexeme.toList, back⟩)
    (hk : p.kind? = some token.kind) : ReadAsWord front token back := by
  have hp := (matcher_of_firstCut? h).1
  have hbegins := beginsWord_iff h hk
  have hkeyword (word : Keyword) : token.kind = .keyword word ↔ p = keyword word :=
    kind_eq_iff hp (keyword_mem_table word) hk rfl rfl
  have hnotNull : token.kind = .notNull ↔ p = notNull := kind_eq_iff hp (by decide) hk rfl rfl
  have hname : token.kind = .name ↔ p = name := kind_eq_iff hp (by decide) hk rfl rfl
  refine ⟨?_, ?_, ?_, ?_, ?_, ?_⟩
  · rw [hbegins, isWordy_kind hp hk]
  · exact fun hword hno => (word_of_firstCut? h (hbegins.1 hword) (mt hnotNull.2 hno)).1
  · intro hword hno word
    rw [hkeyword]
    exact (word_of_firstCut? h (hbegins.1 hword) (mt hnotNull.2 hno)).2.1 word
  · intro hword hno
    rw [hname]
    exact (word_of_firstCut? h (hbegins.1 hword) (mt hnotNull.2 hno)).2.2
  · intro hkind
    rw [hnotNull.1 hkind] at h
    exact notNull_of_firstCut? h
  · intro hkind blanks second after hback hblank hnull
    rw [(hkeyword .notWord).1 hkind] at h
    exact apart_of_firstCut? h hback hblank hnull

/-! ## The tokens of a text -/

/-- A cut adds at most its own token. -/
theorem mem_cut_tokens {cut : Cut} {offset : Nat} {later : List Token} {token : Token}
    (h : token ∈ cut.tokens offset later) :
    token ∈ later ∨ ∃ kind, cut.pattern.kind? = some kind ∧
      token = ⟨kind, String.ofList cut.found, offset, offset + byteLength cut.found⟩ := by
  unfold Cut.tokens at h
  cases hk : cut.pattern.kind? with
  | none =>
    rw [hk] at h
    exact .inl h
  | some kind =>
    rw [hk] at h
    rcases List.mem_cons.1 h with htoken | hlater
    · exact .inr ⟨kind, rfl, htoken⟩
    · exact .inl hlater

/-- Every token is what is cut off at its place, where the text goes on behind what stands in front
of it. -/
theorem exists_cut_of_mem {front text rest : List Char} {cuts : List Cut}
    (h : Cuts front.getLast? text cuts rest) {offset : Nat} {token : Token}
    (hmem : token ∈ tokensOf offset cuts) :
    ∃ p passed back, text = passed ++ (token.lexeme.toList ++ back) ∧
      token.start = offset + byteLength passed ∧
      token.stop = token.start + byteLength token.lexeme.toList ∧ p.kind? = some token.kind ∧
      firstCut? (front ++ passed).getLast? (token.lexeme.toList ++ back) =
        some ⟨p, token.lexeme.toList, back⟩ := by
  -- What has been cut off goes to the front, where word boundaries look at its last character.
  induction cuts generalizing front text offset with
  | nil => exact absurd hmem (by simp [tokensOf])
  | cons cut cuts ih =>
    obtain _ | ⟨hcut, hcuts⟩ := h
    have htext := found_append_rest hcut
    rcases mem_cut_tokens hmem with hlater | ⟨kind, hk, rfl⟩
    · rw [← getLast?_append_found hcut front] at hcuts
      obtain ⟨p, passed, back, hrest, hstart, hstop, hk, hthere⟩ := ih hcuts hlater
      refine ⟨p, cut.found ++ passed, back, ?_, ?_, hstop, hk, ?_⟩
      · rw [← htext, hrest, List.append_assoc]
      · rw [hstart, byteLength_append, Nat.add_assoc]
      · rw [← List.append_assoc]
        exact hthere
    · refine ⟨cut.pattern, [], cut.rest, ?_, rfl, ?_, hk, ?_⟩
      all_goals
        rw [String.toList_ofList]
      · exact htext.symm
      · rw [List.append_nil, htext]
        exact hcut

/-- Every token of a text lies where it says, and as a word it is a longest run of word characters;
it is the key word that it spells, in any letter case, and else a name. `NOT NULL` is two such words
with white space alone between them, which is never found around a lone `NOT`. -/
theorem words_of_scan {statement : String} {tokens : List Token}
    (h : scan statement = .ok tokens) :
    ∀ token ∈ tokens, ∃ front back,
      statement.toList = front ++ (token.lexeme.toList ++ back) ∧
      token.start = byteLength front ∧
      token.stop = token.start + byteLength token.lexeme.toList ∧
      ReadAsWord front token back := by
  intro token hmem
  obtain ⟨cuts, hcuts, rfl⟩ := cuts_of_scan h
  have hbegin : Cuts (List.getLast? []) statement.toList cuts [] := hcuts
  obtain ⟨p, front, back, htext, hstart, hstop, hk, hcut⟩ := exists_cut_of_mem hbegin hmem
  rw [Nat.zero_add] at hstart
  exact ⟨front, back, htext, hstart, hstop, readAsWord_of_firstCut? hcut hk⟩

/-- A text with a Kelvin sign in a word, a key word at the beginning of a name and between signs,
and `NULL` behind `NOT` with a line break or a comment between them. -/
def mixedText : String :=
  "int_1 \u212aey,iNt\x27NULL\x27Not\t\nnuLL-1 NOT--c\nNULL"

def mixedTokens : List Token :=
  [⟨.name, "int_1", 0, 5⟩, ⟨.keyword .key, "\u212aey", 6, 11⟩, ⟨.comma, ",", 11, 12⟩,
    ⟨.keyword .int, "iNt", 12, 15⟩, ⟨.stringLiteral, "\x27NULL\x27", 15, 21⟩,
    ⟨.notNull, "Not\t\nnuLL", 21, 30⟩, ⟨.integerLiteral, "-1", 30, 32⟩,
    ⟨.keyword .notWord, "NOT", 33, 36⟩, ⟨.keyword .null, "NULL", 40, 44⟩]

theorem words_of_scan_mixed :
    scan mixedText = .ok mixedTokens ∧
      (∀ token ∈ mixedTokens, ∃ front back,
        mixedText.toList = front ++ (token.lexeme.toList ++ back) ∧
        token.start = byteLength front ∧ ReadAsWord front token back) ∧
      ∃ front back, mixedText.toList = front ++ ("iNt".toList ++ back) ∧
        byteLength front = 12 ∧ IsRun front "iNt".toList back := by
  have hscan : scan mixedText = .ok mixedTokens := scan_eq_ok_of_toOption (by decide +kernel)
  have hwords := words_of_scan hscan
  refine ⟨hscan, fun token hmem => ?_, ?_⟩
  · obtain ⟨front, back, htext, hstart, -, hword⟩ := hwords token hmem
    exact ⟨front, back, htext, hstart, hword⟩
  · obtain ⟨front, back, htext, hstart, -, hword⟩ :=
      hwords ⟨.keyword .int, "iNt", 12, 15⟩ (by decide)
    exact ⟨front, back, htext, hstart.symm, hword.run (hword.begins.2 rfl) (by decide)⟩

end TableScribe
