import Mathlib.Data.List.Infix
import TableScribe.Code.Literal

/-!
# The elements of generated code

Generated code consists of signs, comments and literals. A text that is put into a comment or a
literal stays in its place if the code reads back as what was written: the comment ends where the
writer ends it, and the literal stands for the text.

1. `Element` and `write`: what an element looks like.
2. `elementsOf`: the reader. It goes over the code once, a character at a time (`Mode.step`), and
   knows nothing of what was written.
3. `Element.Safe`: the texts that stay in their place. A step keeps what is read so far safe
   (`Mode.Safe.step`), and so does a run (`safe_of_elementsFrom`); an element that is safe is read
   to its end and no further (`elementsFrom_write`).

Together these give `elementsOf_flatMap_write_iff`: written elements read back as themselves if and
only if all of them are safe.
-/

namespace TableScribe.Code

/-! ## Elements -/

def isLineEnd (c : Char) : Bool :=
  c = '\n' ∨ c = '\r' ∨ c = '\u2028' ∨ c = '\u2029'

def isQuote (c : Char) : Bool :=
  c = '\x27' ∨ c = '"'

theorem not_isLineEnd_of_isQuote {c : Char} (h : isQuote c = true) : isLineEnd c = false := by
  obtain rfl | rfl : c = '\x27' ∨ c = '"' := by simpa [isQuote] using h
  all_goals decide

/-- The character stands for itself in code: it begins neither a comment nor a literal nor a
template. -/
def isSign (c : Char) : Bool :=
  !isQuote c && c ≠ '/' && c ≠ '\x60'

inductive Element
  | sign (c : Char)
  /-- A comment up to the end of its line, which goes with it. -/
  | lineComment (text : List Char) (lineEnd : Char)
  | blockComment (text : List Char)
  | literal (delimiter : Char) (text : List Char)
  deriving DecidableEq, Repr

def Element.write : Element → List Char
  | sign c => [c]
  | lineComment text lineEnd => '/' :: '/' :: (text ++ [lineEnd])
  | blockComment text => '/' :: '*' :: (text ++ ['*', '/'])
  | literal delimiter text => delimiter :: (text.flatMap (escaped delimiter) ++ [delimiter])

/-! ## Reading -/

/-- Where the reader is, with the text of the element so far. -/
inductive Mode
  | code
  /-- After a slash that begins a comment. -/
  | slash
  | lineComment (text : List Char)
  | blockComment (text : List Char)
  /-- In a block comment, after a star that is not yet part of its text. -/
  | star (text : List Char)
  | literal (delimiter : Char) (text : List Char)
  /-- In a literal, after a backslash. -/
  | escape (delimiter : Char) (text : List Char)
  deriving DecidableEq, Repr

/-- Reads a character: the element that it completes, if it does, and where the reader is then. A
slash by itself, a template and a line that ends in a literal are refused, and so are escapes of
characters that then stand for something else. -/
def Mode.step : Mode → Char → Option (Option Element × Mode)
  | code, c =>
    if c = '/' then some (none, slash)
    else if isQuote c then some (none, literal c [])
    else if c = '\x60' then none
    else some (some (.sign c), code)
  | slash, c =>
    if c = '/' then some (none, lineComment [])
    else if c = '*' then some (none, blockComment [])
    else none
  | lineComment text, c =>
    if isLineEnd c then some (some (.lineComment text c), code)
    else some (none, lineComment (text ++ [c]))
  | blockComment text, c =>
    if c = '*' then some (none, star text) else some (none, blockComment (text ++ [c]))
  | star text, c =>
    if c = '/' then some (some (.blockComment text), code)
    else if c = '*' then some (none, star (text ++ ['*']))
    else some (none, blockComment (text ++ ['*', c]))
  | literal delimiter text, c =>
    if c = delimiter then some (some (.literal delimiter text), code)
    else if c = '\\' then some (none, escape delimiter text)
    else if isLineEnd c then none
    else some (none, literal delimiter (text ++ [c]))
  | escape delimiter text, c =>
    if c = '\\' ∨ isQuote c then some (none, literal delimiter (text ++ [c])) else none

/-- The elements of a text that is read from the given place on. -/
def elementsFrom : Mode → List Char → Option (List Element)
  | mode, [] => if mode = .code then some [] else none
  | mode, c :: rest =>
    match mode.step c with
    | none => none
    | some (element, next) => (elementsFrom next rest).map (element.toList ++ ·)

def elementsOf (text : List Char) : Option (List Element) :=
  elementsFrom .code text

example : elementsOf "a//b\n\x27c\\\x27\x27".toList =
    some [.sign 'a', .lineComment ['b'] '\n', .literal '\x27' ['c', '\x27']] := by
  decide

theorem elementsFrom_cons {mode next : Mode} {c : Char} {element : Option Element}
    (h : mode.step c = some (element, next)) (rest : List Char) :
    elementsFrom mode (c :: rest) = (elementsFrom next rest).map (element.toList ++ ·) := by
  rw [elementsFrom, h]

/-- A character that completes no element. -/
theorem elementsFrom_cons_silent {mode next : Mode} {c : Char}
    (h : mode.step c = some (none, next)) (rest : List Char) :
    elementsFrom mode (c :: rest) = elementsFrom next rest := by
  simp [elementsFrom_cons h]

/-! ## What stays in its place -/

/-- The text has the two characters that close a block comment. -/
def ClosesComment (text : List Char) : Prop :=
  ['*', '/'] <:+: text

/-- The element is one that is read as it was written. -/
def Element.Safe : Element → Prop
  | sign c => isSign c = true
  | lineComment text lineEnd => (∀ c ∈ text, isLineEnd c = false) ∧ isLineEnd lineEnd = true
  | blockComment text => ¬ ClosesComment text
  | literal delimiter text => isQuote delimiter = true ∧ ∀ c ∈ text, isLineEnd c = false

/-- What is read of an element so far can be the text of a safe one. -/
def Mode.Safe : Mode → Prop
  | code => True
  | slash => True
  | lineComment text => ∀ c ∈ text, isLineEnd c = false
  | blockComment text => ¬ ClosesComment text ∧ text.getLast? ≠ some '*'
  | star text => ¬ ClosesComment text
  | literal delimiter text => isQuote delimiter = true ∧ ∀ c ∈ text, isLineEnd c = false
  | escape delimiter text => isQuote delimiter = true ∧ ∀ c ∈ text, isLineEnd c = false

theorem closesComment_concat {text : List Char} {c : Char} :
    ClosesComment (text ++ [c]) ↔ ClosesComment text ∨ text.getLast? = some '*' ∧ c = '/' := by
  have hsuffix : ['*', '/'] <:+ text ++ [c] ↔ text.getLast? = some '*' ∧ c = '/' := by
    rw [List.suffix_concat_iff, or_iff_right (by simp)]
    constructor
    · rintro ⟨front, heq, hfront⟩
      obtain ⟨hstar, hslash⟩ : ['*'] = front ∧ ['/'] = [c] := List.append_inj' heq rfl
      subst hstar
      exact ⟨List.singleton_suffix_iff_getLast?_eq_some.1 hfront,
        (List.singleton_inj.1 hslash).symm⟩
    · rintro ⟨hlast, rfl⟩
      exact ⟨['*'], rfl, List.singleton_suffix_iff_getLast?_eq_some.2 hlast⟩
  unfold ClosesComment
  rw [List.infix_concat_iff, hsuffix, or_comm]

theorem forall_mem_concat {p : Char → Prop} {text : List Char} {c : Char}
    (h : ∀ other ∈ text, p other) (hc : p c) : ∀ other ∈ text ++ [c], p other := by
  intro other hmem
  rcases List.mem_append.1 hmem with hold | hnew
  · exact h other hold
  · rwa [List.mem_singleton.1 hnew]

/-- A step keeps what is read safe, and the element that it completes is safe. -/
theorem Mode.Safe.step {mode next : Mode} {c : Char} {element : Option Element} (h : mode.Safe)
    (hs : mode.step c = some (element, next)) : (∀ e ∈ element, e.Safe) ∧ next.Safe := by
  cases mode with
  | code =>
    simp only [Mode.step] at hs
    split_ifs at hs with hslash hquote htemplate <;> cases hs
    · exact ⟨by simp, trivial⟩
    · exact ⟨by simp, hquote, by simp⟩
    · refine ⟨?_, trivial⟩
      rintro _ ⟨⟩
      simp [Element.Safe, isSign, hslash, hquote, htemplate]
  | slash =>
    simp only [Mode.step] at hs
    split_ifs at hs <;> cases hs
    · exact ⟨by simp, by simp [Mode.Safe]⟩
    · exact ⟨by simp, by simp [Mode.Safe, ClosesComment]⟩
  | lineComment text =>
    simp only [Mode.step] at hs
    split_ifs at hs with hend <;> cases hs
    · refine ⟨?_, trivial⟩
      rintro _ ⟨⟩
      exact ⟨h, hend⟩
    · exact ⟨by simp, forall_mem_concat h (by simpa using hend)⟩
  | blockComment text =>
    simp only [Mode.step] at hs
    split_ifs at hs with hstar <;> cases hs
    · exact ⟨by simp, h.1⟩
    · refine ⟨by simp, fun hcloses => ?_, by simpa using hstar⟩
      rcases closesComment_concat.1 hcloses with hold | ⟨hlast, -⟩
      · exact h.1 hold
      · exact h.2 hlast
  | star text =>
    simp only [Mode.step] at hs
    split_ifs at hs with hslash hstar <;> cases hs
    · refine ⟨?_, trivial⟩
      rintro _ ⟨⟩
      exact h
    · refine ⟨by simp, fun hcloses => ?_⟩
      rcases closesComment_concat.1 hcloses with hold | ⟨-, heq⟩
      · exact h hold
      · exact absurd heq (by decide)
    · refine ⟨by simp, fun hcloses => ?_, by simpa using hstar⟩
      rw [List.append_cons] at hcloses
      rcases closesComment_concat.1 hcloses with hold | ⟨-, heq⟩
      · rcases closesComment_concat.1 hold with hold | ⟨-, heq⟩
        · exact h hold
        · exact absurd heq (by decide)
      · exact hslash heq
  | literal delimiter text =>
    simp only [Mode.step] at hs
    split_ifs at hs with hcloses hescape hend <;> cases hs
    · refine ⟨?_, trivial⟩
      rintro _ ⟨⟩
      exact h
    · exact ⟨by simp, h⟩
    · exact ⟨by simp, h.1, forall_mem_concat h.2 (by simpa using hend)⟩
  | escape delimiter text =>
    simp only [Mode.step] at hs
    split_ifs at hs with hc
    cases hs
    refine ⟨by simp, h.1, forall_mem_concat h.2 ?_⟩
    rcases hc with rfl | hquote
    · decide
    · exact not_isLineEnd_of_isQuote hquote

/-- Whatever is read is safe. -/
theorem safe_of_elementsFrom {mode : Mode} {text : List Char} {elements : List Element}
    (h : mode.Safe) (hread : elementsFrom mode text = some elements) :
    ∀ element ∈ elements, element.Safe := by
  induction text generalizing mode elements with
  | nil =>
    rw [elementsFrom] at hread
    split_ifs at hread
    cases hread
    simp
  | cons c rest ih =>
    rw [elementsFrom] at hread
    split at hread
    · exact absurd hread (by simp)
    · rename_i completed next hs
      obtain ⟨hcompleted, hnext⟩ := h.step hs
      obtain ⟨more, hmore, rfl⟩ := Option.map_eq_some_iff.1 hread
      intro element hmem
      rcases List.mem_append.1 hmem with hnew | hlater
      · exact hcompleted element (Option.mem_toList.1 hnew)
      · exact ih hnext hmore element hlater

/-! ## Safe elements are read to their end -/

section Write

variable {text : List Char} (before rest : List Char)

theorem elementsFrom_lineComment {lineEnd : Char} (h : ∀ c ∈ text, isLineEnd c = false)
    (hend : isLineEnd lineEnd = true) :
    elementsFrom (.lineComment before) (text ++ lineEnd :: rest) =
      (elementsFrom .code rest).map (.lineComment (before ++ text) lineEnd :: ·) := by
  induction text generalizing before with
  | nil => simp [elementsFrom, Mode.step, hend]
  | cons c more ih =>
    have hc : Mode.step (.lineComment before) c = some (none, .lineComment (before ++ [c])) := by
      simp [Mode.step, h c List.mem_cons_self]
    rw [List.cons_append, elementsFrom_cons_silent hc,
      ih _ fun other hmem => h other (List.mem_cons_of_mem c hmem), List.append_assoc,
      List.singleton_append]

theorem not_closesComment_of_cons {c : Char} (h : ¬ ClosesComment (c :: text)) :
    ¬ ClosesComment text := fun hcloses =>
  h (List.infix_cons_iff.2 (.inr hcloses))

/-- In a comment, and after a star in it that may belong to its text. -/
theorem elementsFrom_blockComment :
    (¬ ClosesComment text →
      elementsFrom (.blockComment before) (text ++ ['*', '/'] ++ rest) =
        (elementsFrom .code rest).map (.blockComment (before ++ text) :: ·)) ∧
    (¬ ClosesComment ('*' :: text) →
      elementsFrom (.star before) (text ++ ['*', '/'] ++ rest) =
        (elementsFrom .code rest).map (.blockComment (before ++ '*' :: text) :: ·)) := by
  induction text generalizing before with
  | nil => constructor <;> simp [elementsFrom, Mode.step, Function.comp_def]
  | cons c more ih =>
    constructor
    · intro h
      by_cases hstar : c = '*'
      · subst hstar
        have hs : Mode.step (.blockComment before) '*' = some (none, .star before) := by
          simp [Mode.step]
        rw [List.cons_append, List.cons_append, elementsFrom_cons_silent hs]
        exact (ih before).2 h
      · have hs : Mode.step (.blockComment before) c =
            some (none, .blockComment (before ++ [c])) := by
          simp [Mode.step, hstar]
        rw [List.cons_append, List.cons_append, elementsFrom_cons_silent hs,
          (ih (before ++ [c])).1 (not_closesComment_of_cons h), List.append_assoc,
          List.singleton_append]
    · intro h
      have hmore := not_closesComment_of_cons h
      by_cases hstar : c = '*'
      · subst hstar
        have hs : Mode.step (.star before) '*' = some (none, .star (before ++ ['*'])) := by
          simp [Mode.step]
        rw [List.cons_append, List.cons_append, elementsFrom_cons_silent hs,
          (ih (before ++ ['*'])).2 hmore, List.append_assoc, List.singleton_append]
      · have hslash : c ≠ '/' := by
          rintro rfl
          exact h (List.infix_cons_iff.2 (.inl (by simp)))
        have hs : Mode.step (.star before) c = some (none, .blockComment (before ++ ['*', c])) := by
          simp [Mode.step, hstar, hslash]
        rw [List.cons_append, List.cons_append, elementsFrom_cons_silent hs,
          (ih (before ++ ['*', c])).1 (not_closesComment_of_cons hmore), List.append_assoc]
        rfl

theorem elementsFrom_literal {delimiter : Char} (hquote : isQuote delimiter = true)
    (h : ∀ c ∈ text, isLineEnd c = false) :
    elementsFrom (.literal delimiter before)
        (text.flatMap (escaped delimiter) ++ delimiter :: rest) =
      (elementsFrom .code rest).map (.literal delimiter (before ++ text) :: ·) := by
  induction text generalizing before with
  | nil => simp [elementsFrom, Mode.step]
  | cons c more ih =>
    have hmore := ih (before ++ [c]) fun other hmem => h other (List.mem_cons_of_mem c hmem)
    rw [List.append_assoc, List.singleton_append] at hmore
    rw [List.flatMap_cons, List.append_assoc, ← hmore]
    unfold escaped
    split
    · rename_i hescaped
      have hne : '\\' ≠ delimiter := by
        rintro rfl
        exact absurd hquote (by decide)
      have hs : Mode.step (.escape delimiter before) c =
          some (none, .literal delimiter (before ++ [c])) := by
        rcases hescaped with rfl | rfl
        · simp [Mode.step]
        · simp [Mode.step, hquote]
      have hescape : Mode.step (.literal delimiter before) '\\' =
          some (none, .escape delimiter before) := by
        simp [Mode.step, hne]
      rw [List.cons_append, List.singleton_append, elementsFrom_cons_silent hescape,
        elementsFrom_cons_silent hs]
    · rename_i hplain
      rw [not_or] at hplain
      have hs : Mode.step (.literal delimiter before) c =
          some (none, .literal delimiter (before ++ [c])) := by
        simp [Mode.step, hplain, h c List.mem_cons_self]
      rw [List.singleton_append, elementsFrom_cons_silent hs]

/-- A safe element is read to its end and no further. -/
theorem elementsFrom_write {element : Element} (h : element.Safe) :
    elementsFrom .code (element.write ++ rest) =
      (elementsFrom .code rest).map (element :: ·) := by
  cases element with
  | sign c =>
    obtain ⟨⟨hquote, hslash⟩, htemplate⟩ : (isQuote c = false ∧ c ≠ '/') ∧ c ≠ '\x60' := by
      simpa [Element.Safe, isSign] using h
    have hs : Mode.step .code c = some (some (.sign c), .code) := by
      simp [Mode.step, hquote, hslash, htemplate]
    exact elementsFrom_cons hs rest
  | lineComment text lineEnd =>
    have hrest := elementsFrom_lineComment [] rest h.1 h.2
    simpa [Element.write, elementsFrom, Mode.step] using hrest
  | blockComment text =>
    have hrest := (elementsFrom_blockComment [] rest).1 h
    simpa [Element.write, elementsFrom, Mode.step] using hrest
  | literal delimiter text =>
    have hslash : delimiter ≠ '/' := by
      rintro rfl
      exact absurd h.1 (by decide)
    have hrest := elementsFrom_literal [] rest h.1 h.2
    simpa [Element.write, elementsFrom, Mode.step, h.1, hslash] using hrest

end Write

/-- Elements are read as they were written if and only if all of them are safe. -/
theorem elementsOf_flatMap_write_iff {elements : List Element} :
    elementsOf (elements.flatMap Element.write) = some elements ↔
      ∀ element ∈ elements, element.Safe := by
  constructor
  · exact fun hread => safe_of_elementsFrom (show Mode.Safe .code from trivial) hread
  · intro h
    unfold elementsOf
    induction elements with
    | nil => rfl
    | cons element rest ih =>
      rw [List.flatMap_cons, elementsFrom_write _ (h element List.mem_cons_self),
        ih fun other hmem => h other (List.mem_cons_of_mem element hmem)]
      rfl

end TableScribe.Code
