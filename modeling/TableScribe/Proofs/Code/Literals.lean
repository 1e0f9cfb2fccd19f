import TableScribe.Code.Literal

/-!
# Literals are read back

The inside of a literal is what two passes over its text make of it: the first doubles the
backslashes, the second puts a backslash in front of every delimiter (`inPasses`). In the other
order, the backslashes in front of delimiters would be doubled as well.

A literal is read in one pass from its opening delimiter on (`readInside`): a backslash stands for
the character after it, and the first delimiter that is not such a character ends the literal. No
character is refused, not even the end of a line. What is behind that delimiter is not looked at
(`readInside_append`), so that a literal that is read to its last character has no beginning that
could be read as one.
-/

namespace TableScribe.Code

/-! ## Two passes -/

/-- The text with `new` in place of every `old`. -/
def substitute (old : Char) (new text : List Char) : List Char :=
  text.flatMap fun c => if c = old then new else [c]

/-- The text with every backslash doubled, and then with a backslash in front of every delimiter. -/
def inPasses (delimiter : Char) (text : List Char) : List Char :=
  substitute delimiter ['\\', delimiter] (substitute '\\' ['\\', '\\'] text)

section Passes

variable {delimiter : Char}

theorem inPasses_cons (c : Char) (rest : List Char) :
    inPasses delimiter (c :: rest) = inPasses delimiter [c] ++ inPasses delimiter rest := by
  unfold inPasses substitute
  rw [← List.flatMap_append, ← List.flatMap_append, List.singleton_append]

/-- The second pass leaves the doubled backslashes of the first as they are. -/
theorem inPasses_single (h : delimiter ≠ '\\') (c : Char) :
    inPasses delimiter [c] = escaped delimiter c := by
  unfold inPasses substitute escaped
  by_cases hc : c = '\\'
  · simp [hc, h.symm]
  · by_cases hd : c = delimiter
    · simp [hd, h]
    · simp [hc, hd]

/-- A literal is written as if in two passes. -/
theorem flatMap_escaped_eq (h : delimiter ≠ '\\') (text : List Char) :
    text.flatMap (escaped delimiter) = inPasses delimiter text := by
  induction text with
  | nil => rfl
  | cons c rest ih => rw [List.flatMap_cons, ih, inPasses_cons c rest, inPasses_single h]

end Passes

/-! ## Reading -/

/-- Reads on inside a literal, behind a backslash or not: the text up to the delimiter that ends the
literal, and what is behind that delimiter. -/
def readInside (delimiter : Char) : (escape : Bool) → List Char → Option (List Char × List Char)
  | _, [] => none
  | true, c :: rest => (readInside delimiter false rest).map (Prod.map (c :: ·) id)
  | false, c :: rest =>
    if c = '\\' then readInside delimiter true rest
    else if c = delimiter then some ([], rest)
    else (readInside delimiter false rest).map (Prod.map (c :: ·) id)

section Reading

variable {delimiter : Char}

theorem readInside_escaped (c : Char) (rest : List Char) :
    readInside delimiter false (escaped delimiter c ++ rest) =
      (readInside delimiter false rest).map (Prod.map (c :: ·) id) := by
  unfold escaped
  split
  · rw [List.cons_append, List.singleton_append, readInside, if_pos rfl, readInside]
  · rename_i hplain
    rw [not_or] at hplain
    rw [List.singleton_append, readInside, if_neg hplain.1, if_neg hplain.2]

/-- The inside of a literal is read up to the delimiter behind it, and gives the text. -/
theorem readInside_flatMap_escaped (h : delimiter ≠ '\\') (text after : List Char) :
    readInside delimiter false (text.flatMap (escaped delimiter) ++ delimiter :: after) =
      some (text, after) := by
  induction text with
  | nil => rw [List.flatMap_nil, List.nil_append, readInside, if_neg h, if_pos rfl]
  | cons c rest ih =>
    rw [List.flatMap_cons, List.append_assoc, readInside_escaped, ih]
    rfl

example : readInside '"' false (inPasses '"' ['\\', '"', '\\'] ++ ['"', ';']) =
    some (['\\', '"', '\\'], [';']) := by
  decide

/-- A literal in front of a text determines what it stands for and where it ends. -/
theorem literal_append_inj (h : delimiter ≠ '\\') {one other : String} {back rest : List Char}
    (heq : (literal delimiter one).toList ++ back = (literal delimiter other).toList ++ rest) :
    one = other ∧ back = rest := by
  rw [toList_literal, toList_literal, List.cons_append, List.cons_append, List.append_assoc,
    List.append_assoc, List.singleton_append, List.singleton_append] at heq
  have hread := readInside_flatMap_escaped h one.toList back
  rw [(List.cons.inj heq).2, readInside_flatMap_escaped h] at hread
  obtain ⟨hlist, hback⟩ : other.toList = one.toList ∧ rest = back := by simpa using hread
  exact ⟨String.toList_inj.1 hlist.symm, hback.symm⟩

/-- Where the literal ends does not depend on what is behind it. -/
theorem readInside_append {escape : Bool} {front text rest : List Char}
    (h : readInside delimiter escape front = some (text, rest)) (back : List Char) :
    readInside delimiter escape (front ++ back) = some (text, rest ++ back) := by
  fun_induction readInside delimiter escape front generalizing text with
  | case1 => exact absurd h (by simp)
  | case2 c front ih =>
    obtain ⟨⟨found, left⟩, hread, heq⟩ := Option.map_eq_some_iff.1 h
    obtain ⟨rfl, rfl⟩ : c :: found = text ∧ left = rest := by simpa using heq
    rw [List.cons_append, readInside, ih hread]
    rfl
  | case3 front ih =>
    rw [List.cons_append, readInside, if_pos rfl]
    exact ih h
  | case4 front hescape =>
    obtain ⟨rfl, rfl⟩ : [] = text ∧ front = rest := by simpa using h
    rw [List.cons_append, readInside, if_neg hescape, if_pos rfl]
  | case5 c front hescape hcloses ih =>
    obtain ⟨⟨found, left⟩, hread, heq⟩ := Option.map_eq_some_iff.1 h
    obtain ⟨rfl, rfl⟩ : c :: found = text ∧ left = rest := by simpa using heq
    rw [List.cons_append, readInside, if_neg hescape, if_neg hcloses, ih hread]
    rfl

end Reading

/-! ## Both ways -/

/-- The function writes every text as a literal with the delimiter, from which the text is read
back. -/
structure ReadsBack (delimiter : Char) (quote : String → String) : Prop where
  written : ∀ text,
    (quote text).toList = delimiter :: (inPasses delimiter text.toList ++ [delimiter])
  /-- A literal is read to its last character, and what is behind it is left. -/
  read : ∀ text after,
    readInside delimiter false ((quote text).toList.tail ++ after) = some (text.toList, after)
  /-- No beginning of a literal ends it. -/
  unclosed : ∀ text front back, (quote text).toList = delimiter :: (front ++ back) → back ≠ [] →
    readInside delimiter false front = none
  injective : Function.Injective quote

theorem readsBack_literal {delimiter : Char} (h : delimiter ≠ '\\') :
    ReadsBack delimiter (literal delimiter) := by
  have hread : ∀ text after, readInside delimiter false
      ((literal delimiter text).toList.tail ++ after) = some (text.toList, after) := by
    intro text after
    rw [toList_literal, List.tail_cons, List.append_assoc, List.singleton_append]
    exact readInside_flatMap_escaped h text.toList after
  refine ⟨fun text => ?_, hread, fun text front back hsplit hback => ?_, fun text other heq => ?_⟩
  · rw [toList_literal, flatMap_escaped_eq h]
  · -- A beginning that is read as a literal would leave what is behind it.
    refine Option.eq_none_iff_forall_ne_some.2 fun ⟨found, rest⟩ hfront => hback ?_
    have hwhole := hread text []
    rw [List.append_nil, hsplit, List.tail_cons, readInside_append hfront back] at hwhole
    obtain ⟨-, hrest⟩ : found = text.toList ∧ rest ++ back = [] := by simpa using hwhole
    exact (List.append_eq_nil_iff.1 hrest).2
  · have hboth := hread text []
    rw [heq, hread other []] at hboth
    obtain hlist : other.toList = text.toList := by simpa using hboth
    exact String.toList_inj.1 hlist.symm

/-- Texts between single quotes and texts between double quotes are read back from their literals,
whatever characters they have. -/
theorem quoted_readsBack : ReadsBack '\x27' singleQuoted ∧ ReadsBack '"' doubleQuoted := by
  constructor
  · exact readsBack_literal (by decide)
  · exact readsBack_literal (by decide)

end TableScribe.Code
