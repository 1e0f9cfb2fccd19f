import TableScribe.Text.Pieces

/-!
# Where a text is cut at a separator

A separator of several characters may overlap with itself, and a text is cut at its occurrences from
the left: the first one counts, and what follows it is cut in the same way. `splitOn_of_isFirst` and
`splitOn_of_absent` say this of `splitOn`, and `splitOn_eq_pair_iff` follows for texts that are
cut once. Texts that are joined are the pieces of the whole (`splitOn_join`), and its lines if they
are joined by line breaks (`lines_join`).
-/

namespace TableScribe.Text

/-- In the text `front ++ (separator ++ back)` no occurrence of the separator begins earlier. -/
def IsFirst (separator front back : List Char) : Prop :=
  ∀ other rest, front ++ (separator ++ back) = other ++ (separator ++ rest) →
    front.length ≤ other.length

theorem IsFirst.not_prefix {separator front back : List Char} {c : Char}
    (h : IsFirst separator (c :: front) back) :
    ¬ separator <+: c :: (front ++ (separator ++ back)) := by
  rintro ⟨rest, hrest⟩
  exact absurd (h [] rest hrest.symm) (by simp)

theorem IsFirst.tail {separator front back : List Char} {c : Char}
    (h : IsFirst separator (c :: front) back) : IsFirst separator front back := by
  intro other rest heq
  have hle := h (c :: other) rest (congrArg (c :: ·) heq)
  simpa using hle

theorem IsFirst.cons {separator front back : List Char} {c : Char}
    (h : IsFirst separator front back)
    (hno : ¬ separator <+: c :: (front ++ (separator ++ back))) :
    IsFirst separator (c :: front) back := by
  intro other rest heq
  cases other with
  | nil => exact absurd ⟨rest, heq.symm⟩ hno
  | cons first other =>
    have hle := h other rest (List.cons.inj heq).2
    simpa using hle

/-- A separator that stands in a text has a first place there. -/
theorem exists_isFirst {separator text : List Char} (h : separator <:+: text) :
    ∃ front back, text = front ++ (separator ++ back) ∧ IsFirst separator front back := by
  by_cases hstart : separator <+: text
  · obtain ⟨back, rfl⟩ := hstart
    exact ⟨[], back, rfl, fun _ _ _ => Nat.zero_le _⟩
  cases text with
  | nil => exact absurd (List.infix_nil.1 h ▸ List.prefix_refl _) hstart
  | cons c rest =>
    obtain ⟨front, back, rfl, hfirst⟩ :=
      exists_isFirst ((List.infix_cons_iff.1 h).resolve_left hstart)
    exact ⟨c :: front, back, rfl, hfirst.cons hstart⟩

section Split

variable {separator : List Char}

/-- The characters of an occurrence are passed over. -/
theorem splitAfter_eq (skip : Nat) (text : List Char) :
    splitAfter separator skip text = splitOn separator (text.drop skip) := by
  induction text generalizing skip with
  | nil =>
    rw [List.drop_nil, splitAfter]
    rfl
  | cons c rest ih =>
    cases skip with
    | zero => rfl
    | succ skip =>
      rw [splitAfter, ih]
      rfl

theorem splitOn_ne_nil (separator text : List Char) : splitOn separator text ≠ [] := by
  cases text with
  | nil => exact List.cons_ne_nil _ _
  | cons c rest =>
    unfold splitOn splitAfter
    split
    · exact List.cons_ne_nil _ _
    · split <;> exact List.cons_ne_nil _ _

theorem splitOn_separator_append (hne : separator ≠ []) (back : List Char) :
    splitOn separator (separator ++ back) = [] :: splitOn separator back := by
  obtain ⟨c, tail, rfl⟩ := List.exists_cons_of_ne_nil hne
  have hprefix : (c :: tail).isPrefixOf (c :: (tail ++ back)) = true :=
    List.isPrefixOf_iff_prefix.2 (List.prefix_append (c :: tail) back)
  show splitAfter (c :: tail) 0 (c :: (tail ++ back)) = _
  rw [splitAfter, if_pos hprefix, splitAfter_eq, List.length_cons, Nat.add_sub_cancel,
    List.drop_left]

theorem splitOn_cons {c : Char} {rest : List Char} (h : ¬ separator <+: c :: rest) :
    splitOn separator (c :: rest) = (splitOn separator rest).modifyHead (c :: ·) := by
  have hprefix : ¬ separator.isPrefixOf (c :: rest) = true :=
    mt List.isPrefixOf_iff_prefix.1 h
  obtain ⟨piece, pieces, hpieces⟩ := List.exists_cons_of_ne_nil (splitOn_ne_nil separator rest)
  rw [hpieces]
  unfold splitOn at hpieces ⊢
  rw [splitAfter, if_neg hprefix, hpieces]
  rfl

/-- A text is cut at the first occurrence of the separator. -/
theorem splitOn_of_isFirst (hne : separator ≠ []) {front back : List Char}
    (h : IsFirst separator front back) :
    splitOn separator (front ++ (separator ++ back)) = front :: splitOn separator back := by
  induction front with
  | nil => exact splitOn_separator_append hne back
  | cons c front ih =>
    rw [List.cons_append, splitOn_cons h.not_prefix, ih h.tail]
    rfl

/-- Without an occurrence it stays whole. -/
theorem splitOn_of_absent {text : List Char} (h : ¬ separator <:+: text) :
    splitOn separator text = [text] := by
  induction text with
  | nil => rfl
  | cons c rest ih =>
    rw [List.infix_cons_iff, not_or] at h
    rw [splitOn_cons h.1, ih h.2]
    rfl

/-- A text is cut in two if the separator stands in it and not in what follows its first place. -/
theorem splitOn_eq_pair_iff (hne : separator ≠ []) {text first second : List Char} :
    splitOn separator text = [first, second] ↔
      text = first ++ (separator ++ second) ∧ IsFirst separator first second ∧
        ¬ separator <:+: second := by
  constructor
  · intro h
    by_cases hstands : separator <:+: text
    · obtain ⟨front, back, rfl, hfirst⟩ := exists_isFirst hstands
      rw [splitOn_of_isFirst hne hfirst, List.cons.injEq] at h
      obtain ⟨rfl, hback⟩ := h
      have hno : ¬ separator <:+: back := by
        intro hagain
        obtain ⟨middle, last, rfl, hsecond⟩ := exists_isFirst hagain
        rw [splitOn_of_isFirst hne hsecond, List.cons.injEq] at hback
        exact splitOn_ne_nil separator last hback.2
      rw [splitOn_of_absent hno, List.cons.injEq] at hback
      obtain ⟨rfl, -⟩ := hback
      exact ⟨rfl, hfirst, hno⟩
    · rw [splitOn_of_absent hstands] at h
      exact absurd h (by simp)
  · rintro ⟨rfl, hfirst, hno⟩
    rw [splitOn_of_isFirst hne hfirst, splitOn_of_absent hno]

end Split

/-- A separator does not begin where its first character is missing. -/
theorem isFirst_of_not_mem {c : Char} {tail front : List Char} (h : c ∉ front)
    (back : List Char) : IsFirst (c :: tail) front back := by
  intro other rest heq
  rcases List.append_eq_append_iff.1 heq with ⟨more, rfl, -⟩ | ⟨more, rfl, hmore⟩
  · simp
  · cases more with
    | nil => simp
    | cons first more =>
      rw [List.cons_append, List.cons_append, List.cons.injEq] at hmore
      rw [hmore.1] at h
      exact absurd (List.mem_append_right other List.mem_cons_self) h

/-- A text is divided in one way by the first occurrence of a separator. -/
theorem IsFirst.unique {separator front back other rest : List Char}
    (h : IsFirst separator front back) (hother : IsFirst separator other rest)
    (heq : front ++ (separator ++ back) = other ++ (separator ++ rest)) :
    front = other ∧ back = rest := by
  have hlength := Nat.le_antisymm (h other rest heq) (hother front back heq.symm)
  obtain ⟨hfront, htail⟩ := List.append_inj heq hlength
  exact ⟨hfront, List.append_cancel_left htail⟩

/-! ## Joined texts -/

theorem join_empty_cons (text : String) (more : List String) :
    join "" (text :: more) = text ++ join "" more := by
  cases more with
  | nil => exact String.append_empty.symm
  | cons next rest => rw [join_cons_cons, String.append_empty]

theorem join_empty_append (front back : List String) :
    join "" (front ++ back) = join "" front ++ join "" back := by
  induction front with
  | nil => exact String.empty_append.symm
  | cons text more ih => rw [List.cons_append, join_empty_cons, ih, join_empty_cons,
      String.append_assoc]

/-- Every line but the last is followed by the separator. -/
theorem join_concat (separator : String) (lines : List String) (last : String) :
    join separator (lines ++ [last]) =
      join "" (lines.map (· ++ separator)) ++ last := by
  induction lines with
  | nil => exact String.empty_append.symm
  | cons line more ih =>
    obtain ⟨next, rest, hnext⟩ := List.exists_cons_of_ne_nil (List.append_ne_nil_of_right_ne_nil
      more (List.cons_ne_nil last []))
    rw [List.cons_append, hnext, join_cons_cons, ← hnext, ih, List.map_cons, join_empty_cons]
    simp only [String.append_assoc]

theorem absent_of_not_mem {c : Char} {tail text : List Char} (h : c ∉ text) :
    ¬ (c :: tail) <:+: text := fun hstands =>
  h (hstands.subset List.mem_cons_self)

/-- Texts in which a separator does not even begin are the pieces of their joined text. -/
theorem splitOn_join {separator : String} {c : Char} {tail : List Char}
    (hs : separator.toList = c :: tail) {texts : List String} (hne : texts ≠ [])
    (h : ∀ text ∈ texts, c ∉ text.toList) :
    splitOn separator.toList (join separator texts).toList = texts.map String.toList := by
  rw [hs]
  induction texts using join.induct with
  | case1 => exact absurd rfl hne
  | case2 text => exact splitOn_of_absent (absent_of_not_mem (h text List.mem_cons_self))
  | case3 text more hmore ih =>
    obtain ⟨next, rest, rfl⟩ := List.exists_cons_of_ne_nil (l := more) (by assumption)
    have hrest := ih (by simp) fun other hmem => h other (List.mem_cons_of_mem text hmem)
    have hfirst : IsFirst (c :: tail) text.toList (join separator (next :: rest)).toList :=
      isFirst_of_not_mem (h text List.mem_cons_self) _
    rw [join_cons_cons, String.toList_append, String.toList_append, List.append_assoc, hs,
      splitOn_of_isFirst (List.cons_ne_nil c tail) hfirst, hrest]
    rfl

/-- Texts without line breaks are the pieces between those of their joined text. -/
theorem splitOn_join_newline {lines : List String} (hne : lines ≠ [])
    (h : ∀ line ∈ lines, '\n' ∉ line.toList) :
    (join "\n" lines).toList.splitOn '\n' = lines.map String.toList := by
  have hpieces : splitOn "\n".toList (join "\n" lines).toList = lines.map String.toList :=
    splitOn_join String.toList_ofList hne h
  rwa [String.toList_ofList, splitOn_singleton] at hpieces

theorem dropReturn_eq_self {line : List Char} (h : line.getLast? ≠ some '\r') :
    dropReturn line = line :=
  if_neg h

/-- Texts that could be lines are the lines of their joined text. -/
theorem lines_join {texts : List String} (h : ∀ text ∈ texts,
    text ≠ "" ∧ '\n' ∉ text.toList ∧ text.toList.getLast? ≠ some '\r') :
    lines (join "\n" texts).toList = texts.map String.toList := by
  rcases List.eq_nil_or_concat texts with rfl | ⟨front, last, rfl⟩
  · rfl
  · rw [List.concat_eq_append] at h ⊢
    have hfront : (front.map String.toList).map dropReturn = front.map String.toList := by
      rw [List.map_map]
      exact List.map_congr_left fun text hmem =>
        dropReturn_eq_self (h text (List.mem_append_left _ hmem)).2.2
    have hlast : last.toList.isEmpty = false := by
      simpa using (h last (by simp)).1
    unfold lines
    rw [splitOn_singleton, splitOn_join_newline (by simp) fun text hmem => (h text hmem).2.1]
    simp only [List.map_append, List.map_cons, List.map_nil, List.dropLast_concat,
      List.getLast?_concat, hfront]
    simp [hlast]

end TableScribe.Text
