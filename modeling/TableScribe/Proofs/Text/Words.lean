import TableScribe.Text.Pieces
import TableScribe.Text.Word

/-!
# The words of a text

`wordsOf` reads the words off a text, its longest runs of word characters. A character that is in no
word cuts a text in two (`wordsOf_append_cons`), and so a list of words is read back from its joined
text whatever stands between them (`wordsOf_join`).
-/

namespace TableScribe.Text

def wordsOf (text : List Char) : List String :=
  ((text.splitOnP fun c => !isWord c).filter (· ≠ [])).map String.ofList

def IsOneWord (text : String) : Prop :=
  text ≠ "" ∧ ∀ c ∈ text.toList, isWord c = true

instance (text : String) : Decidable (IsOneWord text) :=
  decidable_of_iff (text ≠ "" ∧ text.toList.all isWord = true) (by simp [IsOneWord])

/-- No character of the text is in a word. -/
def IsGap (text : List Char) : Prop :=
  ∀ c ∈ text, isWord c = false

instance (text : List Char) : Decidable (IsGap text) :=
  decidable_of_iff (text.all (!isWord ·) = true) (by simp [IsGap])

theorem IsOneWord.not_mem {word : String} {c : Char} (h : IsOneWord word)
    (hc : isWord c = false) : c ∉ word.toList := fun hmem => by
  simp [h.2 c hmem] at hc

example : wordsOf "  a_1 = ?, b".toList = ["a_1", "b"] := by
  decide

theorem wordsOf_append_cons {c : Char} (hc : isWord c = false) (front back : List Char) :
    wordsOf (front ++ c :: back) = wordsOf front ++ wordsOf back := by
  unfold wordsOf
  rw [List.splitOnP_append_cons front back (by simp [hc]), List.filter_append, List.map_append]

theorem wordsOf_nil : wordsOf [] = [] := by
  simp [wordsOf, List.splitOnP_nil]

theorem wordsOf_gap_append {gap : List Char} (h : IsGap gap)
    (text : List Char) : wordsOf (gap ++ text) = wordsOf text := by
  induction gap with
  | nil => rfl
  | cons c rest ih =>
    have hcut := wordsOf_append_cons (h c List.mem_cons_self) [] (rest ++ text)
    rw [List.nil_append, wordsOf_nil, List.nil_append] at hcut
    rw [List.cons_append, hcut, ih fun other hmem => h other (List.mem_cons_of_mem c hmem)]

theorem wordsOf_append_gap {gap : List Char} (h : IsGap gap)
    (text : List Char) : wordsOf (text ++ gap) = wordsOf text := by
  cases gap with
  | nil => rw [List.append_nil]
  | cons c rest =>
    have hrest := wordsOf_gap_append (fun other hmem => h other (List.mem_cons_of_mem c hmem)) []
    rw [List.append_nil, wordsOf_nil] at hrest
    rw [wordsOf_append_cons (h c List.mem_cons_self), hrest, List.append_nil]

theorem wordsOf_of_isOneWord {word : String} (h : IsOneWord word) :
    wordsOf word.toList = [word] := by
  have hne : word.toList ≠ [] := by simpa using h.1
  unfold wordsOf
  rw [List.splitOnP_eq_singleton fun c hc => by simp [h.2 c hc]]
  simp [h.1]

/-- The words of joined texts are those of the texts, if the separator keeps them apart. -/
theorem wordsOf_join {separator : String} (hne : separator ≠ "")
    (hs : IsGap separator.toList) (texts : List String) :
    wordsOf (join separator texts).toList = texts.flatMap fun text => wordsOf text.toList := by
  obtain ⟨c, gap, hgap⟩ := List.exists_cons_of_ne_nil (l := separator.toList) (by simpa using hne)
  rw [hgap] at hs
  induction texts using join.induct with
  | case1 => exact wordsOf_nil
  | case2 text => simp [join_singleton]
  | case3 text more _ ih =>
    obtain ⟨next, rest, rfl⟩ := List.exists_cons_of_ne_nil (l := more) (by assumption)
    rw [join_cons_cons, String.toList_append, String.toList_append, hgap, List.append_assoc,
      List.cons_append, wordsOf_append_cons (hs c List.mem_cons_self),
      wordsOf_gap_append fun other hmem => hs other (List.mem_cons_of_mem c hmem), ih]
    rfl

theorem flatMap_wordsOf {words : List String} (h : ∀ word ∈ words, IsOneWord word) :
    (words.flatMap fun word => wordsOf word.toList) = words := by
  induction words with
  | nil => rfl
  | cons word rest ih =>
    rw [List.flatMap_cons, wordsOf_of_isOneWord (h word List.mem_cons_self),
      ih fun other hmem => h other (List.mem_cons_of_mem word hmem)]
    rfl

/-- The characters of joined texts are those of the separator and of the texts. -/
theorem forall_mem_join {p : Char → Prop} {separator : String} {texts : List String}
    (hs : ∀ c ∈ separator.toList, p c) (h : ∀ text ∈ texts, ∀ c ∈ text.toList, p c) :
    ∀ c ∈ (join separator texts).toList, p c := by
  induction texts using join.induct with
  | case1 => simp [join_nil]
  | case2 text => exact h text List.mem_cons_self
  | case3 text more _ ih =>
    obtain ⟨next, rest, rfl⟩ := List.exists_cons_of_ne_nil (l := more) (by assumption)
    have hrest := ih fun other hmem => h other (List.mem_cons_of_mem text hmem)
    rw [join_cons_cons, String.toList_append, String.toList_append]
    exact List.forall_mem_append.2
      ⟨List.forall_mem_append.2 ⟨h text List.mem_cons_self, hs⟩, hrest⟩

theorem not_mem_join {separator : String} {texts : List String} {c : Char}
    (hs : c ∉ separator.toList) (h : ∀ text ∈ texts, c ∉ text.toList) :
    c ∉ (join separator texts).toList := fun hmem =>
  forall_mem_join (p := (· ≠ c)) (fun _ hother => ne_of_mem_of_not_mem hother hs)
    (fun text htext _ hother => ne_of_mem_of_not_mem hother (h text htext)) c hmem rfl

end TableScribe.Text
