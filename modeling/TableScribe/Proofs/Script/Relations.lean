import Mathlib.Data.List.Induction
import Mathlib.Data.List.Nodup
import TableScribe.Script.Relations
import TableScribe.Proofs.Script.Statements
import TableScribe.Proofs.Text.Separators

/-!
# The relations of a file

A file says of some tables what they extend, and says it again where it changes its mind: the last
line about a child has its parent, and the first one its place.

1. `States`: the relation that a line states, with one occurrence of the separator in the trimmed
   line.
2. `Records` compares a list of relations with the lines of a file: one relation for each child that
   a line is about, in the order of the first lines about them, with the parent of the last.
   `records_relationsIn` is the induction over the lines, one line at the end at a time.
3. `relationsOf_exact` says this of files, and that relations of solid names are read back from
   lines that state them.
-/

namespace TableScribe

open Matcher

/-! ## Lines -/

/-- The trimmed line has the separator once, read from the left, with the child in front of it and
the parent behind. -/
structure States (line : List Char) (relation : Relation) : Prop where
  text : Text.trim line =
    relation.child.toList ++ (" extends ".toList ++ relation.parent.toList)
  first : Text.IsFirst " extends ".toList relation.child.toList relation.parent.toList
  once : ¬ " extends ".toList <:+: relation.parent.toList

theorem ofLine?_eq_some_iff {line : List Char} {relation : Relation} :
    Relation.ofLine? line = some relation ↔ States line relation := by
  have hpair : Relation.ofLine? line = some relation ↔
      Text.splitOn " extends ".toList (Text.trim line) =
        [relation.child.toList, relation.parent.toList] := by
    unfold Relation.ofLine?
    split
    · rename_i child parent hsplit
      rw [hsplit, Option.some.injEq]
      constructor
      · rintro rfl
        rw [String.toList_ofList, String.toList_ofList]
      · intro heq
        obtain ⟨hchild, hparent⟩ := List.cons.inj heq
        rw [hchild, (List.cons.inj hparent).1, String.ofList_toList, String.ofList_toList]
    · rename_i hno
      exact iff_of_false (by simp) (hno _ _)
  rw [hpair, Text.splitOn_eq_pair_iff (by simp)]
  exact ⟨fun ⟨htext, hfirst, honce⟩ => ⟨htext, hfirst, honce⟩,
    fun ⟨htext, hfirst, honce⟩ => ⟨htext, hfirst, honce⟩⟩

theorem ofLine?_eq_none_iff {line : List Char} :
    Relation.ofLine? line = none ↔ ∀ relation, ¬ States line relation := by
  rw [Option.eq_none_iff_forall_ne_some]
  exact forall_congr' fun relation => not_congr ofLine?_eq_some_iff

theorem States.unique {line : List Char} {relation other : Relation} (h : States line relation)
    (ho : States line other) : relation = other := by
  have hsame := (ofLine?_eq_some_iff.2 h).symm.trans (ofLine?_eq_some_iff.2 ho)
  exact Option.some.inj hsame

/-- A trimmed text neither begins nor ends with a blank. -/
theorem trim_ends (text : List Char) :
    Stops Text.isBlank (Text.trim text) ∧
      ∀ c ∈ (Text.trim text).getLast?, Text.isBlank c = false := by
  obtain ⟨-, -, -, hstart⟩ := trimStart_spec text
  obtain ⟨gap, htrim, -, hlast⟩ := dropEndWhile_spec Text.isBlank (Text.trimStart text)
  rw [htrim] at hstart
  exact ⟨(stops_append_iff.1 hstart).1, hlast⟩

/-- The separator begins and ends with a space, and so there is something on both sides of it. -/
theorem States.names_ne_empty {line : List Char} {relation : Relation} (h : States line relation) :
    relation.child ≠ "" ∧ relation.parent ≠ "" := by
  obtain ⟨hstart, hlast⟩ := trim_ends line
  rw [h.text] at hstart hlast
  constructor
  · intro hchild
    rw [hchild] at hstart
    exact absurd (hstart ' ' rfl) (by decide)
  · intro hparent
    rw [hparent] at hlast
    have hspace : ' ' ∈ (relation.child.toList ++ (" extends ".toList ++ "".toList)).getLast? := by
      rw [← List.append_assoc]
      simp
    exact absurd (hlast ' ' hspace) (by decide)

/-! ## Putting one relation among others -/

section Put

variable {relation : Relation} {relations : List Relation}

/-- A known child keeps its place, a new one goes to the end. -/
theorem children_putRelation (relation : Relation) (relations : List Relation) :
    (putRelation relation relations).map (·.child) =
      if relation.child ∈ relations.map (·.child) then relations.map (·.child)
      else relations.map (·.child) ++ [relation.child] := by
  induction relations with
  | nil => rfl
  | cons first rest ih =>
    rw [putRelation]
    by_cases hfirst : first.child = relation.child
    · rw [if_pos hfirst, if_pos (by simp [hfirst])]
      simp [hfirst]
    · rw [if_neg hfirst, List.map_cons, ih]
      simp only [List.map_cons, List.mem_cons, Ne.symm hfirst, false_or]
      split <;> rfl

theorem nodup_putRelation (h : (relations.map (·.child)).Nodup) :
    ((putRelation relation relations).map (·.child)).Nodup := by
  rw [children_putRelation]
  split
  · exact h
  · rename_i hnew
    exact List.nodup_append.2 ⟨h, List.nodup_singleton _, fun child hmem other hother => by
      rw [List.mem_singleton.1 hother]
      exact ne_of_mem_of_not_mem hmem hnew⟩

theorem mem_putRelation_iff (h : (relations.map (·.child)).Nodup) {other : Relation} :
    other ∈ putRelation relation relations ↔
      other = relation ∨ other ∈ relations ∧ other.child ≠ relation.child := by
  induction relations with
  | nil => simp [putRelation]
  | cons first rest ih =>
    rw [List.map_cons, List.nodup_cons] at h
    rw [putRelation]
    by_cases hfirst : first.child = relation.child
    · -- No other relation has this child.
      have hrest : ∀ other ∈ rest, other.child ≠ relation.child := by
        rintro other hmem heq
        exact h.1 (List.mem_map.2 ⟨other, hmem, heq.trans hfirst.symm⟩)
      rw [if_pos hfirst, List.mem_cons, List.mem_cons]
      refine or_congr_right ⟨fun hmem => ⟨.inr hmem, hrest other hmem⟩, ?_⟩
      rintro ⟨rfl | hmem, hne⟩
      · exact absurd hfirst hne
      · exact hmem
    · rw [if_neg hfirst, List.mem_cons, List.mem_cons, ih h.2]
      constructor
      · rintro (rfl | rfl | ⟨hmem, hne⟩)
        · exact .inr ⟨.inl rfl, hfirst⟩
        · exact .inl rfl
        · exact .inr ⟨.inr hmem, hne⟩
      · rintro (rfl | ⟨rfl | hmem, hne⟩)
        · exact .inr (.inl rfl)
        · exact .inl rfl
        · exact .inr (.inr ⟨hmem, hne⟩)

theorem putRelation_of_new (h : relation.child ∉ relations.map (·.child)) :
    putRelation relation relations = relations ++ [relation] := by
  induction relations with
  | nil => rfl
  | cons first rest ih =>
    rw [List.map_cons, List.mem_cons, not_or] at h
    rw [putRelation, if_neg (Ne.symm h.1), ih h.2]
    rfl

/-- Relations of different children stay as they come. -/
theorem foldl_putRelation_of_nodup {front : List Relation}
    (h : ((front ++ relations).map (·.child)).Nodup) :
    relations.foldl (fun found relation => putRelation relation found) front =
      front ++ relations := by
  induction relations generalizing front with
  | nil => exact (List.append_nil front).symm
  | cons first rest ih =>
    have hnew : first.child ∉ front.map (·.child) := by
      rw [List.map_append, List.nodup_append] at h
      exact fun hmem => h.2.2 _ hmem _ List.mem_cons_self rfl
    rw [List.foldl_cons, putRelation_of_new hnew, ih (by simpa using h), List.append_assoc]
    rfl

end Put

/-! ## The lines of a file one after the other -/

def relationsIn (lines : List (List Char)) : List Relation :=
  (lines.filterMap Relation.ofLine?).foldl
    (fun relations relation => putRelation relation relations) []

section Lines

variable {lines : List (List Char)} {line : List Char} {relation : Relation}

theorem relationsIn_concat_of_states (h : States line relation) :
    relationsIn (lines ++ [line]) = putRelation relation (relationsIn lines) := by
  unfold relationsIn
  rw [List.filterMap_append, List.filterMap_cons_some (ofLine?_eq_some_iff.2 h),
    List.filterMap_nil, List.foldl_append, List.foldl_cons, List.foldl_nil]

theorem relationsIn_concat_of_silent (h : ∀ relation, ¬ States line relation) :
    relationsIn (lines ++ [line]) = relationsIn lines := by
  unfold relationsIn
  rw [List.filterMap_append, List.filterMap_cons_none (ofLine?_eq_none_iff.2 h),
    List.filterMap_nil, List.append_nil]

def IsAbout (child : String) (line : List Char) : Prop :=
  ∃ parent, States line ⟨child, parent⟩

/-- The last line about the child of the relation states the relation. -/
def LastStates (lines : List (List Char)) (relation : Relation) : Prop :=
  ∃ front line back, lines = front ++ line :: back ∧ States line relation ∧
    ∀ later ∈ back, ¬ IsAbout relation.child later

/-- The first line about the one child stands in front of all lines about the other. -/
def StatedBefore (lines : List (List Char)) (child other : String) : Prop :=
  ∃ front back, lines = front ++ back ∧ (∃ line ∈ front, IsAbout child line) ∧
    ∀ line ∈ front, ¬ IsAbout other line

/-- The relations record what the lines say: one relation for each child, the one that the last line
about it states, in the order of the first lines. -/
structure Records (lines : List (List Char)) (relations : List Relation) : Prop where
  nodup : (relations.map (·.child)).Nodup
  mem_iff : ∀ relation, relation ∈ relations ↔ LastStates lines relation
  pairwise : (relations.map (·.child)).Pairwise (StatedBefore lines)

theorem States.isAbout_iff (h : States line relation) {child : String} :
    IsAbout child line ↔ child = relation.child := by
  constructor
  · rintro ⟨parent, hother⟩
    exact congrArg Relation.child (hother.unique h)
  · rintro rfl
    exact ⟨relation.parent, h⟩

theorem lastStates_concat_iff :
    LastStates (lines ++ [line]) relation ↔
      States line relation ∨ LastStates lines relation ∧ ¬ IsAbout relation.child line := by
  constructor
  · rintro ⟨front, stating, back, heq, hstates, hback⟩
    rcases List.eq_nil_or_concat back with rfl | ⟨init, last, rfl⟩
    · obtain ⟨rfl, hline⟩ := List.append_inj' heq rfl
      rw [List.singleton_inj.1 hline]
      exact .inl hstates
    · rw [List.concat_eq_append] at heq hback
      rw [← List.cons_append, ← List.append_assoc] at heq
      obtain ⟨rfl, hline⟩ := List.append_inj' heq rfl
      rw [List.singleton_inj.1 hline]
      exact .inr ⟨⟨front, stating, init, rfl, hstates,
        fun later hmem => hback later (List.mem_append_left _ hmem)⟩,
        hback last (List.mem_append_right _ List.mem_cons_self)⟩
  · rintro (hstates | ⟨⟨front, stating, back, rfl, hstates, hback⟩, hline⟩)
    · exact ⟨lines, line, [], rfl, hstates, by simp⟩
    · refine ⟨front, stating, back ++ [line], by simp, hstates, fun later hmem => ?_⟩
      rcases List.mem_append.1 hmem with hmem | hmem
      · exact hback later hmem
      · rw [List.mem_singleton.1 hmem]
        exact hline

/-- Where some line is about a child, there is a last one. -/
theorem exists_lastStates {child : String} (h : ∃ line ∈ lines, IsAbout child line) :
    ∃ parent, LastStates lines ⟨child, parent⟩ := by
  induction lines using List.reverseRecOn with
  | nil => exact absurd h (by simp)
  | append_singleton lines last ih =>
    simp only [lastStates_concat_iff]
    by_cases hlast : IsAbout child last
    · obtain ⟨parent, hstates⟩ := hlast
      exact ⟨parent, .inl hstates⟩
    · obtain ⟨line, hmem, habout⟩ := h
      rcases List.mem_append.1 hmem with hmem | hmem
      · obtain ⟨parent, hbefore⟩ := ih ⟨line, hmem, habout⟩
        exact ⟨parent, .inr ⟨hbefore, hlast⟩⟩
      · rw [List.mem_singleton.1 hmem] at habout
        exact absurd habout hlast

theorem StatedBefore.concat {child other : String} (h : StatedBefore lines child other)
    (line : List Char) : StatedBefore (lines ++ [line]) child other := by
  obtain ⟨front, back, rfl, habout⟩ := h
  exact ⟨front, back ++ [line], List.append_assoc front back [line], habout⟩

end Lines

namespace Records

variable {lines : List (List Char)} {line : List Char} {relations : List Relation}
  {relation : Relation}

theorem nil : Records [] [] :=
  ⟨List.nodup_nil, fun _ => iff_of_false (by simp) (by simp [LastStates]), .nil⟩

theorem mem_children_iff (h : Records lines relations) {child : String} :
    child ∈ relations.map (·.child) ↔ ∃ line ∈ lines, IsAbout child line := by
  constructor
  · intro hmem
    obtain ⟨relation, hrelation, rfl⟩ := List.mem_map.1 hmem
    obtain ⟨front, line, back, rfl, hstates, -⟩ := (h.mem_iff relation).1 hrelation
    exact ⟨line, by simp, relation.parent, hstates⟩
  · intro habout
    obtain ⟨parent, hlast⟩ := exists_lastStates habout
    exact List.mem_map.2 ⟨⟨child, parent⟩, (h.mem_iff _).2 hlast, rfl⟩

/-- A line that states nothing changes nothing. -/
theorem concat_of_silent (h : Records lines relations) (hno : ∀ relation, ¬ States line relation) :
    Records (lines ++ [line]) relations := by
  refine ⟨h.nodup, fun relation => ?_, h.pairwise.imp fun hbefore => hbefore.concat line⟩
  have hquiet : ¬ IsAbout relation.child line := fun ⟨parent, hstates⟩ => hno _ hstates
  rw [h.mem_iff, lastStates_concat_iff, or_iff_right (hno relation), and_iff_left hquiet]

/-- A line that states a relation puts it among those of the lines in front. -/
theorem concat_of_states (h : Records lines relations) (hstates : States line relation) :
    Records (lines ++ [line]) (putRelation relation relations) := by
  have hold : (relations.map (·.child)).Pairwise (StatedBefore (lines ++ [line])) :=
    h.pairwise.imp fun hbefore => hbefore.concat line
  refine ⟨nodup_putRelation h.nodup, fun other => ?_, ?_⟩
  · have hsame : States line other ↔ other = relation :=
      ⟨fun hother => hother.unique hstates, fun heq => heq ▸ hstates⟩
    rw [mem_putRelation_iff h.nodup, h.mem_iff, lastStates_concat_iff, hsame, hstates.isAbout_iff]
  · rw [children_putRelation]
    split
    · exact hold
    · rename_i hnew
      -- The lines in front are about all the other children and not about this one.
      have hnone : ∀ line ∈ lines, ¬ IsAbout relation.child line := fun line hmem habout =>
        hnew (h.mem_children_iff.2 ⟨line, hmem, habout⟩)
      refine List.pairwise_append.2 ⟨hold, List.pairwise_singleton _ _, ?_⟩
      intro child hmem other ho
      rw [List.mem_singleton.1 ho]
      exact ⟨lines, [line], rfl, h.mem_children_iff.1 hmem, hnone⟩

end Records

theorem records_relationsIn (lines : List (List Char)) : Records lines (relationsIn lines) := by
  induction lines using List.reverseRecOn with
  | nil => exact .nil
  | append_singleton lines line ih =>
    cases hline : Relation.ofLine? line with
    | none =>
      have hno := ofLine?_eq_none_iff.1 hline
      rw [relationsIn_concat_of_silent hno]
      exact ih.concat_of_silent hno
    | some relation =>
      have hstates := ofLine?_eq_some_iff.1 hline
      rw [relationsIn_concat_of_states hstates]
      exact ih.concat_of_states hstates

/-! ## Relations written and read back -/

/-- The name is not empty and free of white space. -/
def IsSolid (name : String) : Prop :=
  name ≠ "" ∧ ∀ c ∈ name.toList, Text.isBlank c = false

instance (name : String) : Decidable (IsSolid name) :=
  decidable_of_iff (name ≠ "" ∧ name.toList.all (!Text.isBlank ·) = true) (by simp [IsSolid])

def Relation.line (relation : Relation) : String :=
  relation.child ++ " extends " ++ relation.parent

theorem Relation.toList_line (relation : Relation) :
    relation.line.toList =
      relation.child.toList ++ (" extends ".toList ++ relation.parent.toList) := by
  unfold Relation.line
  rw [String.toList_append, String.toList_append, List.append_assoc]

section Written

variable {relation : Relation}

theorem IsSolid.space_not_mem {name : String} (h : IsSolid name) : ' ' ∉ name.toList :=
  fun hmem => absurd (h.2 ' ' hmem) (by decide)

theorem IsSolid.toList_ne_nil {name : String} (h : IsSolid name) : name.toList ≠ [] := by
  simpa using h.1

/-- Between solid names the separator stands once, whatever white space is around the line. -/
theorem states_of_trim {line : List Char} (hchild : IsSolid relation.child)
    (hparent : IsSolid relation.parent) (h : Text.trim line = relation.line.toList) :
    States line relation := by
  refine ⟨h.trans relation.toList_line, ?_, ?_⟩
  · exact Text.isFirst_of_not_mem hchild.space_not_mem _
  · exact Text.absent_of_not_mem hparent.space_not_mem

theorem trim_eq_self {text : List Char} (hstart : Stops Text.isBlank text)
    (hlast : ∀ c ∈ text.getLast?, Text.isBlank c = false) : Text.trim text = text := by
  have htrim : Text.trimStart text = text :=
    (takeWhile_dropWhile_eq_iff.2 ⟨(List.nil_append text).symm, by simp, hstart⟩).2
  unfold Text.trim
  rw [htrim]
  exact dropEndWhile_of_getLast? hlast

theorem getLast?_line (h : IsSolid relation.parent) :
    relation.line.toList.getLast? = relation.parent.toList.getLast? := by
  rw [relation.toList_line, ← List.append_assoc, List.getLast?_append,
    List.getLast?_eq_some_getLast h.toList_ne_nil, Option.some_or]

theorem trim_line (hchild : IsSolid relation.child) (hparent : IsSolid relation.parent) :
    Text.trim relation.line.toList = relation.line.toList := by
  refine trim_eq_self ?_ fun c hc => ?_
  · obtain ⟨c, tail, hname⟩ := List.exists_cons_of_ne_nil hchild.toList_ne_nil
    rw [relation.toList_line, hname, List.cons_append, stops_cons]
    exact hchild.2 c (hname ▸ List.mem_cons_self)
  · rw [getLast?_line hparent] at hc
    exact hparent.2 c (List.mem_of_getLast? hc)

/-- The line of a relation could be a line of a text. -/
theorem isLine_line (hchild : IsSolid relation.child) (hparent : IsSolid relation.parent) :
    relation.line ≠ "" ∧ '\n' ∉ relation.line.toList ∧
      relation.line.toList.getLast? ≠ some '\r' := by
  have hsolid {name : String} (h : IsSolid name) {c : Char} (hc : Text.isBlank c = true) :
      c ∉ name.toList := fun hmem => by
    rw [h.2 c hmem] at hc
    exact absurd hc (by simp)
  refine ⟨fun hnil => ?_, ?_, fun hlast => ?_⟩
  · have hempty : relation.line.toList = [] := by rw [hnil]; rfl
    rw [relation.toList_line] at hempty
    exact hchild.toList_ne_nil (List.append_eq_nil_iff.1 hempty).1
  · rw [relation.toList_line, List.mem_append, List.mem_append, not_or, not_or]
    exact ⟨hsolid hchild (by decide), by decide, hsolid hparent (by decide)⟩
  · rw [getLast?_line hparent] at hlast
    exact hsolid hparent (by decide) (List.mem_of_getLast? hlast)

/-- Relations of different children are read off lines that state them in order. -/
theorem relationsIn_of_trim {lines : List (List Char)} {relations : List Relation}
    (hnodup : (relations.map (·.child)).Nodup)
    (h : ∀ relation ∈ relations, IsSolid relation.child ∧ IsSolid relation.parent)
    (hlines : lines.map Text.trim = relations.map (·.line.toList)) :
    relationsIn lines = relations := by
  have hread : lines.filterMap Relation.ofLine? = relations := by
    clear hnodup
    induction relations generalizing lines with
    | nil => rw [List.map_eq_nil_iff.1 hlines, List.filterMap_nil]
    | cons relation rest ih =>
      obtain ⟨line, others, rfl, hline, hothers⟩ := List.map_eq_cons_iff.1 hlines
      obtain ⟨hchild, hparent⟩ := h relation List.mem_cons_self
      have hstates := ofLine?_eq_some_iff.2 (states_of_trim hchild hparent hline)
      rw [List.filterMap_cons_some hstates,
        ih (fun other hmem => h other (List.mem_cons_of_mem relation hmem)) hothers]
  unfold relationsIn
  rw [hread]
  exact foldl_putRelation_of_nodup hnodup

end Written

/-- The relations of a file record what its lines say, and no name in them is empty. Relations of
different children with solid names come back from a file whose lines state them in order, whatever
white space stands around these, and in particular from the lines alone. -/
theorem relationsOf_exact :
    (∀ text : String, Records (Text.lines text.toList) (relationsOf text) ∧
      ∀ relation ∈ relationsOf text, relation.child ≠ "" ∧ relation.parent ≠ "") ∧
    ∀ relations : List Relation, (relations.map (·.child)).Nodup →
      (∀ relation ∈ relations, IsSolid relation.child ∧ IsSolid relation.parent) →
        (∀ text : String,
          (Text.lines text.toList).map Text.trim = relations.map (·.line.toList) →
            relationsOf text = relations) ∧
          relationsOf (Text.join "\n" (relations.map Relation.line)) = relations := by
  refine ⟨fun text => ?_, fun relations hnodup h => ?_⟩
  · have hrecords : Records (Text.lines text.toList) (relationsOf text) :=
      records_relationsIn (Text.lines text.toList)
    refine ⟨hrecords, fun relation hmem => ?_⟩
    obtain ⟨-, line, -, -, hstates, -⟩ := (hrecords.mem_iff relation).1 hmem
    exact hstates.names_ne_empty
  · refine ⟨fun text hlines => relationsIn_of_trim hnodup h hlines, ?_⟩
    refine relationsIn_of_trim hnodup h ?_
    rw [Text.lines_join]
    · simp only [List.map_map]
      exact List.map_congr_left fun relation hmem =>
        trim_line (h relation hmem).1 (h relation hmem).2
    · intro text htext
      obtain ⟨relation, hmem, rfl⟩ := List.mem_map.1 htext
      exact isLine_line (h relation hmem).1 (h relation hmem).2

/-- Names that look like the separator, and a file in which one of the lines has it twice, one has
it overlapping with itself and one says again what a table extends. -/
theorem relationsOf_exact_extends :
    let relations : List Relation := [⟨"extends", "a"⟩, ⟨"a", "extends"⟩, ⟨"b", "a"⟩]
    let text := "  a extends b\r\nc extends d extends e\n\na extends extends c\n"
    (relations.map (·.child)).Nodup ∧
      (∀ relation ∈ relations, IsSolid relation.child ∧ IsSolid relation.parent) ∧
      relationsOf (Text.join "\n" (relations.map Relation.line)) = relations ∧
      relationsOf "\textends extends a \r\n a extends extends\nb extends a" = relations ∧
      relationsOf text = [⟨"a", "extends c"⟩] ∧
      LastStates (Text.lines text.toList) ⟨"a", "extends c"⟩ := by
  intro relations text
  have hnodup : (relations.map (·.child)).Nodup := by decide
  have hsolid : ∀ relation ∈ relations, IsSolid relation.child ∧ IsSolid relation.parent := by
    decide
  obtain ⟨hread, hjoined⟩ := relationsOf_exact.2 relations hnodup hsolid
  have htext : relationsOf text = [⟨"a", "extends c"⟩] := by decide +kernel
  refine ⟨hnodup, hsolid, hjoined, hread _ (by decide +kernel), htext, ?_⟩
  exact ((relationsOf_exact.1 text).1.mem_iff _).1 (htext ▸ List.mem_cons_self)

end TableScribe
