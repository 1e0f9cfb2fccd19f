import TableScribe.Proofs.Script.Endings

/-!
# Splitting and joining

A script is cut exactly where a statement begins behind a semicolon, and nothing is lost but blanks
and semicolons (`splitStatements_exact`). So statements that are written one behind the other, with
semicolons and white space between them, come back as they were (`splitStatements_joined`).

1. `Headed text`: the text begins with `CREATE TABLE`; `Uncut text`: no semicolon in it has such a
   text behind it, perhaps with white space between.
2. `uncut_of_mem_pieces`, `opens_of_mem_tail`: pieces are uncut, and all but the first open a
   statement. What a piece loses at its ends changes neither.
3. `pieces_of_opens`: one joint of a script; the list of statements follows by induction.
-/

namespace TableScribe

open Matcher Pattern

/-- The text begins with `CREATE` and `TABLE`, with blanks between them. -/
def Headed (text : List Char) : Prop :=
  ∃ create blanks word rest, text = create ++ (blanks ++ word) ++ rest ∧ Spells create .create ∧
    blanks ≠ [] ∧ (∀ c ∈ blanks, Text.isBlank c = true) ∧ Spells word .table ∧
    Stops Text.isWord rest

/-- No semicolon of the text has another statement behind it. -/
def Uncut (text : List Char) : Prop :=
  ∀ front back, text = front ++ ';' :: back → ¬ Opens back

/-- The text without blanks and semicolons. -/
def solid (text : List Char) : List Char :=
  text.filter (!isFiller ·)

/-! ## Beginnings -/

theorem headed_iff {text : List Char} : Headed text ↔ Opens text ∧ Stops Text.isBlank text := by
  constructor
  · rintro ⟨create, blanks, word, rest, rfl, hcreate, h⟩
    refine ⟨⟨[], create, blanks, word, rest, rfl, by simp, hcreate, h⟩, ?_⟩
    rw [List.append_assoc]
    exact stops_isBlank_of_spells hcreate _
  · rintro ⟨⟨gap, create, blanks, word, rest, rfl, hgap, h⟩, hstop⟩
    cases gap with
    | nil => exact ⟨create, blanks, word, rest, rfl, h⟩
    | cons c gap =>
      have hc : Text.isBlank c = false := hstop c rfl
      rw [hgap c List.mem_cons_self] at hc
      exact absurd hc (by simp)

instance (text : List Char) : Decidable (Headed text) :=
  decidable_of_iff (opensStatement text = true ∧ text.head?.any Text.isBlank = false)
    (by rw [headed_iff, opensStatement_iff, Stops.any])

/-- What opens a statement does so behind its blanks. -/
theorem Opens.trimStart {text : List Char} (h : Opens text) : Opens (Text.trimStart text) := by
  obtain ⟨gap, create, blanks, word, rest, rfl, hgap, hcreate, h⟩ := h
  have hstop := stops_isBlank_of_spells hcreate (blanks ++ word ++ rest)
  refine ⟨[], create, blanks, word, rest, ?_, by simp, hcreate, h⟩
  exact (takeWhile_dropWhile_eq_iff.2 ⟨by simp, hgap, by simpa using hstop⟩).2

/-! ## Texts without a joint -/

theorem uncut_nil : Uncut [] :=
  fun front back h => absurd h (by simp)

theorem uncut_cons {c : Char} {text : List Char} :
    Uncut (c :: text) ↔ (c = ';' → ¬ Opens text) ∧ Uncut text := by
  constructor
  · intro h
    refine ⟨?_, fun front back htext => h (c :: front) back (by rw [htext]; rfl)⟩
    rintro rfl
    exact h [] text rfl
  · rintro ⟨hc, htext⟩ front back heq
    cases front with
    | nil =>
      obtain ⟨rfl, rfl⟩ := List.cons.inj heq
      exact hc rfl
    | cons first front => exact htext front back (List.cons.inj heq).2

/-- Texts with a semicolon between them have no joint if neither has one and none is between them. -/
theorem uncut_append_semicolon {front later : List Char} :
    Uncut (front ++ ';' :: later) ↔ Uncut front ∧ ¬ Opens later ∧ Uncut later := by
  induction front with
  | nil =>
    rw [List.nil_append, uncut_cons, and_iff_right uncut_nil]
    simp
  | cons c front ih =>
    rw [List.cons_append, uncut_cons, ih, uncut_cons, opens_append_semicolon_iff, and_assoc]

theorem uncut_of_no_semicolon {text : List Char} (h : ';' ∉ text) : Uncut text := by
  rintro front back rfl
  exact absurd h (by simp)

theorem Uncut.gap_append {gap text : List Char} (h : Uncut text) (hgap : ';' ∉ gap) :
    Uncut (gap ++ text) := by
  induction gap with
  | nil => exact h
  | cons c gap ih =>
    rw [List.mem_cons, not_or] at hgap
    exact uncut_cons.2 ⟨fun hc => absurd hc.symm hgap.1, ih hgap.2⟩

/-- Taking off the ends of a text makes no joint, if no word goes on behind it. -/
theorem Uncut.between {front text back : List Char} (h : Uncut (front ++ (text ++ back)))
    (hback : Stops Text.isWord back) : Uncut text := by
  rintro before after rfl hopens
  exact h (front ++ before) (after ++ back) (by simp) (hopens.append hback)

/-! ## Pieces -/

/-- A text without a joint is a single piece. -/
theorem pieces_of_uncut {text : List Char} (h : Uncut text) : pieces text = [text] := by
  have hjoint : ∀ front back, text = front ++ ';' :: back → ¬ Opens (back ++ []) := by
    intro front back htext
    rw [List.append_nil]
    exact h front back htext
  have hpieces := pieces_append_of_uncut hjoint rfl
  rwa [List.append_nil] at hpieces

/-- A text is cut off in front of a semicolon that another statement follows. -/
theorem pieces_of_opens {front later : List Char} (h : Uncut front) (hopens : Opens later) :
    pieces (front ++ ';' :: later) = front :: pieces later := by
  have hpieces := pieces_append_of_uncut (fun before after hfront hjoint =>
    h before after hfront (opens_append_semicolon_iff.1 hjoint)) (pieces_semicolon_of_opens hopens)
  rwa [List.append_nil] at hpieces

/-- What follows the first piece is where a piece ends. -/
theorem exists_first_endsPiece (script : List Char) :
    ∃ first rest more, pieces script = first :: more ∧ script = first ++ rest ∧ EndsPiece rest := by
  obtain ⟨first, rest, more, hpieces, hscript, hrest⟩ := exists_first_of_pieces script
  exact ⟨first, rest, more, hpieces, hscript,
    hrest.imp And.left fun ⟨later, hrest, hopens, _⟩ => ⟨later, hrest, hopens⟩⟩

/-- A script is cut at every joint. -/
theorem uncut_of_mem_pieces {script piece : List Char} (h : piece ∈ pieces script) :
    Uncut piece := by
  induction script generalizing piece with
  | nil =>
    rw [List.mem_singleton.1 h]
    exact uncut_nil
  | cons c script ih =>
    rw [pieces] at h
    split at h
    · rcases List.mem_cons.1 h with rfl | h
      · exact uncut_nil
      · exact ih h
    · rename_i hcut
      obtain ⟨first, rest, more, hpieces, hscript, hrest⟩ := exists_first_endsPiece script
      rw [hpieces] at h ih
      rcases List.mem_cons.1 h with rfl | h
      · refine uncut_cons.2 ⟨fun hc hopens => hcut ⟨hc, opensStatement_iff.2 ?_⟩,
          ih List.mem_cons_self⟩
        rw [hscript]
        exact (opens_append_of_endsPiece hrest).2 hopens
      · exact ih (List.mem_cons_of_mem _ h)

/-- A script is cut nowhere else. -/
theorem opens_of_mem_tail {script piece : List Char} (h : piece ∈ (pieces script).tail) :
    Opens piece := by
  induction script with
  | nil => exact absurd h List.not_mem_nil
  | cons c script ih =>
    obtain ⟨first, rest, more, hpieces, hscript, hrest⟩ := exists_first_endsPiece script
    rw [pieces] at h
    rw [hpieces] at h ih
    split at h
    · rename_i hcut
      rcases List.mem_cons.1 h with rfl | h
      · have hopens := opensStatement_iff.1 hcut.2
        rw [hscript] at hopens
        exact (opens_append_of_endsPiece hrest).1 hopens
      · exact ih h
    · exact ih h

theorem uncut_iff {text : List Char} : Uncut text ↔ pieces text = [text] := by
  refine ⟨pieces_of_uncut, fun h => ?_⟩
  have hmem : text ∈ pieces text := by
    rw [h]
    exact List.mem_singleton_self text
  exact uncut_of_mem_pieces hmem

instance (text : List Char) : Decidable (Uncut text) :=
  decidable_of_iff _ uncut_iff.symm

/-! ## What is left of a piece -/

theorem solid_append (front back : List Char) : solid (front ++ back) = solid front ++ solid back :=
  List.filter_append ..

theorem solid_flatten (texts : List (List Char)) : solid texts.flatten = texts.flatMap solid :=
  List.filter_flatten

theorem solid_eq_nil {text : List Char} (h : ∀ c ∈ text, isFiller c = true) : solid text = [] := by
  refine List.filter_eq_nil_iff.2 fun c hc => ?_
  rw [h c hc]
  decide

theorem solid_tidy (piece : List Char) : solid (tidy piece) = solid piece := by
  obtain ⟨lead, tail, hpiece, hlead, htail⟩ := exists_eq_tidy piece
  calc solid (tidy piece) = solid lead ++ (solid (tidy piece) ++ solid tail) := by
        rw [solid_eq_nil hlead, solid_eq_nil htail, List.append_nil, List.nil_append]
    _ = solid (lead ++ (tidy piece ++ tail)) := by rw [solid_append, solid_append]
    _ = solid piece := by rw [← hpiece]

theorem flatMap_solid_consToFirst (c : Char) (texts : List (List Char)) :
    (consToFirst c texts).flatMap solid = solid [c] ++ texts.flatMap solid := by
  cases texts with
  | nil => simp [consToFirst]
  | cons first more =>
    rw [consToFirst, List.flatMap_cons, List.flatMap_cons, ← List.append_assoc, ← solid_append]
    rfl

/-- Only the semicolons at which a script is cut are lost. -/
theorem flatMap_solid_pieces (script : List Char) :
    (pieces script).flatMap solid = solid script := by
  induction script with
  | nil => rfl
  | cons c script ih =>
    rw [pieces]
    split
    · rename_i hcut
      rw [hcut.1, List.flatMap_cons, ih]
      rfl
    · rw [flatMap_solid_consToFirst, ih, ← solid_append]
      rfl

theorem uncut_of_tidy {piece : List Char} (h : Uncut piece) : Uncut (tidy piece ++ [';']) := by
  obtain ⟨lead, tail, hpiece, -, htail⟩ := exists_eq_tidy piece
  rw [hpiece] at h
  refine uncut_append_semicolon.2 ⟨h.between fun c hc => ?_, not_opens_nil, uncut_nil⟩
  exact not_isWord_of_isFiller (htail c (List.mem_of_mem_head? hc))

theorem headed_of_tidy {piece : List Char} (h : Opens piece) : Headed (tidy piece ++ [';']) := by
  obtain ⟨tail, hpiece, htail⟩ := trimStart_eq_tidy_append piece
  have hstart := h.trimStart
  rw [hpiece] at hstart
  have hopens : Opens (tidy piece) :=
    hstart.of_append fun c hc => not_isWord_of_isFiller (htail c hc)
  have hstarts : Stops Text.isBlank (tidy piece ++ [';']) :=
    stops_append_iff.2 ⟨tidy_starts piece, fun _ => stops_cons.2 (by decide)⟩
  exact headed_iff.2 ⟨opens_append_semicolon_iff.2 hopens, hstarts⟩

/-! ## Statements -/

theorem solid_splitStatements (script : String) :
    solid ((splitStatements script).flatMap String.toList) = solid script.toList := by
  have hstatement : ∀ text : List Char,
      solid (String.toList (String.ofList (text ++ [';']))) = solid text := by
    intro text
    have hmark : solid [';'] = [] := rfl
    rw [String.toList_ofList, solid_append, hmark, List.append_nil]
  calc solid ((splitStatements script).flatMap String.toList)
      = (((pieces script.toList).map tidy).filter (· ≠ [])).flatMap solid := by
        unfold splitStatements solid
        rw [List.filter_flatMap, List.flatMap_map]
        exact congrArg (List.flatMap · _) (funext hstatement)
    _ = solid ((pieces script.toList).map tidy).flatten := by
        rw [← solid_flatten, List.flatten_filter_ne_nil]
    _ = (pieces script.toList).flatMap solid := by
        rw [solid_flatten, List.flatMap_map]
        exact congrArg (List.flatMap · _) (funext solid_tidy)
    _ = solid script.toList := flatMap_solid_pieces _

/-- All statements but the first come from pieces behind the first. -/
theorem exists_of_mem_tail {script statement : String}
    (h : statement ∈ (splitStatements script).tail) :
    ∃ piece ∈ (pieces script.toList).tail, statement = String.ofList (tidy piece ++ [';']) := by
  rw [splitStatements_eq, ← List.map_tail, List.mem_map] at h
  obtain ⟨piece, hpiece, rfl⟩ := h
  refine ⟨piece, ?_, rfl⟩
  cases hpieces : pieces script.toList with
  | nil =>
    rw [hpieces] at hpiece
    exact absurd hpiece List.not_mem_nil
  | cons first more =>
    rw [hpieces, List.filter_cons] at hpiece
    split at hpiece
    · exact (List.mem_filter.1 hpiece).1
    · exact (List.mem_filter.1 (List.mem_of_mem_tail hpiece)).1

/-- A script is cut where a statement begins behind a semicolon, and only there, and it loses nothing
but blanks and semicolons: without these, the statements one behind the other are the script. No
statement has another one behind a semicolon in it, and all but perhaps the first begin with the
words `CREATE TABLE`. -/
theorem splitStatements_exact (script : String) :
    solid ((splitStatements script).flatMap String.toList) = solid script.toList ∧
      (∀ statement ∈ splitStatements script, Uncut statement.toList) ∧
      ∀ statement ∈ (splitStatements script).tail, Headed statement.toList := by
  refine ⟨solid_splitStatements script, fun statement h => ?_, fun statement h => ?_⟩
  · obtain ⟨piece, hpiece, -, rfl⟩ := mem_splitStatements_iff.1 h
    rw [String.toList_ofList]
    exact uncut_of_tidy (uncut_of_mem_pieces hpiece)
  · obtain ⟨piece, hpiece, rfl⟩ := exists_of_mem_tail h
    rw [String.toList_ofList]
    exact headed_of_tidy (opens_of_mem_tail hpiece)

/-! ## Joining -/

/-- The text is a single statement without the semicolon behind it: it begins with the words, ends
with neither a blank nor a semicolon, and has no joint. -/
structure SingleStatement (text : List Char) : Prop where
  headed : Headed text
  ends : ∀ c ∈ text.getLast?, isFiller c = false
  uncut : Uncut text

theorem singleStatement_iff {text : List Char} :
    SingleStatement text ↔
      Headed text ∧ text.getLast?.any isFiller = false ∧ Uncut text := by
  rw [Option.any_eq_false]
  exact ⟨fun h => ⟨h.headed, h.ends, h.uncut⟩, fun ⟨headed, ends, uncut⟩ => ⟨headed, ends, uncut⟩⟩

instance (text : List Char) : Decidable (SingleStatement text) :=
  decidable_of_iff _ singleStatement_iff.symm

/-- Statements one behind the other, each with a semicolon and what separates it from the next. -/
def joined : List (String × String) → String
  | [] => ""
  | (statement, gap) :: rest => statement ++ ";" ++ gap ++ joined rest

theorem toList_joined_cons (p : String × String) (rest : List (String × String)) :
    (joined (p :: rest)).toList =
      p.1.toList ++ ';' :: (p.2.toList ++ (joined rest).toList) := by
  simp [joined]

namespace SingleStatement

variable {gap text later : List Char}

theorem opens (h : SingleStatement text) : Opens text :=
  (headed_iff.1 h.headed).1

theorem ne_nil (h : SingleStatement text) : text ≠ [] := by
  obtain ⟨c, hc, -⟩ := h.opens.exists_word
  exact List.ne_nil_of_mem hc

/-- With blanks around it and semicolons behind it, a statement is all that is left. -/
theorem tidy_eq_self {marks : List Char} (h : SingleStatement text)
    (hgap : ∀ c ∈ gap, Text.isBlank c = true) (hmarks : ∀ c ∈ marks, c = ';')
    (hlater : ∀ c ∈ later, Text.isBlank c = true) :
    tidy (gap ++ (text ++ marks ++ later)) = text := by
  have hlast : ∀ c ∈ text.getLast?, Text.isBlank c = false ∧ c ≠ ';' := by
    intro c hc
    have hends := h.ends c hc
    rwa [← Bool.not_eq_true, isFiller_iff, not_or, Bool.not_eq_true] at hends
  have hend : ∀ c ∈ (text ++ marks).getLast?, Text.isBlank c = false := by
    intro c hc
    by_cases hne : marks = []
    · rw [hne, List.append_nil] at hc
      exact (hlast c hc).1
    · rw [hmarks c (mem_of_getLast?_append hne hc)]
      decide
  rw [← List.append_nil text] at hend
  have htidy := tidy_eq hgap h.ne_nil (headed_iff.1 h.headed).2 (fun c hc => (hlast c hc).1)
    (by simp) (fun c hc => (hlast c (by rwa [List.append_nil] at hc)).2) hmarks hend hlater
  rwa [List.append_nil] at htidy

theorem uncut_gap (h : SingleStatement text) (hgap : ∀ c ∈ gap, Text.isBlank c = true) :
    Uncut (gap ++ text) :=
  h.uncut.gap_append fun hmem => absurd (hgap ';' hmem) (by decide)

end SingleStatement

section

variable {gap text later : List Char}

theorem splitStatements_of_blank (h : ∀ c ∈ gap, Text.isBlank c = true) :
    splitStatements (String.ofList gap) = [] := by
  have htrim : Text.trimStart gap = [] :=
    (takeWhile_dropWhile_eq_iff.2 ⟨(List.append_nil gap).symm, h, .nil _⟩).2
  have htidy : tidy gap = [] := by
    unfold tidy Text.trim
    rw [htrim]
    rfl
  have huncut : Uncut gap := uncut_of_no_semicolon fun hmem => absurd (h ';' hmem) (by decide)
  rw [splitStatements_eq, String.toList_ofList, pieces_of_uncut huncut,
    List.filter_cons_of_neg (by simp [htidy])]
  rfl

/-- A statement is cut off in front of another one. -/
theorem splitStatements_of_opens (h : SingleStatement text)
    (hgap : ∀ c ∈ gap, Text.isBlank c = true) (hopens : Opens later) :
    splitStatements (String.ofList (gap ++ (text ++ ';' :: later))) =
      String.ofList (text ++ [';']) :: splitStatements (String.ofList later) := by
  have htidy : tidy (gap ++ (text ++ [] ++ [])) = text := h.tidy_eq_self hgap (by simp) (by simp)
  rw [List.append_nil, List.append_nil] at htidy
  rw [splitStatements_eq, splitStatements_eq, String.toList_ofList, String.toList_ofList,
    ← List.append_assoc, pieces_of_opens (h.uncut_gap hgap) hopens,
    List.filter_cons_of_pos (by simpa [htidy] using h.ne_nil), List.map_cons, htidy]

/-- A statement with only white space behind its semicolon is the last one. -/
theorem splitStatements_of_last (h : SingleStatement text)
    (hgap : ∀ c ∈ gap, Text.isBlank c = true) (hlater : ∀ c ∈ later, Text.isBlank c = true) :
    splitStatements (String.ofList (gap ++ (text ++ ';' :: later))) =
      [String.ofList (text ++ [';'])] := by
  have htidy : tidy (gap ++ (text ++ [';'] ++ later)) = text :=
    h.tidy_eq_self hgap (by simp) hlater
  have hsemicolon : ';' ∉ later := fun hmem => absurd (hlater ';' hmem) (by decide)
  have hlast : ¬ Opens later := by
    intro hopens
    obtain ⟨c, hc, hblank⟩ := hopens.not_blank
    rw [hlater c hc] at hblank
    exact absurd hblank (by simp)
  have huncut : Uncut (gap ++ text ++ ';' :: later) :=
    uncut_append_semicolon.2 ⟨h.uncut_gap hgap, hlast, uncut_of_no_semicolon hsemicolon⟩
  rw [List.append_assoc, List.singleton_append] at htidy
  rw [List.append_assoc] at huncut
  rw [splitStatements_eq, String.toList_ofList, pieces_of_uncut huncut,
    List.filter_cons_of_pos (by simpa [htidy] using h.ne_nil), List.filter_nil,
    List.map_singleton, htidy]

end

theorem splitStatements_gap_joined {passages : List (String × String)}
    (hsingle : ∀ p ∈ passages, SingleStatement p.1.toList)
    (hgaps : ∀ p ∈ passages, ∀ c ∈ p.2.toList, Text.isBlank c = true) {gap : List Char}
    (hgap : ∀ c ∈ gap, Text.isBlank c = true) :
    splitStatements (String.ofList (gap ++ (joined passages).toList)) =
      passages.map fun p => p.1 ++ ";" := by
  induction passages generalizing gap with
  | nil =>
    rw [show (joined []).toList = [] from rfl, List.append_nil]
    exact splitStatements_of_blank hgap
  | cons p rest ih =>
    obtain ⟨hp, hrest⟩ := List.forall_mem_cons.1 hsingle
    obtain ⟨hgapp, hgaprest⟩ := List.forall_mem_cons.1 hgaps
    have hstatement : String.ofList (p.1.toList ++ [';']) = p.1 ++ ";" :=
      String.toList_inj.1 (by simp)
    rw [toList_joined_cons]
    cases rest with
    | nil =>
      rw [splitStatements_of_last hp hgap (by simpa [joined] using hgapp), hstatement]
      rfl
    | cons next rest =>
      have hopens : Opens (p.2.toList ++ (joined (next :: rest)).toList) := by
        rw [toList_joined_cons]
        exact (opens_append_semicolon_iff.2 (hrest next List.mem_cons_self).opens).blanks_append
          hgapp
      rw [splitStatements_of_opens hp hgap hopens, ih hrest hgaprest hgapp, hstatement]
      rfl

/-- Splitting undoes joining. Single statements that are written one behind the other, each with a
semicolon and any white space behind it, are the statements of the script, in order. -/
theorem splitStatements_joined {passages : List (String × String)}
    (hsingle : ∀ p ∈ passages, SingleStatement p.1.toList)
    (hgaps : ∀ p ∈ passages, ∀ c ∈ p.2.toList, Text.isBlank c = true) :
    splitStatements (joined passages) = passages.map fun p => p.1 ++ ";" := by
  have hblank : ∀ c ∈ ([] : List Char), Text.isBlank c = true := by simp
  have h := splitStatements_gap_joined hsingle hgaps hblank
  rwa [List.nil_append, String.ofList_toList] at h

/-- The first statement has semicolons in it, one of them with half of the words behind it. -/
theorem splitStatements_joined_semicolons :
    let passages := [("CREATE TABLE a (x TEXT DEFAULT ';') ; create", "\n\t"),
      ("create\ntable", ""), ("Create Table b (y INT)", " ")]
    (∀ p ∈ passages, SingleStatement p.1.toList) ∧
      (∀ p ∈ passages, ∀ c ∈ p.2.toList, Text.isBlank c = true) ∧
      splitStatements (joined passages) = passages.map fun p => p.1 ++ ";" := by
  intro passages
  have hsingle : ∀ p ∈ passages, SingleStatement p.1.toList := by decide +kernel
  have hgaps : ∀ p ∈ passages, ∀ c ∈ p.2.toList, Text.isBlank c = true := by
    have hall : passages.all (fun p => p.2.toList.all Text.isBlank) = true := by decide +kernel
    exact fun p hp => List.all_eq_true.1 (List.all_eq_true.1 hall p hp)
  exact ⟨hsingle, hgaps, splitStatements_joined hsingle hgaps⟩

end TableScribe
