import TableScribe.Proofs.Script.Statements

/-!
# How statements end

The statements of a script are trimmed and end with a semicolon, which is meant to be the only one.
`endsOnce_iff` says when it is: unless a piece of the script ends in semicolons with blanks in
between, as in `; ;`. The semicolons at the end of a piece are taken off as one run, and so those in
front of the blanks are left.

1. `Straggler`: such an end, and `EndsBehind` for what a statement looks like at its ends.
2. `straggles_iff`: where in a script the end of a piece is.
3. `exists_straggler_of_tidy`, `tidy_append_straggler`: a semicolon is left at the end of a piece
   exactly if it ends in a straggler.
-/

namespace TableScribe

open Matcher

/-- A semicolon, blanks, and more semicolons, perhaps with blanks behind them. -/
inductive Straggler : List Char → Prop
  | mk {gap marks tail : List Char} (hne : gap ≠ []) (hgap : ∀ c ∈ gap, Text.isBlank c = true)
      (hmarks : marks ≠ []) (hall : ∀ c ∈ marks, c = ';')
      (htail : ∀ c ∈ tail, Text.isBlank c = true) :
      Straggler (';' :: (gap ++ (marks ++ tail)))

/-- A piece of the script ends in a straggler. -/
def Straggles (script : List Char) : Prop :=
  ∃ front block rest, script = front ++ (block ++ rest) ∧ Straggler block ∧ EndsPiece rest

/-- The statement begins without blanks and ends in this character, which is no blank, and a
semicolon. -/
structure EndsBehind (last : Char) (statement : String) : Prop where
  starts : Stops Text.isBlank statement.toList
  ends : ∃ front, statement.toList = front ++ [last, ';']
  not_blank : Text.isBlank last = false

/-! ## Stragglers in a script -/

theorem Straggler.isFiller {block : List Char} (h : Straggler block) :
    ∀ c ∈ block, isFiller c = true := by
  obtain ⟨-, hgap, -, hall, htail⟩ := h
  simp only [List.mem_cons, List.mem_append]
  rintro c (rfl | hc | hc | hc)
  · exact isFiller_iff.2 (.inr rfl)
  · exact isFiller_iff.2 (.inl (hgap c hc))
  · exact isFiller_iff.2 (.inr (hall c hc))
  · exact isFiller_iff.2 (.inl (htail c hc))

/-- Blanks and semicolons at the end of a piece do not open a statement. -/
theorem not_opens_of_endsPiece {block rest : List Char} (h : ∀ c ∈ block, isFiller c = true)
    (hrest : EndsPiece rest) :
    ¬ Opens (block ++ rest) := by
  rw [opens_append_of_endsPiece hrest]
  intro hopens
  obtain ⟨c, hc, hword⟩ := hopens.exists_word
  rw [not_isWord_of_isFiller (h c hc)] at hword
  exact absurd hword (by simp)

theorem straggles_iff {script : List Char} :
    Straggles script ↔
      ∃ piece ∈ pieces script, ∃ front block, piece = front ++ block ∧ Straggler block := by
  constructor
  · rintro ⟨front, block, rest, rfl, hblock, hrest⟩
    have huncut : ∀ before after, block = before ++ ';' :: after → ¬ Opens (after ++ rest) := by
      intro before after hl
      refine not_opens_of_endsPiece (fun c hc => hblock.isFiller c ?_) hrest
      rw [hl]
      simp [hc]
    obtain ⟨before, hmem⟩ := exists_piece_of_uncut huncut hrest front
    exact ⟨_, hmem, before, block, rfl, hblock⟩
  · rintro ⟨piece, hmem, before, block, rfl, hblock⟩
    obtain ⟨front, rest, hscript, hrest⟩ := exists_of_mem_pieces hmem
    refine ⟨front ++ before, block, rest, ?_, hblock, hrest⟩
    rw [hscript]
    simp

/-! ## What is taken off a piece -/

theorem dropEndWhile_append_of_all {p : Char → Bool} {front back : List Char}
    (h : ∀ c ∈ back, p c = true) :
    Text.dropEndWhile p (front ++ back) = Text.dropEndWhile p front := by
  have hreverse : ∀ c ∈ back.reverse, p c = true := fun c hc => h c (List.mem_reverse.1 hc)
  unfold Text.dropEndWhile
  rw [List.reverse_append, List.dropWhile_append_of_pos hreverse]

/-- A semicolon that is left at the end of a piece has blanks and more semicolons behind it. -/
theorem exists_straggler_of_tidy {piece : List Char} (h : (tidy piece).getLast? = some ';') :
    ∃ front block, piece = front ++ block ∧ Straggler block := by
  -- What is taken off is blanks, a run of semicolons, and blanks in front of these.
  obtain ⟨tail, hpiece, htail, hend⟩ := dropEndWhile_spec Text.isBlank (Text.trimStart piece)
  obtain ⟨marks, htrim, hmarks, hrun⟩ := dropEndWhile_spec (· = ';') (Text.trim piece)
  obtain ⟨gap, hkept, hgap, -⟩ :=
    dropEndWhile_spec Text.isBlank (Text.dropEndWhile (· = ';') (Text.trim piece))
  have hshort : Text.dropEndWhile (· = ';') (Text.trim piece) = tidy piece ++ gap := hkept
  have hgapne : gap ≠ [] := by
    rintro rfl
    rw [List.append_nil] at hshort
    have hlast := hrun ';' (by rw [hshort]; exact h)
    exact absurd hlast (by decide)
  have hmarksne : marks ≠ [] := by
    rintro rfl
    rw [List.append_nil, hshort] at htrim
    obtain ⟨others, last, rfl⟩ := List.eq_nil_or_concat gap |>.resolve_left hgapne
    have hblank := hend last (by
      show last ∈ (Text.trim piece).getLast?
      rw [htrim, List.concat_eq_append, ← List.append_assoc, List.getLast?_concat]
      rfl)
    rw [hgap last (by simp)] at hblank
    exact absurd hblank (by simp)
  obtain ⟨front, hfront⟩ := List.getLast?_eq_some_iff.1 h
  obtain ⟨lead, hlead, -⟩ := trimStart_spec piece
  refine ⟨lead ++ front, _, ?_,
    .mk hgapne hgap hmarksne (fun c hc => by simpa using hmarks c hc) htail⟩
  calc piece = lead ++ Text.trimStart piece := hlead
    _ = lead ++ (tidy piece ++ gap ++ marks ++ tail) := by
        rw [← hshort, ← htrim]
        exact congrArg _ hpiece
    _ = lead ++ front ++ ';' :: (gap ++ (marks ++ tail)) := by
        rw [hfront]
        simp

theorem dropEndWhile_append_eq {p : Char → Bool} {front back : List Char}
    (hfront : ∀ c ∈ front.getLast?, p c = false) (hback : ∀ c ∈ back, p c = true) :
    Text.dropEndWhile p (front ++ back) = front := by
  rw [dropEndWhile_append_of_all hback, dropEndWhile_of_getLast? hfront]

/-- What is left of a piece: at its end the blanks go, then the run of semicolons, then the blanks in
front of it. -/
theorem tidy_eq {lead body gap marks tail : List Char}
    (hlead : ∀ c ∈ lead, Text.isBlank c = true) (hne : body ≠ [])
    (hstart : Stops Text.isBlank body) (hbody : ∀ c ∈ body.getLast?, Text.isBlank c = false)
    (hgap : ∀ c ∈ gap, Text.isBlank c = true) (hrun : ∀ c ∈ (body ++ gap).getLast?, c ≠ ';')
    (hmarks : ∀ c ∈ marks, c = ';')
    (hend : ∀ c ∈ (body ++ gap ++ marks).getLast?, Text.isBlank c = false)
    (htail : ∀ c ∈ tail, Text.isBlank c = true) :
    tidy (lead ++ (body ++ gap ++ marks ++ tail)) = body := by
  have hstop : Stops Text.isBlank (body ++ gap ++ marks ++ tail) := by
    rw [List.append_assoc, List.append_assoc]
    exact stops_append_iff.2 ⟨hstart, fun hnil => absurd hnil hne⟩
  have htrim : Text.trimStart (lead ++ (body ++ gap ++ marks ++ tail)) =
      body ++ gap ++ marks ++ tail :=
    (takeWhile_dropWhile_eq_iff.2 ⟨rfl, hlead, hstop⟩).2
  unfold tidy Text.trim Text.trimEnd
  rw [htrim, dropEndWhile_append_eq hend htail,
    dropEndWhile_append_eq (fun c hc => decide_eq_false (hrun c hc))
      fun c hc => decide_eq_true (hmarks c hc),
    dropEndWhile_append_eq hbody hgap]

/-- Of a straggler the first semicolon is left. -/
theorem tidy_append_straggler {block : List Char} (h : Straggler block) (front : List Char) :
    tidy (front ++ block) = Text.trimStart front ++ [';'] := by
  obtain ⟨hne, hgap, hmarks, hall, htail⟩ := h
  rename_i gap marks tail
  obtain ⟨lead, hfront, hlead, hstop⟩ := trimStart_spec front
  have hsemicolon : Text.isBlank ';' = false := by decide
  have hstart : Stops Text.isBlank (Text.trimStart front ++ [';']) :=
    stops_append_iff.2 ⟨hstop, fun _ => stops_cons.2 hsemicolon⟩
  have hsplit : front ++ ';' :: (gap ++ (marks ++ tail)) =
      lead ++ (Text.trimStart front ++ [';'] ++ gap ++ marks ++ tail) := by
    calc front ++ ';' :: (gap ++ (marks ++ tail))
        = lead ++ Text.trimStart front ++ ';' :: (gap ++ (marks ++ tail)) := by rw [← hfront]
      _ = lead ++ (Text.trimStart front ++ [';'] ++ gap ++ marks ++ tail) := by simp
  rw [hsplit]
  refine tidy_eq hlead (by simp) hstart ?_ hgap ?_ hall ?_ htail
  · intro c hc
    rw [List.mem_singleton.1 (mem_of_getLast?_append (by simp) hc)]
    exact hsemicolon
  · rintro c hc rfl
    rw [hgap ';' (mem_of_getLast?_append hne hc)] at hsemicolon
    exact absurd hsemicolon (by simp)
  · intro c hc
    rw [hall c (mem_of_getLast?_append hmarks hc)]
    exact hsemicolon

theorem tidy_starts (piece : List Char) : Stops Text.isBlank (tidy piece) := by
  obtain ⟨tail, hpiece, -⟩ := trimStart_eq_tidy_append piece
  obtain ⟨-, -, -, hstop⟩ := trimStart_spec piece
  rw [hpiece] at hstop
  exact (stops_append_iff.1 hstop).1

theorem tidy_ends (piece : List Char) : ∀ c ∈ (tidy piece).getLast?, Text.isBlank c = false := by
  obtain ⟨-, -, -, hend⟩ :=
    dropEndWhile_spec Text.isBlank (Text.dropEndWhile (· = ';') (Text.trim piece))
  exact hend

/-! ## Statements -/

/-- Which character the semicolon of a statement comes after. -/
theorem endsBehind_iff {piece : List Char} (hne : tidy piece ≠ []) {last : Char} :
    EndsBehind last (String.ofList (tidy piece ++ [';'])) ↔ (tidy piece).getLast? = some last := by
  rw [List.getLast?_eq_some_iff]
  constructor
  · rintro ⟨-, ⟨front, hfront⟩, -⟩
    rw [String.toList_ofList, show front ++ [last, ';'] = front ++ [last] ++ [';'] by simp] at hfront
    exact ⟨front, List.append_cancel_right hfront⟩
  · rintro ⟨front, hfront⟩
    refine ⟨?_, ⟨front, ?_⟩, ?_⟩
    · rw [String.toList_ofList]
      exact stops_append_iff.2 ⟨tidy_starts piece, fun hnil => absurd hnil hne⟩
    · rw [String.toList_ofList, hfront]
      simp
    · exact tidy_ends piece last (by rw [hfront, List.getLast?_concat]; rfl)

/-- Every statement is trimmed and ends with a semicolon behind a character that is no blank. This
character is never a semicolon exactly if no piece of the script ends in semicolons with blanks
between them. -/
theorem endsOnce_iff (script : String) :
    (∀ statement ∈ splitStatements script, ∃ last, EndsBehind last statement) ∧
      ((∀ statement ∈ splitStatements script, ∃ last ≠ ';', EndsBehind last statement) ↔
        ¬ Straggles script.toList) := by
  rw [straggles_iff]
  refine ⟨?_, ?_, ?_⟩
  · intro statement hmem
    obtain ⟨piece, -, hne, rfl⟩ := mem_splitStatements_iff.1 hmem
    exact ⟨_, (endsBehind_iff hne).2 (List.getLast?_eq_some_getLast hne)⟩
  · rintro hall ⟨piece, hmem, front, block, rfl, hblock⟩
    have htidy := tidy_append_straggler hblock front
    have hne : tidy (front ++ block) ≠ [] := by
      rw [htidy]
      simp
    obtain ⟨last, hlast, hends⟩ :=
      hall _ (mem_splitStatements_iff.2 ⟨_, hmem, hne, rfl⟩)
    have hgetLast := (endsBehind_iff hne).1 hends
    rw [htidy, List.getLast?_concat] at hgetLast
    exact hlast (Option.some.inj hgetLast).symm
  · intro hno statement hmem
    obtain ⟨piece, hpiece, hne, rfl⟩ := mem_splitStatements_iff.1 hmem
    have hgetLast := List.getLast?_eq_some_getLast hne
    refine ⟨_, ?_, (endsBehind_iff hne).2 hgetLast⟩
    intro hsemicolon
    rw [hsemicolon] at hgetLast
    obtain ⟨front, block, hsplit, hblock⟩ := exists_straggler_of_tidy hgetLast
    exact hno ⟨piece, hpiece, front, block, hsplit, hblock⟩

/-- Not every statement ends with a single semicolon: of `; ;` the first is left. -/
theorem not_forall_endsOnce :
    ¬ ∀ script, ∀ statement ∈ splitStatements script, ∃ last ≠ ';', EndsBehind last statement := by
  intro h
  have hsplit : splitStatements "CREATE TABLE a (x INT) ; ;" = ["CREATE TABLE a (x INT) ;;"] := by
    decide +kernel
  obtain ⟨last, hlast, -, ⟨front, hends⟩, -⟩ :=
    h "CREATE TABLE a (x INT) ; ;" _ (by rw [hsplit]; exact List.mem_singleton_self _)
  have hreverse := congrArg List.reverse hends
  rw [List.reverse_append] at hreverse
  have hsecond := congrArg (·[1]?) hreverse
  exact hlast (Option.some.inj hsecond).symm

end TableScribe
