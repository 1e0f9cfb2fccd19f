import Mathlib.Data.List.Nodup
import Mathlib.Data.List.TakeWhile
import TableScribe.Code.Bundle
import TableScribe.Proofs.Text.Separators
import TableScribe.Proofs.Text.Words

/-!
# What the handlers of a router declare

A handler binds names of its own next to names that are taken from the columns, and it is not valid
code if one of them is declared twice in a block. The declarations are read off the lines: `const`,
a name or several in brackets, an equals sign. The depth of a line tells its block.

1. `declared`: what a line declares, and `declared_append`: how much of a line settles it.
2. `declarations_create` … `declarations_delete`: what each of the five handlers declares.
3. `handlersOf_render`: the handlers are found in the text of the file, by its blank lines.
4. `handlers_wellFormed_iff`: when no handler declares a name twice, and when an update has a column
   to assign.
-/

namespace TableScribe.Code

open Text (IsOneWord isWord wordsOf)

/-! ## Declarations -/

/-- The names that a line declares, each with its depth: the blanks in front of the line and `depth`
more. -/
def declared (depth : Nat) : List Char → List (Nat × String)
  | ' ' :: rest => declared (depth + 1) rest
  | 'c' :: 'o' :: 'n' :: 's' :: 't' :: ' ' :: rest =>
    (wordsOf (rest.takeWhile (· ≠ '='))).map fun name => (depth, name)
  | _ => []

def declarations (lines : List String) : List (Nat × String) :=
  lines.flatMap fun line => declared 0 line.toList

example : declarations ["const [a, b] = c;", "  a = 1;", "  const d = 2;"] =
    [(0, "a"), (0, "b"), (2, "d")] := by
  decide

theorem declarations_nil : declarations [] = [] :=
  rfl

theorem declarations_cons (line : String) (lines : List String) :
    declarations (line :: lines) = declared 0 line.toList ++ declarations lines :=
  rfl

theorem declarations_append (front back : List String) :
    declarations (front ++ back) = declarations front ++ declarations back :=
  List.flatMap_append

/-- Whether this much of a line tells what the line declares. -/
def isSettled : List Char → Bool
  | ' ' :: rest => isSettled rest
  | 'c' :: 'o' :: 'n' :: 's' :: 't' :: ' ' :: rest => rest.contains '='
  | c :: _ => c ≠ 'c'
  | [] => false

theorem takeWhile_append_of_mem {front : List Char} (h : '=' ∈ front) (back : List Char) :
    (front ++ back).takeWhile (· ≠ '=') = front.takeWhile (· ≠ '=') := by
  rw [List.takeWhile_append, if_neg]
  intro hlength
  have hall := List.takeWhile_eq_self_iff.1
    ((List.takeWhile_prefix fun c : Char => decide (c ≠ '=')).eq_of_length hlength)
  simpa using hall '=' h

theorem declared_append {front : List Char} (h : isSettled front = true) (depth : Nat)
    (back : List Char) : declared depth (front ++ back) = declared depth front := by
  induction front using isSettled.induct generalizing depth with
  | case1 rest ih => exact ih h (depth + 1)
  | case2 rest =>
    exact congrArg (fun names => (wordsOf names).map fun name => (depth, name))
      (takeWhile_append_of_mem (by simpa [isSettled] using h) back)
  | case3 c rest hblank hconst =>
    have hc : c ≠ 'c' := by simpa [isSettled] using h
    have hnone (more : List Char) : declared depth (c :: more) = [] := by
      rw [declared] <;> grind
    rw [List.cons_append, hnone, hnone]
  | case4 => simp [isSettled] at h

/-- `declared_append` for a line that is put together from texts. -/
theorem declared_toList_append {front : String} (h : isSettled front.toList = true)
    (back : String) : declared 0 (front ++ back).toList = declared 0 front.toList := by
  rw [String.toList_append, declared_append h]

/-! ## The handlers -/

namespace RouterFile

def handlers (file : RouterFile) : List (List String) :=
  [file.createLines, file.listLines, file.getLines, file.updateLines, file.deleteLines]

variable {file : RouterFile}

theorem wordsOf_columnList (h : ∀ name ∈ file.columns, IsOneWord name) :
    wordsOf file.columnList.toList = file.columns := by
  unfold columnList
  rw [Text.wordsOf_join (by decide) (by decide), Text.flatMap_wordsOf h]

/-- A sign that is in no word and not between the columns is not in the list of them. -/
theorem not_mem_columnList (h : ∀ name ∈ file.columns, IsOneWord name) {c : Char}
    (hword : isWord c = false) (hc : c ∉ ", ".toList) : c ∉ file.columnList.toList :=
  Text.not_mem_join hc fun name hname => (h name hname).not_mem hword

theorem declared_bodyLine (h : ∀ name ∈ file.columns, IsOneWord name) :
    declared 0 file.bodyLine.toList = file.columns.map fun name => (2, name) := by
  have hequals : ∀ c ∈ file.columnList.toList, (!decide (c = '=')) = true := by
    rintro c hmem
    have hne : c ≠ '=' := by
      rintro rfl
      exact not_mem_columnList h (by decide) (by decide) hmem
    simp [hne]
  have hwords : wordsOf ("\x7b ".toList ++ (file.columnList.toList ++ " \x7d ".toList)) =
      file.columns := by
    rw [Text.wordsOf_gap_append (by decide), Text.wordsOf_append_gap (by decide),
      wordsOf_columnList h]
  simpa [bodyLine, declared, List.takeWhile_append_of_pos hequals] using
    congrArg (List.map fun name => (2, name)) hwords

/-- What the handlers bind besides the columns, by as much of each line as tells. -/
theorem declared_own :
    declared 0 keyLine.toList = [(2, "id")] ∧
    declared 0 "  const values = [".toList = [(2, "values")] ∧
    declared 0 "  const query = \x60INSERT INTO ".toList = [(2, "query")] ∧
    declared 0 "  const query = \x60UPDATE ".toList = [(2, "query")] ∧
    declared 0 "    const [result] = await pool.query(query, values);".toList = [(4, "result")] ∧
    declared 0 "    const [result] = await pool.query(\x27DELETE FROM ".toList = [(4, "result")] ∧
    declared 0 "    const [rows] = await pool.query(\x27SELECT * FROM ".toList = [(4, "rows")] := by
  unfold keyLine
  and_intros
  all_goals
    rw [String.toList_ofList]
    decide

/-- How the lines begin that bind nothing. -/
theorem declared_none :
    declared 0 "// Create ".toList = [] ∧
    declared 0 "// List ".toList = [] ∧
    declared 0 "// Get one ".toList = [] ∧
    declared 0 "// Update ".toList = [] ∧
    declared 0 "// Delete ".toList = [] ∧
    declared 0 "router.".toList = [] ∧
    declared 0 "  try \x7b".toList = [] ∧
    declared 0 "    res.status(201).json(\x7b ".toList = [] ∧
    declared 0 "    res.json(rows);".toList = [] ∧
    declared 0 "    if (".toList = [] ∧
    declared 0 "    \x7d else \x7b".toList = [] ∧
    declared 0 "      res.status(404).json(\x7b message: \x27".toList = [] ∧
    declared 0 "    \x7d".toList = [] := by
  and_intros
  all_goals
    rw [String.toList_ofList]
    rfl

theorem declarations_failureLines : declarations failureLines = [] := by
  show declarations ([_, _, _, _, _, _, _, _].map String.ofList) = []
  unfold declarations
  simp only [List.flatMap_map, String.toList_ofList]
  rfl

theorem declarations_foundLines (file : RouterFile) (test found : String)
    (h : ∃ rest, found.toList = 'r' :: rest) : declarations (file.foundLines test found) = [] := by
  have hfound : declared 0 ("      " ++ found).toList = [] := by
    obtain ⟨rest, hrest⟩ := h
    rw [String.toList_append, String.toList_ofList, hrest]
    rfl
  unfold foundLines
  simp only [declarations_cons, String.append_assoc, hfound]
  simp (disch := (rw [String.toList_ofList]; decide)) only [declared_toList_append, declared_none,
    declarations_nil, List.nil_append]

theorem declarations_create (h : ∀ name ∈ file.columns, IsOneWord name) :
    declarations file.createLines =
      file.columns.map (fun name => (2, name)) ++
        [(2, "values"), (2, "query"), (4, "result")] := by
  unfold createLines handlerHead
  simp only [declarations_cons, declarations_append, String.append_assoc, declared_bodyLine h,
    declarations_failureLines]
  simp (disch := (rw [String.toList_ofList]; decide)) only [declared_toList_append, declared_own,
    declared_none, declarations_nil, List.nil_append, List.append_nil, List.singleton_append]

theorem declarations_list : declarations file.listLines = [(4, "rows")] := by
  unfold listLines handlerHead
  simp only [declarations_cons, declarations_append, String.append_assoc, declarations_failureLines]
  simp (disch := (rw [String.toList_ofList]; decide)) only [declared_toList_append, declared_own,
    declared_none, declarations_nil, List.nil_append, List.append_nil]

theorem declarations_get : declarations file.getLines = [(2, "id"), (4, "rows")] := by
  have hfound := declarations_foundLines file "(rows as any[]).length > 0"
    "res.json((rows as any)[0]);" ⟨_, String.toList_ofList⟩
  unfold getLines handlerHead
  simp only [declarations_cons, declarations_append, String.append_assoc, hfound,
    declarations_failureLines]
  simp (disch := (rw [String.toList_ofList]; decide)) only [declared_toList_append, declared_own,
    declared_none, declarations_nil, List.nil_append, List.append_nil, List.singleton_append]

theorem declarations_update (h : ∀ name ∈ file.columns, IsOneWord name) :
    declarations file.updateLines =
      (2, "id") :: (file.columns.map (fun name => (2, name)) ++
        [(2, "values"), (2, "query"), (4, "result")]) := by
  have hfound := declarations_foundLines file "(result as any).affectedRows > 0"
    ("res.json(\x7b id, " ++ (file.columnList ++ " \x7d);")) ⟨_, String.toList_append⟩
  unfold updateLines handlerHead
  simp only [declarations_cons, declarations_append, String.append_assoc, declared_bodyLine h,
    hfound, declarations_failureLines]
  simp (disch := (rw [String.toList_ofList]; decide)) only [declared_toList_append, declared_own,
    declared_none, declarations_nil, List.nil_append, List.append_nil, List.singleton_append]

theorem declarations_delete : declarations file.deleteLines = [(2, "id"), (4, "result")] := by
  have hfound := declarations_foundLines file "(result as any).affectedRows > 0"
    "res.status(204).send();" ⟨_, String.toList_ofList⟩
  unfold deleteLines handlerHead
  simp only [declarations_cons, declarations_append, String.append_assoc, hfound,
    declarations_failureLines]
  simp (disch := (rw [String.toList_ofList]; decide)) only [declared_toList_append, declared_own,
    declared_none, declarations_nil, List.nil_append, List.append_nil, List.singleton_append]

/-! ## The text of the file -/

/-- The blocks of lines between the blank lines of a text. -/
def blocksOf (text : List Char) : List (List String) :=
  ((text.splitOn '\n').map String.ofList).splitOn ""

/-- The handlers in the text of a router: its blocks with a line that calls on the router. -/
def handlersOf (text : List Char) : List (List String) :=
  (blocksOf text).filter (·.any ("router.".toList.isPrefixOf ·.toList))

theorem blocksOf_append (front back : List Char) :
    blocksOf (front ++ '\n' :: '\n' :: back) = blocksOf front ++ blocksOf back := by
  have hblank : ('\n' :: back).splitOn '\n' = [] :: back.splitOn '\n' :=
    List.splitOn_append_cons_self [] back
  unfold blocksOf
  rw [List.splitOn_append_cons_self, hblank, List.map_append, List.map_cons]
  exact List.splitOn_append_cons_self ..

theorem blocksOf_append_newline (text : List Char) :
    blocksOf (text ++ ['\n']) = blocksOf text ++ [[]] := by
  unfold blocksOf
  rw [List.splitOn_append_cons_self, List.map_append]
  exact List.splitOn_append_cons_self ..

theorem blocksOf_lines {lines : List String} (hne : lines ≠ [])
    (h : ∀ line ∈ lines, '\n' ∉ line.toList) :
    blocksOf (Text.join "\n" lines).toList = lines.splitOn "" := by
  unfold blocksOf
  rw [Text.splitOn_join_newline hne h, List.map_map]
  simp

theorem handlersOf_append (front back : List Char) :
    handlersOf (front ++ '\n' :: '\n' :: back) = handlersOf front ++ handlersOf back := by
  unfold handlersOf
  rw [blocksOf_append, List.filter_append]

theorem handlersOf_append_newline (text : List Char) :
    handlersOf (text ++ ['\n']) = handlersOf text := by
  unfold handlersOf
  rw [blocksOf_append_newline, List.filter_append]
  simp

theorem handlersOf_join {texts : List String} (hne : texts ≠ []) :
    handlersOf (Text.join "\n\n" texts).toList =
      texts.flatMap fun text => handlersOf text.toList := by
  induction texts using Text.join.induct with
  | case1 => exact absurd rfl hne
  | case2 text => simp [Text.join_singleton]
  | case3 text more hmore ih =>
    obtain ⟨next, rest, rfl⟩ := List.exists_cons_of_ne_nil (l := more) (by assumption)
    rw [Text.join_cons_cons, String.toList_append, String.toList_append, List.append_assoc,
      List.flatMap_cons, ← ih (by simp)]
    exact handlersOf_append ..

/-- The lines of the handlers are lines, and none of them is blank. -/
theorem isLine_of_mem_handlers (hname : '\n' ∉ file.table.toList)
    (h : ∀ name ∈ file.columns, IsOneWord name) :
    ∀ handler ∈ file.handlers, ∀ line ∈ handler, line ≠ "" ∧ '\n' ∉ line.toList := by
  have hword (name : String) (hmem : name ∈ file.columns) : '\n' ∉ name.toList :=
    (h name hmem).not_mem (by decide)
  have hcolumns := not_mem_columnList h (c := '\n') (by decide) (by decide)
  have hplaceholders : '\n' ∉ file.placeholders.toList :=
    Text.not_mem_join (by decide) (by simp)
  have hassignments : '\n' ∉ file.assignments.toList :=
    Text.not_mem_join (by decide) (by simpa using hword)
  have hvalues : '\n' ∉ file.updateValues.toList :=
    Text.not_mem_join (by decide) (by simpa [or_imp, forall_and] using hword)
  have hcreated : '\n' ∉ file.createdRow.toList :=
    Text.not_mem_join (by decide) (by simpa using hword)
  simp [-String.reduceToList, handlers, createLines, listLines, getLines, updateLines, deleteLines,
    foundLines, failureLines, keyLine, handlerHead, bodyLine, hname, hcolumns, hplaceholders,
    hassignments, hvalues, hcreated]
  and_intros
  all_goals
    rw [String.toList_ofList]
    decide

/-- A handler begins with a comment and a call on the router. -/
theorem exists_head_of_mem_handlers {handler : List String} (h : handler ∈ file.handlers) :
    ∃ comment verb route rest, handler = comment :: handlerHead verb route :: rest := by
  simp only [handlers, List.mem_cons, List.not_mem_nil, or_false] at h
  rcases h with rfl | rfl | rfl | rfl | rfl <;> exact ⟨_, _, _, _, rfl⟩

theorem handlersOf_handler {handler : List String} (hmem : handler ∈ file.handlers)
    (hlines : ∀ line ∈ handler, line ≠ "" ∧ '\n' ∉ line.toList) :
    handlersOf (Text.join "\n" handler).toList = [handler] := by
  obtain ⟨comment, verb, route, rest, rfl⟩ := exists_head_of_mem_handlers hmem
  have hcalls : "router.".toList.isPrefixOf (handlerHead verb route).toList = true := by
    unfold handlerHead
    simp only [String.append_assoc]
    rw [String.toList_append]
    exact List.isPrefixOf_iff_prefix.2 (List.prefix_append _ _)
  unfold handlersOf
  rw [blocksOf_lines (by simp) fun line hline => (hlines line hline).2,
    List.splitOn_eq_singleton fun hblank => (hlines "" hblank).1 rfl,
    List.filter_cons_of_pos (by simp only [List.any_cons, hcalls, Bool.true_or, Bool.or_true]),
    List.filter_nil]

theorem handlersOf_preamble : handlersOf (Text.join "\n" preamble).toList = [] := by
  have hlines : ∀ line ∈ preamble,
      '\n' ∉ line.toList ∧ "router.".toList.isPrefixOf line.toList = false := by
    show ∀ line ∈ [_, _, _, _, _, _, _, _].map String.ofList, _
    rw [List.forall_mem_map, String.toList_ofList]
    simp only [String.toList_ofList]
    decide
  have hblocks : preamble.splitOn "" =
      [preamble.take 2, (preamble.drop 3).take 1, preamble.drop 5] := by
    decide
  have hsubset : ∀ block ∈ preamble.splitOn "", block ⊆ preamble := by
    rw [hblocks]
    simp only [List.forall_mem_cons, List.not_mem_nil, false_imp_iff, implies_true, and_true]
    exact ⟨List.take_subset 2 preamble,
      fun _ hmem => List.mem_of_mem_drop (List.mem_of_mem_take hmem), List.drop_subset 5 preamble⟩
  unfold handlersOf
  rw [blocksOf_lines (by simp [preamble]) fun line hmem => (hlines line hmem).1,
    List.filter_eq_nil_iff]
  intro block hblock
  rw [Bool.not_eq_true, List.any_eq_false]
  exact fun line hline => by simp only [(hlines line (hsubset block hblock hline)).2,
    Bool.false_eq_true, not_false_iff]

theorem handlersOf_render (hname : '\n' ∉ file.table.toList)
    (h : ∀ name ∈ file.columns, IsOneWord name) :
    handlersOf file.render.toList = file.handlers := by
  have hparts : file.parts = preamble :: (file.handlers ++ [["export default router;"]]) := rfl
  have hlines := isLine_of_mem_handlers hname h
  have hhandlers : (file.handlers.flatMap fun handler =>
      handlersOf (Text.join "\n" handler).toList) = file.handlers := by
    rw [List.flatMap_def, List.map_congr_left fun handler hmem =>
      handlersOf_handler hmem (hlines handler hmem), ← List.flatMap_def]
    exact List.flatMap_singleton' _
  have hends : handlersOf (Text.join "\n" ["export default router;"]).toList = [] := by
    rw [Text.join_singleton, String.toList_ofList]
    decide
  unfold render
  rw [String.toList_append]
  refine (handlersOf_append_newline _).trans ?_
  rw [handlersOf_join (by simp [parts]), List.flatMap_map, hparts, List.flatMap_cons,
    handlersOf_preamble, List.flatMap_append, hhandlers, List.flatMap_singleton, hends,
    List.append_nil, List.nil_append]

/-! ## Handlers that are well-formed -/

def updateQuery (table assignments : String) : String :=
  "  const query = \x60UPDATE " ++ table ++ " SET " ++ assignments ++ " WHERE id = ?\x60;"

theorem wordsOf_assignments (h : ∀ name ∈ file.columns, IsOneWord name) :
    wordsOf file.assignments.toList = file.columns := by
  have hword : ∀ name ∈ file.columns, wordsOf (name ++ " = ?").toList = [name] := by
    intro name hmem
    rw [String.toList_append, Text.wordsOf_append_gap (by decide),
      Text.wordsOf_of_isOneWord (h name hmem)]
  unfold assignments
  rw [Text.wordsOf_join (by decide) (by decide), List.flatMap_map, List.flatMap_def,
    List.map_congr_left hword, ← List.flatMap_def]
  exact List.flatMap_singleton' _

theorem updateQuery_mem : updateQuery file.table file.assignments ∈ file.updateLines := by
  unfold updateLines updateQuery
  simp only [List.mem_append, List.mem_cons, true_or, or_true]

/-- No handler declares a name twice in a block if and only if no column is called by a name that a
handler with the columns in it binds next to them. -/
theorem declarations_nodup_iff (h : ∀ name ∈ file.columns, IsOneWord name)
    (hnames : file.columns.Nodup) :
    (∀ handler ∈ file.handlers, (declarations handler).Nodup) ↔
      ∀ name ∈ file.columns, name ≠ "values" ∧ name ≠ "query" ∧ name ≠ "id" := by
  have hmap : (file.columns.map fun name => (2, name)).Nodup :=
    hnames.map fun _ _ heq => (Prod.mk.inj heq).2
  simp only [handlers, List.forall_mem_cons, List.not_mem_nil, false_imp_iff, implies_true,
    and_true, declarations_create h, declarations_list, declarations_get, declarations_update h,
    declarations_delete]
  simp [List.nodup_append, hmap]
  constructor
  · rintro ⟨hcreate, hid, -⟩ name hmem
    exact ⟨(hcreate name hmem).1, (hcreate name hmem).2, ne_of_mem_of_not_mem hmem hid⟩
  · intro hfree
    have hbound (name : String) (hmem : name ∈ file.columns) :=
      And.intro (hfree name hmem).1 (hfree name hmem).2.1
    exact ⟨hbound, fun hmem => (hfree "id" hmem).2.2 rfl, hbound⟩

/-- `declarations_nodup_iff` for the names alone: what the inner block binds counts as well. -/
theorem declaredNames_nodup_iff (h : ∀ name ∈ file.columns, IsOneWord name)
    (hnames : file.columns.Nodup) :
    (∀ handler ∈ file.handlers, ((declarations handler).map (·.2)).Nodup) ↔
      ∀ name ∈ file.columns,
        name ≠ "values" ∧ name ≠ "query" ∧ name ≠ "id" ∧ name ≠ "result" := by
  simp only [handlers, List.forall_mem_cons, List.not_mem_nil, false_imp_iff, implies_true,
    and_true, declarations_create h, declarations_list, declarations_get, declarations_update h,
    declarations_delete]
  simp [List.nodup_append, hnames, Function.comp_def]
  constructor
  · rintro ⟨hcreate, hid, -⟩ name hmem
    obtain ⟨hvalues, hquery, hresult⟩ := hcreate name hmem
    exact ⟨hvalues, hquery, ne_of_mem_of_not_mem hmem hid, hresult⟩
  · intro hfree
    have hbound (name : String) (hmem : name ∈ file.columns) :
        name ≠ "values" ∧ name ≠ "query" ∧ name ≠ "result" :=
      have ⟨hvalues, hquery, _, hresult⟩ := hfree name hmem
      ⟨hvalues, hquery, hresult⟩
    exact ⟨hbound, fun hmem => (hfree "id" hmem).2.2.1 rfl, hbound⟩

theorem forall_mem_columns_ofTable {table : Table} {p : String → Prop} :
    (∀ name ∈ (ofTable table).columns, p name) ↔
      ∀ column ∈ table.columns, isWritable column = true → p column.name := by
  unfold ofTable
  simp only [List.forall_mem_map, List.mem_filter, and_imp]

/-- For a table whose column names are different words:

1. no handler declares a name twice in a block, if and only if no column that clients write is
   called by one of three names;
2. the same for all declarations of a handler, its inner block included, with one name more;
3. the update assigns exactly the columns that clients write, in order, and so at least one if and
   only if there is one;
4. the handlers are what the text of the file has, unless the table name breaks its lines. -/
theorem handlers_wellFormed_iff {table : Table} (hnames : (table.columns.map (·.name)).Nodup)
    (hwords : ∀ column ∈ table.columns, IsOneWord column.name) :
    ((∀ handler ∈ (ofTable table).handlers, (declarations handler).Nodup) ↔
        ∀ column ∈ table.columns, isWritable column = true →
          column.name ≠ "values" ∧ column.name ≠ "query" ∧ column.name ≠ "id") ∧
      ((∀ handler ∈ (ofTable table).handlers, ((declarations handler).map (·.2)).Nodup) ↔
        ∀ column ∈ table.columns, isWritable column = true →
          column.name ≠ "values" ∧ column.name ≠ "query" ∧ column.name ≠ "id" ∧
            column.name ≠ "result") ∧
      (∃ assignments, updateQuery table.name assignments ∈ (ofTable table).updateLines ∧
        wordsOf assignments.toList = (table.columns.filter isWritable).map (·.name) ∧
        (wordsOf assignments.toList ≠ [] ↔ ∃ column ∈ table.columns, isWritable column = true)) ∧
      ('\n' ∉ table.name.toList →
        handlersOf (routerOutput table).contents.toList = (ofTable table).handlers) := by
  have h : ∀ name ∈ (ofTable table).columns, IsOneWord name :=
    forall_mem_columns_ofTable.2 fun column hmem _ => hwords column hmem
  have hnodup : (ofTable table).columns.Nodup :=
    hnames.sublist (List.filter_sublist.map _)
  refine ⟨(declarations_nodup_iff h hnodup).trans forall_mem_columns_ofTable,
    (declaredNames_nodup_iff h hnodup).trans forall_mem_columns_ofTable,
    ⟨_, updateQuery_mem, wordsOf_assignments h, ?_⟩, fun hname => handlersOf_render hname h⟩
  rw [wordsOf_assignments h]
  simp [ofTable]

/-- The key counts up and the time is set by the database, so that they are in no one's way. A
column called `values` is. -/
theorem handlers_wellFormed_iff_orders :
    let table : Table :=
      ⟨"orders", [⟨"id", .int, none, none, none, true, none⟩,
        ⟨"values", .text, none, none, none, false, none⟩,
        ⟨"made", .timestamp, none, some "CURRENT_TIMESTAMP", none, false, none⟩], none⟩
    (table.columns.map (·.name)).Nodup ∧ (∀ column ∈ table.columns, IsOneWord column.name) ∧
      ¬ (∀ handler ∈ (ofTable table).handlers, (declarations handler).Nodup) ∧
      (∃ assignments, updateQuery "orders" assignments ∈ (ofTable table).updateLines ∧
        wordsOf assignments.toList = ["values"]) ∧
      handlersOf (routerOutput table).contents.toList = (ofTable table).handlers := by
  intro table
  have hnames : (table.columns.map (·.name)).Nodup := by decide
  have hwords : ∀ column ∈ table.columns, IsOneWord column.name := by decide
  obtain ⟨hblocks, -, ⟨assignments, hmem, hassigned, -⟩, htext⟩ :=
    handlers_wellFormed_iff hnames hwords
  refine ⟨hnames, hwords, fun hnodup => ?_, ⟨assignments, hmem, hassigned⟩, htext (by decide)⟩
  have hvalues := hblocks.1 hnodup ⟨"values", .text, none, none, none, false, none⟩ (by decide)
    (by decide)
  exact hvalues.1 rfl

/-- A key that clients write is declared twice by the update, once as the key and once as a
column. -/
theorem not_forall_handlers_wellFormed :
    ¬ ∀ table : Table, (table.columns.map (·.name)).Nodup →
      (∀ column ∈ table.columns, IsOneWord column.name) →
      (∀ handler ∈ (ofTable table).handlers, (declarations handler).Nodup) ∧
        ∃ assignments, updateQuery table.name assignments ∈ (ofTable table).updateLines ∧
          wordsOf assignments.toList ≠ [] := by
  intro h
  let table : Table :=
    ⟨"t", [⟨"id", .int, none, none, none, false, none⟩, ⟨"n", .int, none, none, none, false, none⟩],
      none⟩
  have hwords : ∀ name ∈ (ofTable table).columns, IsOneWord name := by decide
  have hnodup := (h table (by decide) (by decide)).1
  have hfree := (declarations_nodup_iff hwords (by decide)).1 hnodup "id" (by decide)
  exact hfree.2.2 rfl

end RouterFile

end TableScribe.Code
