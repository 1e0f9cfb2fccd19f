import Mathlib.Data.List.Basic
import TableScribe.Proofs.Code.Handlers

/-!
# What the handlers of a router bind

A query has placeholders, and the database puts the values of an array in their places, the first
value in the place of the first one and so on. The names of the columns, the placeholders and the
values are joined into lists of their own, and only their order says which value is for which
column. The lists are read off the lines of the handlers.

1. `itemsOf_join`: the items of a list are read back from its text.
2. `readLine?`: what a line says about the database, and `readLine?_append_of_silent`: how much of a
   line shows that it says nothing.
3. `readings_create` … `readings_delete`: what is read in each of the five handlers.
4. `readings_render`: the same for the text of the file, with the columns of the table.
-/

namespace TableScribe.Code

open Text (IsOneWord)

/-! ## Texts in pieces -/

/-- What follows the first `stop` in a text, and what is in front of it. -/
def cutAt? (stop : Char) : List Char → Option (List Char × List Char)
  | [] => none
  | c :: rest =>
    if c = stop then some ([], rest)
    else (cutAt? stop rest).map fun (front, back) => (c :: front, back)

theorem cutAt?_append {stop : Char} {front : List Char} (h : stop ∉ front) (back : List Char) :
    cutAt? stop (front ++ stop :: back) = some (front, back) := by
  induction front with
  | nil => exact if_pos rfl
  | cons c front ih =>
    rw [List.mem_cons, not_or] at h
    rw [List.cons_append, cutAt?, if_neg (Ne.symm h.1), ih h.2]
    rfl

/-- What a text has between an opening and a closing. -/
def inside? (opening closing : String) (text : List Char) : Option (List Char) :=
  (text.dropPrefix? opening.toList).bind (·.dropSuffix? closing.toList)

theorem inside?_append (opening closing : String) (text : List Char) :
    inside? opening closing (opening.toList ++ (text ++ closing.toList)) = some text := by
  unfold inside?
  rw [List.dropPrefix?_append_of_beq _ BEq.rfl]
  exact List.dropSuffix?_eq_some_iff.2 ⟨_, rfl, BEq.rfl⟩

/-- The items of a list, with a comma and a blank between neighbours. An empty text has none. -/
def itemsOf (text : List Char) : List String :=
  if text = [] then [] else (Text.splitOn ", ".toList text).map String.ofList

theorem itemsOf_join {items : List String} (h : ∀ item ∈ items, item ≠ "" ∧ ',' ∉ item.toList) :
    itemsOf (Text.join ", " items).toList = items := by
  rcases items with _ | ⟨first, more⟩
  · rfl
  · have hne : (Text.join ", " (first :: more)).toList ≠ [] := by
      have hfirst : first.toList ≠ [] := by simpa using (h first List.mem_cons_self).1
      cases more with
      | nil => exact hfirst
      | cons next rest => simp [Text.join_cons_cons, hfirst]
    unfold itemsOf
    rw [if_neg hne, Text.splitOn_join String.toList_ofList (by simp) fun item hmem =>
      (h item hmem).2, List.map_map]
    simp

theorem itemsOf_words {words : List String} (h : ∀ word ∈ words, IsOneWord word) :
    itemsOf (Text.join ", " words).toList = words :=
  itemsOf_join fun word hmem => ⟨(h word hmem).1, (h word hmem).not_mem (by decide)⟩

/-- An assignment: a name and what is assigned to it. -/
def assignment? (item : String) : Option (String × String) :=
  (cutAt? ' ' item.toList).bind fun (name, rest) =>
    (rest.dropPrefix? "= ".toList).map fun value => (String.ofList name, String.ofList value)

example : (itemsOf "a = ?, b = 1".toList).mapM assignment? = some [("a", "?"), ("b", "1")] := by
  decide

/-! ## What a line says -/

/-- What a line of a handler says about the database. -/
inductive Reading where
  /-- The handler answers requests of this kind. -/
  | answers (verb : String)
  /-- These values are bound. -/
  | values (names : List String)
  /-- A row is inserted. -/
  | insert (table : String) (columns placeholders : List String)
  /-- The row is updated whose `id` is in the last placeholder. -/
  | update (table : String) (assignments : List (String × String))
  deriving DecidableEq, Repr

def readVerb? (line : List Char) : Option Reading :=
  (line.dropPrefix? "router.".toList).bind fun text =>
    (cutAt? '(' text).map fun (verb, _) => .answers (String.ofList verb)

def readValues? (line : List Char) : Option Reading :=
  (inside? "  const values = [" "];" line).map fun text => .values (itemsOf text)

/-- An insert names the table, then the columns in brackets, then the placeholders in brackets. -/
def readInsert? (line : List Char) : Option Reading := do
  let text ← inside? "  const query = \x60INSERT INTO " ")\x60;" line
  let (table, text) ← cutAt? ' ' text
  let text ← text.dropPrefix? "(".toList
  let (columns, text) ← cutAt? ')' text
  let placeholders ← text.dropPrefix? " VALUES (".toList
  return .insert (String.ofList table) (itemsOf columns) (itemsOf placeholders)

/-- An update names the table, then the assignments, and ends with the condition on the key. -/
def readUpdate? (line : List Char) : Option Reading := do
  let text ← inside? "  const query = \x60UPDATE " " WHERE id = ?\x60;" line
  let (table, text) ← cutAt? ' ' text
  let assignments ← text.dropPrefix? "SET ".toList
  return .update (String.ofList table) (← (itemsOf assignments).mapM assignment?)

def readLine? (line : List Char) : Option Reading :=
  (readVerb? line).or <| (readValues? line).or <| (readInsert? line).or <| readUpdate? line

/-- What the lines of a handler say about the database. -/
def readings (lines : List String) : List Reading :=
  lines.filterMap fun line => readLine? line.toList

theorem readings_cons (line : String) (lines : List String) :
    readings (line :: lines) = (readLine? line.toList).toList ++ readings lines := by
  unfold readings
  rw [List.filterMap_cons]
  cases readLine? line.toList <;> rfl

theorem readings_append (front back : List String) :
    readings (front ++ back) = readings front ++ readings back :=
  List.filterMap_append

/-- Whether this much of a line shows that the line does not begin with the opening. -/
def differs (opening : String) (front : List Char) : Bool :=
  !opening.toList.isPrefixOf front && !front.isPrefixOf opening.toList

theorem dropPrefix?_append_of_differs {opening : String} {front : List Char}
    (h : differs opening front = true) (back : List Char) :
    (front ++ back).dropPrefix? opening.toList = none := by
  unfold differs at h
  rw [Bool.and_eq_true, Bool.not_eq_true', Bool.not_eq_true', Bool.eq_false_iff, Bool.eq_false_iff,
    Ne, Ne, List.isPrefixOf_iff_prefix, List.isPrefixOf_iff_prefix] at h
  refine Option.eq_none_iff_forall_ne_some.2 fun rest hrest => ?_
  obtain ⟨start, happend, hstart⟩ := List.dropPrefix?_eq_some_iff.1 hrest
  obtain rfl := eq_of_beq hstart
  rcases List.append_eq_append_iff.1 happend with ⟨more, hmore, -⟩ | ⟨more, hmore, -⟩
  · exact h.2 ⟨more, hmore.symm⟩
  · exact h.1 ⟨more, hmore.symm⟩

section Differs

variable {front : List Char} (back : List Char)

theorem inside?_append_of_differs {opening : String} (h : differs opening front = true)
    (closing : String) : inside? opening closing (front ++ back) = none := by
  unfold inside?
  rw [dropPrefix?_append_of_differs h]
  rfl

theorem readVerb?_append_of_differs (h : differs "router." front = true) :
    readVerb? (front ++ back) = none := by
  unfold readVerb?
  rw [dropPrefix?_append_of_differs h]
  rfl

theorem readValues?_append_of_differs (h : differs "  const values = [" front = true) :
    readValues? (front ++ back) = none := by
  unfold readValues?
  rw [inside?_append_of_differs back h]
  rfl

theorem readInsert?_append_of_differs
    (h : differs "  const query = \x60INSERT INTO " front = true) :
    readInsert? (front ++ back) = none := by
  unfold readInsert?
  rw [inside?_append_of_differs back h]
  rfl

theorem readUpdate?_append_of_differs (h : differs "  const query = \x60UPDATE " front = true) :
    readUpdate? (front ++ back) = none := by
  unfold readUpdate?
  rw [inside?_append_of_differs back h]
  rfl

end Differs

/-- Whether this much of a line shows that the line says nothing. -/
def isSilent (front : List Char) : Bool :=
  differs "router." front && differs "  const values = [" front &&
    differs "  const query = \x60INSERT INTO " front && differs "  const query = \x60UPDATE " front

theorem readLine?_append_of_silent {front : List Char} (h : isSilent front = true)
    (back : List Char) : readLine? (front ++ back) = none := by
  simp only [isSilent, Bool.and_eq_true] at h
  obtain ⟨⟨⟨hverb, hvalues⟩, hinsert⟩, hupdate⟩ := h
  unfold readLine?
  rw [readVerb?_append_of_differs back hverb, readValues?_append_of_differs back hvalues,
    readInsert?_append_of_differs back hinsert, readUpdate?_append_of_differs back hupdate]
  rfl

theorem readLine?_of_silent {line : String} (h : isSilent line.toList = true) :
    readLine? line.toList = none := by
  have hnone := readLine?_append_of_silent h []
  rwa [List.append_nil] at hnone

/-- `readLine?_append_of_silent` for a line that is put together from texts. -/
theorem readLine?_toList_append {front : String} (h : isSilent front.toList = true)
    (back : String) : readLine? (front ++ back).toList = none := by
  rw [String.toList_append, readLine?_append_of_silent h]

/-! ## What the handlers say -/

namespace RouterFile

variable {file : RouterFile}

theorem readLine?_handlerHead {verb : String} (h : '(' ∉ verb.toList) (route : String) :
    readLine? (handlerHead verb route).toList = some (.answers verb) := by
  have htext : (handlerHead verb route).toList = "router.".toList ++ (verb.toList ++ '(' ::
      ("\x27".toList ++ route.toList ++
        "\x27, async (req: Request, res: Response) => \x7b".toList)) := by
    unfold handlerHead
    simp
  have hverb : readVerb? (handlerHead verb route).toList = some (.answers verb) := by
    unfold readVerb?
    rw [htext, List.dropPrefix?_append_of_beq _ BEq.rfl, Option.bind_some, cutAt?_append h]
    simp
  unfold readLine?
  rw [hverb, Option.some_or]

theorem readLine?_values {names : List String} (h : ∀ name ∈ names, IsOneWord name) :
    readLine? ("  const values = [" ++ Text.join ", " names ++ "];").toList =
      some (.values names) := by
  rw [String.toList_append, String.toList_append, List.append_assoc]
  unfold readLine?
  rw [readVerb?_append_of_differs _ (by decide), Option.none_or]
  unfold readValues?
  rw [inside?_append, Option.map_some, itemsOf_words h, Option.some_or]

def insertQuery (table columns placeholders : String) : String :=
  "  const query = \x60INSERT INTO " ++ table ++ " (" ++ columns ++ ") VALUES (" ++ placeholders ++
    ")\x60;"

theorem readLine?_insertQuery (htable : IsOneWord file.table)
    (h : ∀ name ∈ file.columns, IsOneWord name) :
    readLine? (insertQuery file.table file.columnList file.placeholders).toList =
      some (.insert file.table file.columns (List.replicate file.columns.length "?")) := by
  have hspace : ' ' ∉ file.table.toList := htable.not_mem (by decide)
  have hclose : ')' ∉ file.columnList.toList := not_mem_columnList h (by decide) (by decide)
  have hcolumns : itemsOf file.columnList.toList = file.columns := itemsOf_words h
  have hplaceholders :
      itemsOf file.placeholders.toList = List.replicate file.columns.length "?" := by
    rw [← List.map_const']
    exact itemsOf_join (List.forall_mem_map.2 fun _ _ => by decide)
  have htext : (insertQuery file.table file.columnList file.placeholders).toList =
      "  const query = \x60INSERT INTO ".toList ++ ((file.table.toList ++ ' ' :: ("(".toList ++
        (file.columnList.toList ++ ')' :: (" VALUES (".toList ++
          file.placeholders.toList)))) ++ ")\x60;".toList) := by
    unfold insertQuery
    simp
  rw [htext]
  unfold readLine?
  rw [readVerb?_append_of_differs _ (by decide), readValues?_append_of_differs _ (by decide),
    Option.none_or, Option.none_or]
  unfold readInsert?
  rw [inside?_append]
  simp only [Option.bind_eq_bind, Option.bind_some, cutAt?_append hspace, cutAt?_append hclose,
    List.dropPrefix?_append_of_beq _ BEq.rfl, hcolumns, hplaceholders, String.ofList_toList]
  rfl

theorem assignment?_append {name : String} (h : IsOneWord name) :
    assignment? (name ++ " = ?") = some (name, "?") := by
  have htext : (name ++ " = ?").toList = name.toList ++ ' ' :: ("= ".toList ++ "?".toList) := by
    simp
  have hspace : ' ' ∉ name.toList := h.not_mem (by decide)
  unfold assignment?
  simp only [htext, cutAt?_append hspace, Option.bind_some,
    List.dropPrefix?_append_of_beq _ BEq.rfl, Option.map_some, String.ofList_toList]

theorem mapM_assignment? {names : List String} (h : ∀ name ∈ names, IsOneWord name) :
    (names.map (· ++ " = ?")).mapM assignment? = some (names.map fun name => (name, "?")) := by
  induction names with
  | nil => rfl
  | cons name names ih =>
    rw [List.forall_mem_cons] at h
    rw [List.map_cons, List.mapM_cons, assignment?_append h.1, ih h.2]
    rfl

theorem readLine?_updateQuery (htable : IsOneWord file.table)
    (h : ∀ name ∈ file.columns, IsOneWord name) :
    readLine? (updateQuery file.table file.assignments).toList =
      some (.update file.table (file.columns.map fun name => (name, "?"))) := by
  have hspace : ' ' ∉ file.table.toList := htable.not_mem (by decide)
  have hitems : itemsOf file.assignments.toList = file.columns.map (· ++ " = ?") := by
    refine itemsOf_join (List.forall_mem_map.2 fun name hmem => ⟨by simp, ?_⟩)
    rw [String.toList_append, List.mem_append, not_or]
    exact ⟨(h name hmem).not_mem (by decide), by decide⟩
  have htext : (updateQuery file.table file.assignments).toList =
      "  const query = \x60UPDATE ".toList ++ ((file.table.toList ++ ' ' :: ("SET ".toList ++
        file.assignments.toList)) ++ " WHERE id = ?\x60;".toList) := by
    unfold updateQuery
    simp
  rw [htext]
  unfold readLine?
  rw [readVerb?_append_of_differs _ (by decide), readValues?_append_of_differs _ (by decide),
    readInsert?_append_of_differs _ (by decide), Option.none_or, Option.none_or, Option.none_or]
  unfold readUpdate?
  rw [inside?_append]
  simp only [Option.bind_eq_bind, Option.bind_some, cutAt?_append hspace,
    List.dropPrefix?_append_of_beq _ BEq.rfl, hitems, mapM_assignment? h, String.ofList_toList]
  rfl

theorem readings_failureLines : readings failureLines = [] := by
  unfold failureLines
  simp (disch := (unfold isSilent differs; (repeat rw [String.toList_ofList]); decide)) only
    [readings_cons, readLine?_of_silent]
  rfl

theorem readings_foundLines (file : RouterFile) (test found : String) :
    readings (file.foundLines test found) = [] := by
  unfold foundLines
  simp only [readings_cons, String.append_assoc]
  simp (disch := (unfold isSilent differs; (repeat rw [String.toList_ofList]); decide)) only
    [readLine?_toList_append, readLine?_of_silent]
  rfl

theorem readings_create (htable : IsOneWord file.table)
    (h : ∀ name ∈ file.columns, IsOneWord name) :
    readings file.createLines = [.answers "post", .values file.columns,
      .insert file.table file.columns (List.replicate file.columns.length "?")] := by
  have hvalues : readLine? ("  const values = [" ++ file.columnList ++ "];").toList =
      some (.values file.columns) := readLine?_values h
  have hquery := readLine?_insertQuery htable h
  unfold insertQuery at hquery
  unfold createLines bodyLine
  simp only [readings_append, readings_cons, readings_failureLines, hvalues, hquery]
  rw [readLine?_handlerHead (by decide)]
  simp only [String.append_assoc]
  simp (disch := (unfold isSilent differs; (repeat rw [String.toList_ofList]); decide)) only
    [readLine?_toList_append, readLine?_of_silent]
  rfl

theorem readings_update (htable : IsOneWord file.table)
    (h : ∀ name ∈ file.columns, IsOneWord name) :
    readings file.updateLines = [.answers "put", .values (file.columns ++ ["id"]),
      .update file.table (file.columns.map fun name => (name, "?"))] := by
  have hnames : ∀ name ∈ file.columns ++ ["id"], IsOneWord name :=
    List.forall_mem_append.2 ⟨h, by decide⟩
  have hvalues : readLine? ("  const values = [" ++ file.updateValues ++ "];").toList =
      some (.values (file.columns ++ ["id"])) := readLine?_values hnames
  have hquery := readLine?_updateQuery htable h
  unfold updateQuery at hquery
  unfold updateLines bodyLine keyLine
  simp only [readings_append, readings_cons, readings_failureLines, readings_foundLines, hvalues,
    hquery]
  rw [readLine?_handlerHead (by decide)]
  simp only [String.append_assoc]
  simp (disch := (unfold isSilent differs; (repeat rw [String.toList_ofList]); decide)) only
    [readLine?_toList_append, readLine?_of_silent]
  rfl

/-! The other handlers bind nothing that comes from the columns. -/

theorem readings_list : readings file.listLines = [.answers "get"] := by
  unfold listLines
  simp only [readings_append, readings_cons, readings_failureLines]
  rw [readLine?_handlerHead (by decide)]
  simp only [String.append_assoc]
  simp (disch := (unfold isSilent differs; (repeat rw [String.toList_ofList]); decide)) only
    [readLine?_toList_append, readLine?_of_silent]
  rfl

theorem readings_get : readings file.getLines = [.answers "get"] := by
  unfold getLines keyLine
  simp only [readings_append, readings_cons, readings_failureLines, readings_foundLines]
  rw [readLine?_handlerHead (by decide)]
  simp only [String.append_assoc]
  simp (disch := (unfold isSilent differs; (repeat rw [String.toList_ofList]); decide)) only
    [readLine?_toList_append, readLine?_of_silent]
  rfl

theorem readings_delete : readings file.deleteLines = [.answers "delete"] := by
  unfold deleteLines keyLine
  simp only [readings_append, readings_cons, readings_failureLines, readings_foundLines]
  rw [readLine?_handlerHead (by decide)]
  simp only [String.append_assoc]
  simp (disch := (unfold isSilent differs; (repeat rw [String.toList_ofList]); decide)) only
    [readLine?_toList_append, readLine?_of_silent]
  rfl

/-! ## The values of a table -/

/-- The columns that clients write, in order. The database counts up or sets the time of the others
itself. -/
theorem columns_ofTable (table : Table) :
    (ofTable table).columns = (table.columns.filter fun column =>
      column.autoIncrement = false ∧
        ¬ (column.type = .timestamp ∧ column.default = some "CURRENT_TIMESTAMP")).map (·.name) := by
  have htests : isWritable = fun column =>
      decide (column.autoIncrement = false ∧
        ¬ (column.type = .timestamp ∧ column.default = some "CURRENT_TIMESTAMP")) := by
    funext column
    show (!column.autoIncrement &&
      !(column.type = .timestamp && column.default = some "CURRENT_TIMESTAMP")) = _
    simp
  unfold ofTable
  rw [htests]

/-- For a table whose names are words, reading the text of its router back gives, in order:

1. the handler of a create, which binds the columns that clients write to an insert of as many
   columns, the same in the same order, and as many placeholders;
2. the two handlers that only read;
3. the handler of an update, which binds the columns and then the key, and assigns a placeholder to
   each column, in the same order, in the row with the key;
4. the handler of a delete.

No other line sets the values or the query of an insert or an update. -/
theorem readings_render {table : Table} (htable : IsOneWord table.name)
    (hwords : ∀ column ∈ table.columns, IsOneWord column.name) :
    let names := (table.columns.filter fun column =>
      column.autoIncrement = false ∧
        ¬ (column.type = .timestamp ∧ column.default = some "CURRENT_TIMESTAMP")).map (·.name)
    (handlersOf (routerOutput table).contents.toList).map readings =
      [[.answers "post", .values names,
          .insert table.name names (List.replicate names.length "?")],
        [.answers "get"],
        [.answers "get"],
        [.answers "put", .values (names ++ ["id"]),
          .update table.name (names.map fun name => (name, "?"))],
        [.answers "delete"]] := by
  intro names
  have hnames : (ofTable table).columns = names := columns_ofTable table
  have h : ∀ name ∈ (ofTable table).columns, IsOneWord name :=
    forall_mem_columns_ofTable.2 fun column hmem _ => hwords column hmem
  have htext : handlersOf (routerOutput table).contents.toList = (ofTable table).handlers :=
    handlersOf_render (htable.not_mem (by decide)) h
  rw [htext, ← hnames]
  unfold handlers
  simp only [List.map_cons, List.map_nil, readings_create htable h, readings_list, readings_get,
    readings_update htable h, readings_delete]
  rfl

/-- The key and the time are left out, and the other columns stay in order whatever they are
called. -/
theorem readings_render_orders :
    let table : Table :=
      ⟨"orders", [⟨"id", .int, none, none, none, true, none⟩,
        ⟨"SET", .text, none, none, none, false, none⟩,
        ⟨"made", .timestamp, none, some "CURRENT_TIMESTAMP", none, false, none⟩,
        ⟨"WHERE", .text, none, some "CURRENT_TIMESTAMP", none, false, none⟩,
        ⟨"seen", .timestamp, none, none, none, false, none⟩], none⟩
    IsOneWord table.name ∧ (∀ column ∈ table.columns, IsOneWord column.name) ∧
      (handlersOf (routerOutput table).contents.toList).map readings =
        [[.answers "post", .values ["SET", "WHERE", "seen"],
            .insert "orders" ["SET", "WHERE", "seen"] ["?", "?", "?"]],
          [.answers "get"],
          [.answers "get"],
          [.answers "put", .values ["SET", "WHERE", "seen", "id"],
            .update "orders" [("SET", "?"), ("WHERE", "?"), ("seen", "?")]],
          [.answers "delete"]] := by
  intro table
  have htable : IsOneWord table.name := by decide
  have hwords : ∀ column ∈ table.columns, IsOneWord column.name := by decide
  exact ⟨htable, hwords, readings_render htable hwords⟩

end RouterFile

end TableScribe.Code
