import TableScribe.Proofs.Statement.Parts

/-!
# What column definitions say

A statement is written here from its content: a table name and for each column a name, a type and
any number of modifiers in any order. `parseTokens_of_written` says that both readings give back
exactly this content.

1. `Modifier`, `TypeClause`, `ColumnSource`: the content of a definition, each with a relation
   `Written` to the tokens that express it.
2. `Listed`: anything written several times with commas in between.
3. `ColumnSource.column`: the column that a definition means. Of several defaults or comments the
   last one counts.
4. Every piece is one run of the walk and changes nothing but the draft (`Modifier.Written.runs`,
   `TypeClause.Written.runs`); a comma finishes the draft and so does the closing parenthesis.
-/

namespace TableScribe

open ColumnWalk

/-! ## Definitions and their tokens -/

/-- What may follow the type of a column. -/
inductive Modifier
  | notNull
  | null
  | primaryKey
  | unique
  | autoIncrement
  | defaultNull
  | default (text : String)
  | comment (text : String)
  deriving DecidableEq, Repr

/-- The token is a default value of that text. -/
inductive DefaultText : Token → String → Prop
  | literal {token : Token} {text : String}
      (hk : token.kind ∈ [TokenKind.stringLiteral, .realLiteral, .integerLiteral])
      (hs : token.Says text) : DefaultText token text
  | currentTimestamp {token : Token} (hk : token.kind = .keyword .currentTimestamp) :
      DefaultText token "CURRENT_TIMESTAMP"

/-- The tokens express the modifier. -/
inductive Modifier.Written : Modifier → List Token → Prop
  | notNull {token : Token} (hk : token.kind = .notNull) : Written .notNull [token]
  | notAndNull {first second : Token} (h1 : first.kind = .keyword .notWord)
      (h2 : second.kind = .keyword .null) : Written .notNull [first, second]
  | null {token : Token} (hk : token.kind = .keyword .null) : Written .null [token]
  | primaryKey {first second : Token} (h1 : first.kind = .keyword .primary)
      (h2 : second.kind = .keyword .key) : Written .primaryKey [first, second]
  | unique {token : Token} (hk : token.kind = .keyword .unique) : Written .unique [token]
  | autoIncrement {token : Token} (hk : token.kind = .keyword .autoIncrement) :
      Written .autoIncrement [token]
  | defaultNull {first second : Token} (h1 : first.kind = .keyword .default)
      (h2 : second.kind = .keyword .null) : Written .defaultNull [first, second]
  | default {first second : Token} {text : String} (h1 : first.kind = .keyword .default)
      (h2 : DefaultText second text) : Written (.default text) [first, second]
  | comment {first second : Token} {text : String} (h1 : first.kind = .keyword .comment)
      (h2 : second.kind = .stringLiteral) (hs : second.Says text) :
      Written (.comment text) [first, second]

/-- The tokens express the things one after another, with a comma between neighbours. -/
inductive Listed {α : Type} (written : α → List Token → Prop) : List α → List Token → Prop
  | nil : Listed written [] []
  | single {a : α} {tokens : List Token} (h : written a tokens) : Listed written [a] tokens
  | cons {a next : α} {others : List α} {tokens rest : List Token} {comma : Token}
      (h : written a tokens) (hc : comma.kind = .comma)
      (hr : Listed written (next :: others) rest) :
      Listed written (a :: next :: others) (tokens ++ comma :: rest)

theorem Listed.map {α β : Type} {written : α → List Token → Prop}
    {expressed : β → List Token → Prop} (f : α → β) {things : List α} {tokens : List Token}
    (h : Listed written things tokens)
    (hf : ∀ a tokens, written a tokens → expressed (f a) tokens) :
    Listed expressed (things.map f) tokens := by
  induction h with
  | nil => exact .nil
  | single h => exact .single (hf _ _ h)
  | cons h hc _ ih => exact .cons (hf _ _ h) hc ih

theorem Listed.exists_of_mem {α : Type} {written : α → List Token → Prop} {things : List α}
    {tokens : List Token} (h : Listed written things tokens) {a : α} (ha : a ∈ things) :
    ∃ part, written a part := by
  induction h with
  | nil => exact absurd ha List.not_mem_nil
  | single h =>
    rw [List.mem_singleton.1 ha]
    exact ⟨_, h⟩
  | cons h _ _ ih =>
    rcases List.mem_cons.1 ha with rfl | hothers
    · exact ⟨_, h⟩
    · exact ih hothers

def StringWritten (text : String) (tokens : List Token) : Prop :=
  ∃ token : Token, tokens = [token] ∧ token.kind = .stringLiteral ∧ token.Says text

/-- The type of a column: a key word, perhaps with a length, or an `ENUM` with its values. -/
inductive TypeClause
  | plain (type : ColumnType)
  | sized (type : ColumnType) (length : String)
  | enum (values : List String)
  deriving DecidableEq, Repr

/-- The tokens express the type. What stands by itself is not an `enum`, whose name no key word has
as its spelling. -/
inductive TypeClause.Written : TypeClause → List Token → Prop
  | plain {token : Token} {word : Keyword} {type : ColumnType} (hk : token.kind = .keyword word)
      (ht : word.spelling = type.name) : Written (.plain type) [token]
  | sized {token suffix : Token} {word : Keyword} {type : ColumnType} {length : String}
      (hk : token.kind = .keyword word) (ht : word.spelling = type.name)
      (hl : suffix.kind = .length) (hs : suffix.Says length) (hne : length ≠ "") :
      Written (.sized type length) [token, suffix]
  | enum {token opening closing : Token} {values : List String} {list : List Token}
      (hk : token.kind = .keyword .enum) (ho : opening.kind = .leftParen)
      (hl : Listed StringWritten values list) (hc : closing.kind = .rightParen) :
      Written (.enum values) (token :: opening :: (list ++ [closing]))

structure ColumnSource where
  name : String
  type : TypeClause
  modifiers : List Modifier := []
  deriving DecidableEq, Repr

inductive ModifiersWritten : List Modifier → List Token → Prop
  | nil : ModifiersWritten [] []
  | cons {modifier : Modifier} {others : List Modifier} {tokens rest : List Token}
      (h : modifier.Written tokens) (hr : ModifiersWritten others rest) :
      ModifiersWritten (modifier :: others) (tokens ++ rest)

/-- The tokens express the definition: a name that is not empty, a type, and modifiers. -/
inductive ColumnSource.Written : ColumnSource → List Token → Prop
  | mk {source : ColumnSource} {token : Token} {type modifiers : List Token}
      (hk : token.kind.isName = true) (hs : token.Says source.name) (hne : source.name ≠ "")
      (ht : source.type.Written type) (ha : ModifiersWritten source.modifiers modifiers) :
      Written source (token :: (type ++ modifiers))

/-- The tokens express a table of that name with these columns: `CREATE TABLE`, the name with or
without `IF NOT EXISTS`, the definitions in parentheses, and a semicolon. -/
inductive TableWritten (name : String) (sources : List ColumnSource) : List Token → Prop
  | mk {create word token opening closing semicolon : Token} {condition list : List Token}
      (h1 : create.kind = .keyword .create) (h2 : word.kind = .keyword .table)
      (hc : Condition condition) (hk : token.kind.isName = true) (hs : token.Says name)
      (h3 : opening.kind = .leftParen) (hl : Listed ColumnSource.Written sources list)
      (h4 : closing.kind = .rightParen) (h5 : semicolon.kind = .semicolon) :
      TableWritten name sources
        (create :: word :: (condition ++ token :: opening :: (list ++ [closing, semicolon])))

/-! ## What a definition means -/

def Modifier.default? : Modifier → Option String
  | .default text => some text
  | _ => none

def Modifier.comment? : Modifier → Option String
  | .comment text => some text
  | _ => none

def TypeClause.type : TypeClause → ColumnType
  | .plain type => type
  | .sized type _ => type
  | .enum _ => .enum

/-- The length, which only a `VARCHAR` has. -/
def TypeClause.length? : TypeClause → Option String
  | .sized .varchar length => some length
  | _ => none

/-- The values, which only an `ENUM` has. -/
def TypeClause.values? : TypeClause → Option (List String)
  | .enum values => some values
  | _ => none

def ColumnSource.column (source : ColumnSource) : Column where
  name := source.name
  type := source.type.type
  length := source.type.length?
  default := (source.modifiers.filterMap Modifier.default?).getLast?
  values := source.type.values?
  autoIncrement := decide (Modifier.autoIncrement ∈ source.modifiers)
  comment := (source.modifiers.filterMap Modifier.comment?).getLast?.bind nonEmpty

/-! ## Drafts of definitions -/

def Modifier.apply : Modifier → ColumnDraft → ColumnDraft
  | .autoIncrement, draft => draft.setAutoIncrement
  | .default text, draft => draft.setDefault text
  | .comment text, draft => draft.setComment text
  | _, draft => draft

def TypeClause.apply : TypeClause → ColumnDraft → ColumnDraft
  | .plain type, draft => draft.setType type
  | .sized .varchar length, draft => (draft.setType .varchar).setLength length
  | .sized type _, draft => draft.setType type
  | .enum values, draft => draft.setValues values

def applyModifiers (modifiers : List Modifier) (draft : ColumnDraft) : ColumnDraft :=
  modifiers.foldl (fun draft modifier => modifier.apply draft) draft

theorem getLast?_filterMap_cons {α β : Type} (f : α → Option β) (a : α) (rest : List α)
    (given : Option β) :
    ((a :: rest).filterMap f).getLast?.or given =
      (rest.filterMap f).getLast?.or ((f a).or given) := by
  cases h : f a with
  | none => rw [List.filterMap_cons_none h, Option.none_or]
  | some b =>
    rw [List.filterMap_cons_some h, List.getLast?_cons, Option.some_or]
    cases (rest.filterMap f).getLast? <;> rfl

/-- Later defaults and comments replace earlier ones, and nothing else changes. -/
theorem applyModifiers_eq (modifiers : List Modifier) (draft : ColumnDraft) :
    applyModifiers modifiers draft =
      { draft with
        default := (modifiers.filterMap Modifier.default?).getLast?.or draft.default
        autoIncrement := decide (Modifier.autoIncrement ∈ modifiers) || draft.autoIncrement
        comment := (modifiers.filterMap Modifier.comment?).getLast?.or draft.comment } := by
  induction modifiers generalizing draft with
  | nil => rfl
  | cons modifier rest ih =>
    have hstep : applyModifiers (modifier :: rest) draft =
        applyModifiers rest (modifier.apply draft) := rfl
    rw [hstep, ih, getLast?_filterMap_cons, getLast?_filterMap_cons]
    cases modifier <;> simp [Modifier.apply, Modifier.default?, Modifier.comment?,
      ColumnDraft.setAutoIncrement, ColumnDraft.setDefault, ColumnDraft.setComment]

/-- The draft of a whole definition becomes the column that the definition means. -/
theorem ColumnSource.build_draft {source : ColumnSource} {tokens : List Token}
    (h : source.Written tokens) :
    (applyModifiers source.modifiers (source.type.apply (.named source.name))).build =
      some source.column := by
  obtain ⟨hk, hs, hne, ht, ha⟩ := h
  have hname : nonEmpty source.name = some source.name := nonEmpty_eq_some.2 ⟨rfl, hne⟩
  rw [applyModifiers_eq]
  unfold ColumnDraft.build ColumnSource.column
  cases hsource : source.type with
  | plain type =>
    simp [TypeClause.apply, TypeClause.type, TypeClause.length?, TypeClause.values?,
      ColumnDraft.setType, ColumnDraft.named, hname]
  | sized type length =>
    rw [hsource] at ht
    obtain _ | ⟨-, -, -, -, hlength⟩ := ht
    have hkept : nonEmpty length = some length := nonEmpty_eq_some.2 ⟨rfl, hlength⟩
    cases type <;>
      simp [TypeClause.apply, TypeClause.type, TypeClause.length?, TypeClause.values?,
        ColumnDraft.setType, ColumnDraft.setLength, ColumnDraft.named, hname, hkept]
  | enum values =>
    simp [TypeClause.apply, TypeClause.type, TypeClause.length?, TypeClause.values?,
      ColumnDraft.setValues, ColumnDraft.named, hname]

/-! ## Runs over a definition -/

/-- The walk directly inside the outer parentheses, with the draft of the current column. -/
def ColumnWalk.within (start : Nat) (columns : List Column) (draft : Option ColumnDraft) :
    ColumnWalk :=
  { opened := [start], columns, draft }

section Runs

variable {start : Nat} {columns : List Column} {draft : ColumnDraft}

theorem step_keyword (current : Option ColumnDraft) {token : Token} {word : Keyword}
    (hk : token.kind = .keyword word) :
    (within start columns current).step token =
      .more ((within start columns current).keyword token word) [] := by
  show (within start columns current).item token = _
  unfold item
  rw [hk]

theorem step_name {token : Token} {name : String} (hk : token.kind.isName = true)
    (hs : token.Says name) :
    (within start columns none).step token =
      .more (within start columns (some (.named name))) [] := by
  rw [Token.says_iff] at hs
  subst hs
  show (within start columns none).item token = _
  unfold item
  cases h : token.kind with
  | name => rfl
  | quotedName => rfl
  | _ =>
    rw [h] at hk
    exact absurd hk (by simp [TokenKind.isName])

theorem step_type {token : Token} {word : Keyword} {type : ColumnType}
    (hk : token.kind = .keyword word) (ht : word.spelling = type.name) :
    (within start columns (some draft)).step token =
      .more (within start columns (some (draft.setType type))) [] := by
  rw [step_keyword _ hk]
  cases word <;> cases type <;> first | rfl | exact absurd ht (by decide)

theorem defaultText_eq {token : Token} {text : String} (h : DefaultText token text) :
    token.kind.isDefaultValue = true ∧ token.defaultText = text := by
  cases h with
  | literal hk hs =>
    rw [Token.says_iff] at hs
    unfold Token.defaultText Token.isKeyword
    simp only [List.mem_cons, List.not_mem_nil, or_false] at hk
    rcases hk with hk | hk | hk
    all_goals exact ⟨by rw [hk]; rfl, by rw [hk]; simpa using hs⟩
  | currentTimestamp hk =>
    unfold Token.defaultText Token.isKeyword
    exact ⟨by rw [hk]; rfl, by rw [hk]; rfl⟩

/-- A `DEFAULT` takes the next token along, which may be a value. -/
theorem runs_default {first second : Token} {last : ColumnDraft}
    (h1 : first.kind = .keyword .default)
    (h2 : (within start columns (some draft)).defaultValue second =
      within start columns (some last)) :
    Runs (within start columns (some draft)) [first, second]
      (within start columns (some last)) := by
  refine .cons (step_keyword _ h1) ?_
  rw [← h2]
  exact .single rfl

theorem defaultValue_of_text {token : Token} {text : String} (h : DefaultText token text) :
    (within start columns (some draft)).defaultValue token =
      within start columns (some (draft.setDefault text)) := by
  obtain ⟨hk, ht⟩ := defaultText_eq h
  unfold defaultValue
  rw [if_pos hk, ht]
  rfl

theorem runs_comment {first second : Token} {text : String}
    (h1 : first.kind = .keyword .comment) (h2 : second.kind = .stringLiteral)
    (hs : second.Says text) :
    Runs (within start columns (some draft)) [first, second]
      (within start columns (some (draft.setComment text))) := by
  rw [Token.says_iff] at hs
  subst hs
  have hstep : ({ within start columns (some draft) with awaiting := .comment } : ColumnWalk).step
      second = .more (within start columns (some (draft.setComment second.unquoted))) [] :=
    if_pos h2
  exact .cons (step_keyword _ h1) (.single hstep)

theorem step_notNull {token : Token} (hk : token.kind = .notNull) :
    (within start columns (some draft)).step token =
      .more (within start columns (some draft)) [] := by
  show (within start columns (some draft)).item token = _
  unfold item
  rw [hk]

/-- A modifier changes the draft and nothing else. -/
theorem Modifier.Written.runs {modifier : Modifier} {tokens : List Token}
    (h : modifier.Written tokens) :
    Runs (within start columns (some draft)) tokens
      (within start columns (some (modifier.apply draft))) := by
  cases h with
  | notNull hk => exact .single (step_notNull hk)
  | notAndNull h1 h2 => exact .cons (step_keyword _ h1) (.single (step_keyword _ h2))
  | null hk => exact .single (step_keyword _ hk)
  | primaryKey h1 h2 => exact .cons (step_keyword _ h1) (.single (step_keyword _ h2))
  | unique hk => exact .single (step_keyword _ hk)
  | autoIncrement hk => exact .single (step_keyword _ hk)
  | defaultNull h1 h2 =>
    refine runs_default h1 ?_
    unfold defaultValue
    rw [h2]
    rfl
  | default h1 h2 => exact runs_default h1 (defaultValue_of_text h2)
  | comment h1 h2 hs => exact runs_comment h1 h2 hs

theorem runs_modifiers {modifiers : List Modifier} {tokens : List Token}
    (h : ModifiersWritten modifiers tokens) :
    Runs (within start columns (some draft)) tokens
      (within start columns (some (applyModifiers modifiers draft))) := by
  induction h generalizing draft with
  | nil => exact .nil
  | cons h _ ih => exact h.runs.append ih

/-- The walk inside a value list that has given some values. -/
def ColumnWalk.inValues (walk : ColumnWalk) (position : Nat) (values : List String) : ColumnWalk :=
  { walk with awaiting := .values { openedAt := position, values } }

theorem inValues_string {walk : ColumnWalk} {position : Nat} {before : List String}
    {token : Token} {text : String} (hk : token.kind = .stringLiteral) (hs : token.Says text) :
    (walk.inValues position before).step token =
      .more (walk.inValues position (before ++ [text])) [] := by
  rw [Token.says_iff] at hs
  subst hs
  unfold inValues step ValueScan.step
  dsimp only
  rw [hk]
  rfl

theorem inValues_comma {walk : ColumnWalk} {position : Nat} {before : List String}
    {token : Token} (hk : token.kind = .comma) :
    (walk.inValues position before).step token = .more (walk.inValues position before) [] := by
  unfold inValues step ValueScan.step
  dsimp only
  rw [hk]

theorem inValues_closing {position : Nat} {values : List String} {token : Token}
    (hk : token.kind = .rightParen) :
    ((within start columns (some draft)).inValues position values).step token =
      .more (within start columns (some (draft.setValues values))) [.enumValues values] := by
  unfold inValues step ValueScan.step
  dsimp only
  rw [hk]
  rfl

/-- A value list adds its values to those before it. -/
theorem runs_values {walk : ColumnWalk} {position : Nat} {values : List String}
    {tokens : List Token} (h : Listed StringWritten values tokens) (before : List String) :
    Runs (walk.inValues position before) tokens (walk.inValues position (before ++ values)) := by
  induction h generalizing before with
  | nil =>
    rw [List.append_nil]
    exact .nil
  | single h =>
    obtain ⟨token, rfl, hk, hs⟩ := h
    exact .single (inValues_string hk hs)
  | @cons text next others tokens rest comma h hc _ ih =>
    obtain ⟨token, rfl, hk, hs⟩ := h
    have hrest := ih (before ++ [text])
    rw [List.append_assoc] at hrest
    exact .cons (inValues_string hk hs) (.cons (inValues_comma hc) hrest)

theorem step_length {token : Token} {type : ColumnType} {length : String}
    (hk : token.kind = .length) (hs : token.Says length) :
    (within start columns (some (draft.setType type))).step token =
      .more (within start columns (some ((TypeClause.sized type length).apply draft))) [] := by
  rw [Token.says_iff] at hs
  subst hs
  show (within start columns (some (draft.setType type))).item token = _
  unfold item
  rw [hk]
  cases type <;> rfl

/-- A type changes the draft and nothing else. -/
theorem TypeClause.Written.runs {type : TypeClause} {tokens : List Token}
    (h : type.Written tokens) :
    Runs (within start columns (some draft)) tokens
      (within start columns (some (type.apply draft))) := by
  cases h with
  | plain hk ht => exact .single (step_type hk ht)
  | @sized token suffix word type length hk ht hl hs hne =>
    exact .cons (step_type hk ht) (.single (step_length hl hs))
  | @enum token opening closing values list hk ho hl hc =>
    have hopen : ({ within start columns (some draft) with awaiting := .valueList } :
        ColumnWalk).step opening =
          .more ((within start columns (some draft)).inValues opening.start []) [] := if_pos ho
    refine .cons (step_keyword _ hk) (.cons hopen ?_)
    exact (runs_values hl []).append (.single (inValues_closing hc))

/-- A definition leaves a draft from which its column is built. -/
theorem ColumnSource.Written.runs {source : ColumnSource} {tokens : List Token}
    (h : source.Written tokens) (start : Nat) (columns : List Column) :
    ∃ last : ColumnDraft, last.build = some source.column ∧
      Runs (within start columns none) tokens (within start columns (some last)) := by
  refine ⟨_, source.build_draft h, ?_⟩
  obtain ⟨hk, hs, hne, ht, ha⟩ := h
  exact .cons (step_name hk hs) (ht.runs.append (runs_modifiers ha))

theorem step_comma (start : Nat) (columns : List Column) {last : ColumnDraft}
    {column : Column} {token : Token} (hb : last.build = some column) (hk : token.kind = .comma) :
    ∃ events, (within start columns (some last)).step token =
      .more (within start (columns ++ [column]) none) events := by
  refine ⟨(within start columns (some last)).droppedDraft, ?_⟩
  show (within start columns (some last)).item token = _
  unfold item
  rw [hk]
  show Step.more (within start columns (some last)).finishColumn _ = _
  unfold finishColumn within
  dsimp only
  rw [Option.bind_some, hb]
  rfl

theorem step_closing (start : Nat) (columns : List Column) (current : Option ColumnDraft)
    {token : Token} (hk : token.kind = .rightParen) :
    Closes (within start columns current) [token]
      (columns ++ (current.bind (·.build)).toList) := by
  have hclosed : (within start columns current).step token =
      .closed (within start columns current).finishColumn.columns
        (within start columns current).droppedDraft := by
    show (within start columns current).item token = _
    unfold item
    rw [hk]
    rfl
  exact .last hclosed

/-- Definitions up to the closing parenthesis close the list with their columns. -/
theorem closes_of_listed {sources : List ColumnSource} {list : List Token} {closing : Token}
    (h : Listed ColumnSource.Written sources list) (hk : closing.kind = .rightParen)
    (start : Nat) (before : List Column) :
    Closes (within start before none) (list ++ [closing])
      (before ++ sources.map ColumnSource.column) := by
  induction h generalizing before with
  | nil => exact step_closing start before none hk
  | @single source tokens h =>
    obtain ⟨last, hb, hrun⟩ := h.runs start before
    have hclose := step_closing start before (some last) hk
    rw [Option.bind_some, hb] at hclose
    exact hrun.closes hclose
  | @cons source next others tokens rest comma h hc _ ih =>
    obtain ⟨last, hb, hrun⟩ := h.runs start before
    obtain ⟨events, hcomma⟩ := step_comma start before hb hc
    have hrest := ih (before ++ [source.column])
    rw [List.append_assoc] at hrest
    rw [List.append_assoc]
    exact hrun.closes (.cons hcomma hrest)

end Runs

/-! ## The statement as a whole -/

theorem tableComment_single {token : Token} {comment : Option String}
    (h : TableComment [token] comment) : comment = none := by
  rcases h with ⟨-, h⟩ | ⟨before, clause, after, text, hl, hc, -⟩
  · exact h
  · have hlen := congrArg List.length hl
    rw [List.length_append, List.length_append, List.length_singleton] at hlen
    cases hc with
    | plain => rw [List.length_cons, List.length_cons] at hlen; omega
    | equals => rw [List.length_cons, List.length_cons] at hlen; omega

/-- Both readings of a written table give back its name, its columns in their order with everything
that their definitions say, and no comment. -/
theorem parseTokens_of_written {name : String} {sources : List ColumnSource}
    {tokens : List Token} (h : TableWritten name sources tokens) (strictness : Strictness) :
    parseTokens strictness tokens =
      .ok { name, columns := sources.map ColumnSource.column, comment := none } := by
  obtain ⟨h1, h2, hc, hk, hs, h3, hl, h4, h5⟩ := h
  rename_i create word token opening closing semicolon condition list
  have hcloses : Closes {} (opening :: (list ++ [closing])) (sources.map ColumnSource.column) :=
    .cons (step_start h3) (closes_of_listed hl h4 opening.start [])
  let parts : Parts :=
    { create, word, header := condition ++ [token], list := opening :: (list ++ [closing]),
      options := [semicolon], name, columns := sources.map ColumnSource.column,
      create_kind := h1, word_kind := h2,
      header_says := ⟨condition, [token], rfl, hc, .last hk hs⟩,
      list_starts := decide_eq_true h3, list_closes := hcloses,
      options_end := .single semicolon }
  obtain ⟨comment, hcomment, hread⟩ := parts.parseTokens_eq_ok
  have hok := hread strictness [] [] (.inl rfl) (.inl rfl)
  have hall : parts.tokens =
      create :: word :: (condition ++ token :: opening :: (list ++ [closing, semicolon])) := by
    simp [Parts.tokens, parts]
  rw [List.nil_append, List.append_nil, hall] at hok
  rw [hok, tableComment_single hcomment]

/-- `a VARCHAR(5) DEFAULT 1 DEFAULT NULL DEFAULT 'x'` -/
def sizedSource : ColumnSource where
  name := "a"
  type := .sized .varchar "5"
  modifiers := [.default "1", .defaultNull, .default "x"]

theorem sizedSource_written :
    sizedSource.Written
      (⟨.name, "a", 16, 17⟩ ::
        ([⟨.keyword .varchar, "VARCHAR", 18, 25⟩, ⟨.length, "(5)", 25, 28⟩] ++
          ([⟨.keyword .default, "DEFAULT", 29, 36⟩, ⟨.integerLiteral, "1", 37, 38⟩] ++
            ([⟨.keyword .default, "DEFAULT", 39, 46⟩, ⟨.keyword .null, "NULL", 47, 51⟩] ++
              ([⟨.keyword .default, "DEFAULT", 52, 59⟩, ⟨.stringLiteral, "'x'", 60, 63⟩] ++
                []))))) := by
  refine .mk rfl (Token.says_iff.2 rfl) (by decide)
    (.sized rfl rfl rfl (Token.says_iff.2 rfl) (by decide)) (.cons ?_ (.cons ?_ (.cons ?_ .nil)))
  · exact .default rfl (.literal (by decide) (Token.says_iff.2 rfl))
  · exact .defaultNull rfl rfl
  · exact .default rfl (.literal (by decide) (Token.says_iff.2 rfl))

/-- `b ENUM('u') AUTO_INCREMENT COMMENT ''` -/
def enumSource : ColumnSource where
  name := "b"
  type := .enum ["u"]
  modifiers := [.autoIncrement, .comment ""]

theorem enumSource_written :
    enumSource.Written
      (⟨.quotedName, "\x60b\x60", 65, 68⟩ ::
        (⟨.keyword .enum, "ENUM", 69, 73⟩ :: ⟨.leftParen, "(", 73, 74⟩ ::
            ([⟨.stringLiteral, "'u'", 74, 77⟩] ++ [⟨.rightParen, ")", 77, 78⟩]) ++
          ([⟨.keyword .autoIncrement, "AUTO_INCREMENT", 79, 93⟩] ++
            ([⟨.keyword .comment, "COMMENT", 94, 101⟩, ⟨.stringLiteral, "''", 102, 104⟩] ++
              [])))) := by
  refine .mk rfl (Token.says_iff.2 rfl) (by decide) (.enum rfl rfl (.single ?_) rfl)
    (.cons (.autoIncrement rfl) (.cons (.comment rfl rfl (Token.says_iff.2 rfl)) .nil))
  exact ⟨_, rfl, rfl, Token.says_iff.2 rfl⟩

/-- The last default counts, not the first one, and an empty comment is none. -/
theorem parseTokens_of_two_sources :
    ∃ tokens, TableWritten "t" [sizedSource, enumSource] tokens ∧
      parseTokens .strict tokens = .ok ⟨"t",
        [{ name := "a", type := .varchar, length := some "5", default := some "x" },
          { name := "b", type := .enum, values := some ["u"], autoIncrement := true }], none⟩ := by
  have hcomma : (⟨.comma, ",", 63, 64⟩ : Token).kind = .comma := rfl
  have h : TableWritten "t" [sizedSource, enumSource]
      (⟨.keyword .create, "CREATE", 0, 6⟩ :: ⟨.keyword .table, "TABLE", 7, 12⟩ ::
        ([] ++ ⟨.name, "t", 13, 14⟩ :: ⟨.leftParen, "(", 15, 16⟩ ::
          (_ ++ [⟨.rightParen, ")", 104, 105⟩, ⟨.semicolon, ";", 105, 106⟩]))) :=
    .mk rfl rfl .absent rfl (Token.says_iff.2 rfl) rfl
      (.cons sizedSource_written hcomma (.single enumSource_written)) rfl rfl
  exact ⟨_, h, parseTokens_of_written h .strict⟩

end TableScribe
