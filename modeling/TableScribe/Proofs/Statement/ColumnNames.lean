import TableScribe.Proofs.Statement.Attributes
import TableScribe.Proofs.Statement.Segments

/-!
# The names of columns

Every name directly inside the outer parentheses of a column list is taken for the name of the
column, also behind its type. `names_of_segments` says what becomes of definitions that begin with a
name and a type and go on with anything: there is one column for each of them, called by the last
such name, and a definition whose last name is empty is lost. So the columns keep the names of their
definitions if and only if none is followed by another name, as in `a INT UNSIGNED`.

1. `looseNames`: the names that count, by the tokens alone. A name inside parentheses does not count
   and neither does one that a `DEFAULT` takes along.
2. `Trails`: the tokens can follow a type. One more token keeps this up and gives the draft a name
   if it is such a name (`Trails.step`), so all of them leave the draft with the last one
   (`Trails.runs`).
-/

namespace TableScribe

open ColumnWalk

/-! ## Names by the tokens -/

/-- The name that the token is, where names count. -/
def Token.nameIf (counts : Bool) (token : Token) : Option String :=
  if counts then token.name? else none

theorem getLast?_toList (found : Option String) : found.toList.getLast? = found := by
  cases found <;> rfl

/-- The names among the tokens that stand outside all parentheses, of which `depth` are open at the
beginning; `taken` says whether a `DEFAULT` takes the first token along. -/
def looseNames : (depth : Int) → (taken : Bool) → List Token → List String
  | _, _, [] => []
  | depth, taken, token :: rest =>
    (token.nameIf (depth = 0 && !taken)).toList ++
      looseNames (depth + token.nesting) (!taken && token.kind = .keyword .default) rest

/-- Every `DEFAULT` has a token behind it that closes no parenthesis. -/
def DefaultsTake (tokens : List Token) : Prop :=
  ∀ before word after, tokens = before ++ word :: after → word.kind = .keyword .default →
    ∃ value rest, after = value :: rest ∧ value.kind ≠ .rightParen

theorem DefaultsTake.tail {token : Token} {rest : List Token}
    (h : DefaultsTake (token :: rest)) : DefaultsTake rest :=
  fun before word after hl => h (token :: before) word after (by rw [hl]; rfl)

theorem DefaultsTake.keepOpen {tokens : List Token} (h : DefaultsTake tokens) :
    DefaultsKeepOpen tokens := by
  intro before word next after hl hk
  obtain ⟨value, rest, hvalue, hv⟩ := h before word (next :: after) hl hk
  rw [List.cons.injEq] at hvalue
  rw [hvalue.1]
  exact hv

/-- The definition of a column as far as its name and its scalar type go, with any tokens behind
them: the parentheses match, there is no `ENUM`, commas stand inside parentheses only, and every
`DEFAULT` is followed by something that it can take along. -/
structure TypedSegment where
  name : Token
  type : Token
  word : Keyword
  found : ColumnType
  others : List Token
  name_kind : name.kind.isName = true
  name_ne : name.unquoted ≠ ""
  type_kind : type.kind = .keyword word
  word_type : word.columnType? = some found
  balanced : Balanced others
  undivided : ∀ before comma after, others = before ++ comma :: after → comma.kind = .comma →
    balance before ≠ 0
  scalar : ∀ token ∈ others, token.kind ≠ .keyword .enum
  defaults : DefaultsTake others

namespace TypedSegment

def tokens (segment : TypedSegment) : List Token :=
  segment.name :: segment.type :: segment.others

def ownName (segment : TypedSegment) : String :=
  segment.name.unquoted

/-- The last name in the definition that stands outside parentheses. -/
def lastName (segment : TypedSegment) : String :=
  ((looseNames 0 false segment.others).getLast?).getD segment.ownName

end TypedSegment

/-! ## Attributes and names -/

def Attribute.name? : Attribute → Option String
  | .name text => some text
  | _ => none

/-- A draft that has a type keeps having one, and only a name changes its name. -/
theorem Attribute.apply_some (stated : Attribute) {draft : ColumnDraft}
    (ht : draft.type ≠ none) :
    ∃ last, stated.apply (some draft) = some last ∧ last.type ≠ none ∧
      last.name = stated.name?.or draft.name := by
  cases stated with
  | name text => exact ⟨_, rfl, ht, rfl⟩
  | type found => exact ⟨_, rfl, Option.some_ne_none _, rfl⟩
  | length text =>
    by_cases hv : draft.type = some .varchar
    · exact ⟨draft.setLength text, by rw [Attribute.apply, Option.map_some, if_pos hv], ht, rfl⟩
    · exact ⟨draft, by rw [Attribute.apply, Option.map_some, if_neg hv], ht, rfl⟩
  | default text => exact ⟨_, rfl, ht, rfl⟩
  | values list => exact ⟨_, rfl, Option.some_ne_none _, rfl⟩
  | autoIncrement => exact ⟨_, rfl, ht, rfl⟩
  | comment text => exact ⟨_, rfl, ht, rfl⟩

theorem name?_attribute? (topLevel : Bool) (token : Token) :
    (token.attribute? topLevel).bind Attribute.name? = token.nameIf topLevel := by
  unfold Token.attribute? Token.nameIf Token.name?
  cases token.kind with
  | keyword word => cases word <;> cases topLevel <;> rfl
  | _ => cases topLevel <;> rfl

/-! ## Tokens behind a type -/

/-- The walk waits for no values. -/
def Awaiting.IsScalar (awaiting : Awaiting) : Prop :=
  awaiting = .item ∨ awaiting = .comment ∨ awaiting = .default

namespace Awaiting.IsScalar

variable {awaiting : Awaiting} (h : awaiting.IsScalar) {token : Token}

include h in
theorem depth_eq_zero : awaiting.depth = 0 := by
  rcases h with rfl | rfl | rfl <;> rfl

include h in
theorem next (hk : token.kind ≠ .keyword .enum) : (awaiting.next token).IsScalar := by
  have hawaited : token.awaited.IsScalar := by
    unfold Token.awaited
    split
    · exact absurd ‹_› hk
    · exact .inr (.inr rfl)
    · exact .inr (.inl rfl)
    · exact .inl rfl
  rcases h with rfl | rfl | rfl
  · exact hawaited
  · unfold Awaiting.next
    dsimp only
    split
    · exact .inl rfl
    · exact hawaited
  · exact .inl rfl

include h in
/-- A `DEFAULT` makes the walk wait for its value, unless one before it has taken it along. -/
theorem next_eq_default :
    awaiting.next token = .default ↔ awaiting ≠ .default ∧ token.kind = .keyword .default := by
  have hawaited : token.awaited = .default ↔ token.kind = .keyword .default :=
    ⟨awaited_eq_default, awaited_of_default⟩
  rcases h with rfl | rfl | rfl
  · simpa [Awaiting.next] using hawaited
  · by_cases hs : token.kind = .stringLiteral
    · simp [Awaiting.next, hs]
    · simpa [Awaiting.next, hs] using hawaited
  · simp [Awaiting.next]

include h in
/-- A name is stated directly inside the outer parentheses, unless a `DEFAULT` takes it along. -/
theorem name?_stated (topLevel : Bool) :
    (awaiting.stated topLevel token).bind Attribute.name? =
      token.nameIf (topLevel && !decide (awaiting = .default)) := by
  have hname := name?_attribute? topLevel token
  rcases h with rfl | rfl | rfl
  · simpa [Awaiting.stated] using hname
  · by_cases hs : token.kind = .stringLiteral
    · simp [Awaiting.stated, hs, Attribute.name?, Token.nameIf, Token.name?, TokenKind.isName]
    · simpa [Awaiting.stated, hs] using hname
  · unfold Awaiting.stated
    dsimp only
    split <;> simp [Attribute.name?, Token.nameIf]

end Awaiting.IsScalar

namespace ColumnWalk

/-- No comma among the tokens finishes a column, where `depth` parentheses are open. -/
def Undivided (depth : Int) (tokens : List Token) : Prop :=
  ∀ before comma after, tokens = before ++ comma :: after → comma.kind = .comma →
    depth + balance before ≠ 1

theorem Undivided.head {depth : Int} {token : Token} {rest : List Token}
    (h : Undivided depth (token :: rest)) (hk : token.kind = .comma) : depth ≠ 1 := by
  have hne := h [] token rest rfl hk
  rwa [balance_nil, Int.add_zero] at hne

theorem Undivided.tail {depth : Int} {token : Token} {rest : List Token}
    (h : Undivided depth (token :: rest)) : Undivided (depth + token.nesting) rest := by
  intro before comma after hl hk
  have hne := h (token :: before) comma after (by rw [hl]; rfl) hk
  rwa [balance_cons, ← Int.add_assoc] at hne

/-- The tokens are such that they can follow a type, and the walk waits for no values. -/
structure Trails (walk : ColumnWalk) (tokens : List Token) : Prop where
  stays : walk.Stays 1 tokens
  undivided : ∀ before comma after, tokens = before ++ comma :: after → comma.kind = .comma →
    (walk.depth : Int) + balance before ≠ 1
  scalar : ∀ token ∈ tokens, token.kind ≠ .keyword .enum
  defaults : DefaultsTake tokens
  waits : walk.awaiting.IsScalar
  ends : walk.awaiting = .default → tokens ≠ []

theorem Trails.isTopLevel {walk : ColumnWalk} {tokens : List Token} (h : walk.Trails tokens) :
    walk.isTopLevel = decide (walk.depth = 1) :=
  isTopLevel_eq h.waits.depth_eq_zero

/-- These columns are finished, and the one in progress has a type and this name. -/
structure Names (walk : ColumnWalk) (columns : List Column) (name : Option String) : Prop where
  columns : walk.columns = columns
  draft : ∃ draft, walk.draft = some draft ∧ draft.type ≠ none ∧ draft.name = name

theorem Trails.step {walk : ColumnWalk} {token : Token} {rest : List Token}
    {columns : List Column} {name : Option String} (h : walk.Trails (token :: rest))
    (hn : walk.Names columns name) :
    ∃ next events, walk.step token = .more next events ∧ next.Trails rest ∧
      (next.depth : Int) = walk.depth + token.nesting ∧
      next.awaiting = walk.awaiting.next token ∧
      next.Names columns
        ((token.nameIf (walk.depth = 1 && !decide (walk.awaiting = .default))).or name) := by
  have hv : walk.awaiting = .valueList → token.kind = .leftParen := by
    intro ha
    have hwaits := h.waits
    rw [ha] at hwaits
    exact absurd hwaits (by simp [Awaiting.IsScalar])
  have hundivided : Undivided walk.depth (token :: rest) := h.undivided
  have hcomma : token.kind = .comma → walk.isTopLevel = false := by
    intro hk
    have hne := hundivided.head hk
    rw [h.isTopLevel]
    exact decide_eq_false (by omega)
  obtain ⟨next, events, hstep⟩ := h.stays.exists_step (by decide) hv
  obtain ⟨hstays, hdepth⟩ := h.stays.step (by decide) hstep
  have htakes := takes_of_step hcomma hstep
  refine ⟨next, events, hstep, ⟨hstays, ?_, ?_, h.defaults.tail, ?_, ?_⟩, hdepth,
    htakes.awaiting, htakes.columns.trans hn.columns, ?_⟩
  · rw [hdepth]
    exact hundivided.tail
  · exact fun other hmem => h.scalar other (.tail _ hmem)
  · rw [htakes.awaiting]
    exact h.waits.next (h.scalar token List.mem_cons_self)
  · rw [htakes.awaiting, h.waits.next_eq_default]
    rintro ⟨-, hk⟩ rfl
    obtain ⟨value, others, hl, -⟩ := h.defaults [] token [] rfl hk
    exact absurd hl (by simp)
  · obtain ⟨draft, hdraft, htype, rfl⟩ := hn.draft
    rw [htakes.draft, hdraft, h.isTopLevel, ← h.waits.name?_stated]
    cases walk.awaiting.stated (decide (walk.depth = 1)) token with
    | none => exact ⟨draft, rfl, htype, rfl⟩
    | some stated => exact stated.apply_some htype

/-- Where nothing is left and only the outer parenthesis is open, the walk is at rest. -/
theorem Trails.rests {walk : ColumnWalk} (h : walk.Trails []) (hd : walk.depth = 1) :
    walk.Rests := by
  rw [depth_eq_length h.waits.depth_eq_zero] at hd
  refine ⟨hd, ?_⟩
  rcases h.waits with ha | ha | ha
  · exact .inl ha
  · exact .inr ha
  · exact absurd rfl (h.ends ha)

/-- Tokens behind a type leave the last of their names, or the name that was there. -/
theorem Trails.runs {walk : ColumnWalk} {tokens : List Token} {columns : List Column}
    {name : Option String} (h : walk.Trails tokens) (hn : walk.Names columns name) :
    ∃ last, Runs walk tokens last ∧ last.Trails [] ∧
      (last.depth : Int) = walk.depth + balance tokens ∧
      last.Names columns
        ((looseNames (walk.depth - 1) (walk.awaiting = .default) tokens).getLast?.or name) := by
  induction tokens generalizing walk name with
  | nil => exact ⟨walk, .nil, h, by rw [balance_nil, Int.add_zero], hn⟩
  | cons token rest ih =>
    obtain ⟨next, events, hstep, hnext, hdepth, hawaiting, hnames⟩ := h.step hn
    obtain ⟨last, hrun, hlast, hend, hlastNames⟩ := ih hnext hnames
    refine ⟨last, .cons hstep hrun, hlast, ?_, ?_⟩
    · rw [hend, hdepth, balance_cons, Int.add_assoc]
    · have htaken : decide (next.awaiting = .default) =
          (!decide (walk.awaiting = .default) && decide (token.kind = .keyword .default)) := by
        rw [hawaiting, decide_eq_decide.2 h.waits.next_eq_default, Bool.decide_and, decide_not]
      have hbelow : (next.depth : Int) - 1 = walk.depth - 1 + token.nesting := by omega
      have htop : decide ((walk.depth : Int) - 1 = 0) = decide (walk.depth = 1) :=
        decide_eq_decide.2 (by omega)
      rw [htaken, hbelow] at hlastNames
      rw [looseNames, htop, List.getLast?_append, Option.or_assoc, getLast?_toList]
      exact hlastNames

end ColumnWalk

/-! ## Definitions one after another -/

theorem spelling_of_columnType? {word : Keyword} {found : ColumnType}
    (h : word.columnType? = some found) : word.spelling = found.name := by
  cases word <;> simp only [Keyword.columnType?, Option.some.injEq, reduceCtorEq] at h <;>
    subst h <;> rfl

/-- If a draft has a type, its name alone decides whether it becomes a column. -/
theorem exists_shape_of_type {draft : ColumnDraft} (ht : draft.type ≠ none) :
    ∃ shape : String → Column, draft.build = (draft.name.bind nonEmpty).map shape ∧
      ∀ name, (shape name).name = name ∧ (shape name).default = draft.default := by
  obtain ⟨found, htype⟩ := Option.ne_none_iff_exists'.1 ht
  refine ⟨fun name =>
    { name
      type := found
      length := if found = .varchar then draft.length.bind nonEmpty else none
      default := draft.default
      values := if found = .enum then draft.values else none
      autoIncrement := draft.autoIncrement
      comment := draft.comment.bind nonEmpty }, ?_, fun name => ⟨rfl, rfl⟩⟩
  unfold ColumnDraft.build
  rw [htype]
  cases draft.name.bind nonEmpty <;> rfl

theorem map_name_build {draft : ColumnDraft} (ht : draft.type ≠ none) :
    draft.build.map (·.name) = draft.name.bind nonEmpty := by
  obtain ⟨shape, hbuild, hshape⟩ := exists_shape_of_type ht
  have hname : (·.name) ∘ shape = id := funext fun name => (hshape name).1
  rw [hbuild, Option.map_map, hname, Option.map_id, id]

theorem map_default_build {draft : ColumnDraft} (ht : draft.type ≠ none) :
    draft.build.map (·.default) = (draft.name.bind nonEmpty).map fun _ => draft.default := by
  obtain ⟨shape, hbuild, hshape⟩ := exists_shape_of_type ht
  have hdefault : (·.default) ∘ shape = fun _ => draft.default :=
    funext fun name => (hshape name).2
  rw [hbuild, Option.map_map, hdefault]

/-- The name and the type of a definition are taken along one after the other. -/
theorem runs_name_type {name type : Token} {word : Keyword} {found : ColumnType}
    (hn : name.kind.isName = true) (hk : type.kind = .keyword word)
    (hw : word.columnType? = some found) :
    Runs (within 0 [] none) [name, type]
      (within 0 [] (some ((ColumnDraft.named name.unquoted).setType found))) :=
  .cons (step_name hn (Token.says_iff.2 rfl))
    (.single (step_type hk (spelling_of_columnType? hw)))

namespace TypedSegment

variable (segment : TypedSegment)

def begun : ColumnWalk :=
  within 0 [] (some ((ColumnDraft.named segment.ownName).setType segment.found))

theorem runs_begun : Runs (within 0 [] none) [segment.name, segment.type] segment.begun :=
  runs_name_type segment.name_kind segment.type_kind segment.word_type

theorem trails_begun : segment.begun.Trails segment.others where
  stays := by
    refine ⟨Nat.le_refl 1, segment.balanced.inside, ?_, segment.defaults.keepOpen⟩
    intro ha
    exact absurd ha (by simp [begun, within])
  undivided := by
    intro before comma after hl hk
    have hne := segment.undivided before comma after hl hk
    show (1 : Int) + balance before ≠ 1
    omega
  scalar := segment.scalar
  defaults := segment.defaults
  waits := .inl rfl
  ends := by
    intro ha
    exact absurd ha (by simp [begun, within])

theorem names_begun : segment.begun.Names [] (some segment.ownName) :=
  ⟨rfl, _, rfl, Option.some_ne_none segment.found, rfl⟩

/-- Alone, a definition is read as one column, which has the last of its names, or as none if this
is empty. -/
theorem exists_alone :
    ∃ columns, Alone columns segment.tokens ∧
      columns.map (·.name) = (nonEmpty segment.lastName).toList := by
  obtain ⟨last, hrun, hlast, hdepth, hcolumns, draft, hdraft, htype, hname⟩ :=
    segment.trails_begun.runs segment.names_begun
  have hrests : last.Rests := by
    have hbegun : segment.begun.depth = 1 := rfl
    rw [hbegun, segment.balanced.closed] at hdepth
    exact hlast.rests (by omega)
  let opening : Token := ⟨.leftParen, "(", 0, 1⟩
  let closing : Token := ⟨.rightParen, ")", 0, 1⟩
  have hcloses : Closes (within 0 [] none) (segment.tokens ++ [closing]) draft.build.toList := by
    have hclose := (segment.runs_begun.append hrun).closes
      (hrests.closing (rfl : closing.kind = .rightParen))
    unfold finishColumn at hclose
    rw [hcolumns, hdraft] at hclose
    exact hclose
  refine ⟨draft.build.toList, ⟨opening, closing, rfl, rfl, (readsAs_iff_closes rfl).2 hcloses⟩, ?_⟩
  have hlastName : draft.name = some segment.lastName := by
    rw [hname]
    unfold lastName
    exact Option.or_some
  rw [← Option.toList_map, map_name_build htype, hlastName]
  rfl

end TypedSegment

/-- A list in which something may be left out is complete only if nothing is. -/
theorem filterMap_eq_map_iff {α β : Type} {f : α → Option β} {g : α → β} (list : List α) :
    list.filterMap f = list.map g ↔ ∀ a ∈ list, f a = some (g a) := by
  induction list with
  | nil => simp
  | cons a rest ih =>
    cases hf : f a with
    | none =>
      have hle := List.length_filterMap_le f rest
      constructor
      · intro h
        rw [List.filterMap_cons_none hf] at h
        have hlength := congrArg List.length h
        rw [List.length_map, List.length_cons] at hlength
        omega
      · intro h
        exact absurd (h a List.mem_cons_self) (by rw [hf]; simp)
    | some b =>
      rw [List.filterMap_cons_some hf, List.map_cons, List.cons.injEq, ih, List.forall_mem_cons,
        hf, Option.some.injEq]

theorem names_flatten {columns : TypedSegment → List Column}
    (h : ∀ segment, (columns segment).map (·.name) = (nonEmpty segment.lastName).toList)
    (segments : List TypedSegment) :
    (segments.map columns).flatten.map (·.name) =
      segments.filterMap fun segment => nonEmpty segment.lastName := by
  induction segments with
  | nil => rfl
  | cons segment rest ih =>
    rw [List.map_cons, List.flatten_cons, List.map_append, ih, h, List.filterMap_cons]
    cases nonEmpty segment.lastName <;> rfl

/-- Definitions that begin with a name and a scalar type give a column each, called by the last name
outside parentheses and left out if this is empty. The columns have the names by which their
definitions begin exactly if these are the last ones too. -/
theorem names_of_segments {segments : List TypedSegment} {list : List Token}
    {opening closing : Token}
    (h : Listed (fun segment tokens => tokens = segment.tokens) segments list)
    (ho : opening.kind = .leftParen) (hc : closing.kind = .rightParen) :
    ∃ columns, ReadsAs (opening :: (list ++ [closing])) columns ∧
      columns.map (·.name) = segments.filterMap (fun segment => nonEmpty segment.lastName) ∧
      (columns.map (·.name) = segments.map TypedSegment.ownName ↔
        ∀ segment ∈ segments, segment.lastName = segment.ownName) := by
  obtain ⟨columns, hcolumns⟩ := Classical.axiomOfChoice TypedSegment.exists_alone
  have hyields : Listed Yields (segments.map columns) list := by
    refine h.map columns fun segment tokens htokens => ?_
    rw [htokens]
    exact yields_of_alone (hcolumns segment).1
  have hnames := names_flatten (fun segment => (hcolumns segment).2) segments
  refine ⟨(segments.map columns).flatten,
    (readsAs_iff_closes ho).2 (closes_of_yields hyields hc opening.start []), hnames, ?_⟩
  rw [hnames, filterMap_eq_map_iff]
  refine forall₂_congr fun segment _ => ?_
  rw [nonEmpty_eq_some]
  constructor
  · exact fun hkept => hkept.1.symm
  · intro hsame
    exact ⟨hsame.symm, hsame ▸ segment.name_ne⟩

/-- `a INT UNSIGNED` -/
def unsignedSegment : TypedSegment where
  name := ⟨.name, "a", 1, 2⟩
  type := ⟨.keyword .int, "INT", 3, 6⟩
  word := .int
  found := .int
  others := [⟨.name, "UNSIGNED", 7, 15⟩]
  name_kind := rfl
  name_ne := by decide
  type_kind := rfl
  word_type := rfl
  balanced := ⟨by decide, by decide⟩
  undivided := by
    intro before comma after hl hk
    have hmem : comma ∈ [(⟨.name, "UNSIGNED", 7, 15⟩ : Token)] := by rw [hl]; simp
    obtain rfl := List.mem_singleton.1 hmem
    exact absurd hk (by decide)
  scalar := by decide
  defaults := by
    intro before word after hl hk
    have hmem : word ∈ [(⟨.name, "UNSIGNED", 7, 15⟩ : Token)] := by rw [hl]; simp
    obtain rfl := List.mem_singleton.1 hmem
    exact absurd hk (by decide)

/-- `(a INT UNSIGNED)` -/
theorem names_of_unsignedSegment :
    ∃ columns,
      ReadsAs (⟨.leftParen, "(", 0, 1⟩ ::
        (unsignedSegment.tokens ++ [⟨.rightParen, ")", 15, 16⟩])) columns ∧
      columns.map (·.name) = ["UNSIGNED"] := by
  have hlist : Listed (fun segment tokens => tokens = TypedSegment.tokens segment)
      [unsignedSegment] unsignedSegment.tokens := .single rfl
  have ho : (⟨.leftParen, "(", 0, 1⟩ : Token).kind = .leftParen := rfl
  have hc : (⟨.rightParen, ")", 15, 16⟩ : Token).kind = .rightParen := rfl
  obtain ⟨columns, hreads, hnames, -⟩ := names_of_segments hlist ho hc
  exact ⟨columns, hreads, hnames⟩

/-- The column of `(a INT UNSIGNED)` is not called `a`. -/
theorem not_forall_own_names :
    ¬ ∀ (segments : List TypedSegment) (list : List Token) (opening closing : Token),
      Listed (fun segment tokens => tokens = segment.tokens) segments list →
      opening.kind = .leftParen → closing.kind = .rightParen →
      ∃ columns, ReadsAs (opening :: (list ++ [closing])) columns ∧
        columns.map (·.name) = segments.map TypedSegment.ownName := by
  intro h
  obtain ⟨columns, hreads, hnames⟩ := h [unsignedSegment] unsignedSegment.tokens
    ⟨.leftParen, "(", 0, 1⟩ ⟨.rightParen, ")", 15, 16⟩ (.single rfl) rfl rfl
  have hread : ReadsAs (⟨.leftParen, "(", 0, 1⟩ ::
      (unsignedSegment.tokens ++ [⟨.rightParen, ")", 15, 16⟩]))
      [{ name := "UNSIGNED", type := .int }] := ⟨rfl, rfl, rfl⟩
  have heq := Except.ok.inj (hreads.outcome.symm.trans hread.outcome)
  rw [heq] at hnames
  exact absurd hnames (by decide)

end TableScribe
