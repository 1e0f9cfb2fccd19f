import TableScribe.Proofs.Statement.ColumnNames

/-!
# The default of a column

What stands behind `DEFAULT` is meant to decide on the default of a column alone. But a number or
`CURRENT_TIMESTAMP` is taken for a default also without that word, wherever it stands directly inside
the outer parentheses, and of several defaults the last one counts. `default_of_clause` says what
becomes of a definition with one `DEFAULT`: its column has the last of these values, and this is the
one that the `DEFAULT` states if and only if the others do not disturb it. So `DEFAULT - 5` makes a
default of the `5`.

1. `ClauseSegment`: such a definition, with what it states by the tokens alone (`outermost`).
2. `Facet`: a part of the draft that later attributes replace. The name is one, the default another.
3. `Searches`: the tokens can follow a type and have no `DEFAULT` among them. A step finds what its
   token is by itself (`Searches.step`), and so a run finds what is outermost (`Searches.runs`).
4. `ClauseSegment.finds`: the tokens in front of the clause, its value, and the tokens behind it are
   one run after another.
-/

namespace TableScribe

open ColumnWalk

/-! ## Values by the tokens -/

/-- The text of a token that is a default by itself. -/
def Token.bareValue? (token : Token) : Option String :=
  if token.kind.isInlineDefault then some token.defaultText else none

/-- The text of a token that is a default behind `DEFAULT`. -/
def Token.statedValue? (token : Token) : Option String :=
  if token.kind.isDefaultValue then some token.defaultText else none

/-- What is read of the tokens that stand outside all parentheses, of which `depth` are open at the
beginning. -/
def outermost (read : Token → Option String) : (depth : Int) → List Token → List String
  | _, [] => []
  | depth, token :: rest =>
    (if depth = 0 then read token else none).toList ++
      outermost read (depth + token.nesting) rest

/-- The definition of a column with a scalar type and exactly one `DEFAULT` behind it, which stands
outside parentheses and has a token behind it. The parentheses match, and commas stand inside them
only. -/
structure ClauseSegment where
  name : Token
  type : Token
  word : Keyword
  found : ColumnType
  before : List Token
  clause : Token
  value : Token
  after : List Token
  name_kind : name.kind.isName = true
  name_ne : name.unquoted ≠ ""
  type_kind : type.kind = .keyword word
  word_type : word.columnType? = some found
  clause_kind : clause.kind = .keyword .default
  clause_outside : balance before = 0
  balanced : Balanced (before ++ clause :: value :: after)
  undivided : ∀ front comma rest, before ++ clause :: value :: after = front ++ comma :: rest →
    comma.kind = .comma → balance front ≠ 0
  single : ∀ token ∈ before ++ value :: after, token.kind ≠ .keyword .default

namespace ClauseSegment

variable (segment : ClauseSegment)

def others : List Token :=
  segment.before ++ segment.clause :: segment.value :: segment.after

def tokens : List Token :=
  segment.name :: segment.type :: segment.others

/-- The last name in the definition that stands outside parentheses and is not the value. -/
def lastName : String :=
  ((outermost Token.name? 0 segment.before ++
    outermost Token.name? segment.value.nesting segment.after).getLast?).getD segment.name.unquoted

/-- The default that the clause states. -/
def stated : Option String :=
  segment.value.statedValue?

/-- The values without a `DEFAULT` in front of the clause. -/
def earlier : List String :=
  outermost Token.bareValue? 0 segment.before

/-- The values without a `DEFAULT` behind the clause. -/
def later : List String :=
  outermost Token.bareValue? segment.value.nesting segment.after

/-- The last of all these values. -/
def recorded : Option String :=
  (segment.earlier ++ (segment.stated.toList ++ segment.later)).getLast?

/-- The values without a `DEFAULT` do not show: the last one behind the clause is what the clause
states, and there is none in front of a clause that states nothing. -/
structure Undisturbed : Prop where
  later : ∀ text ∈ segment.later.getLast?, segment.stated = some text
  earlier : segment.stated = none → segment.earlier = []

theorem recorded_eq :
    segment.recorded = segment.later.getLast?.or (segment.stated.or segment.earlier.getLast?) := by
  unfold recorded
  rw [List.getLast?_append, List.getLast?_append, getLast?_toList, Option.or_assoc]

theorem recorded_eq_stated_iff :
    segment.recorded = segment.stated ↔ segment.Undisturbed := by
  rw [recorded_eq]
  constructor
  · intro h
    cases hlast : segment.later.getLast? with
    | some text =>
      rw [hlast, Option.some_or] at h
      refine ⟨fun other hmem => ?_, fun hnone => ?_⟩
      · rw [hlast, Option.mem_some_iff] at hmem
        rw [← h, hmem]
      · rw [hnone] at h
        exact absurd h (by simp)
    | none =>
      rw [hlast, Option.none_or] at h
      refine ⟨fun other hmem => ?_, fun hnone => ?_⟩
      · rw [hlast] at hmem
        exact absurd hmem (by simp)
      · rw [hnone, Option.none_or] at h
        exact List.getLast?_eq_none_iff.1 h
  · rintro ⟨hlater, hearlier⟩
    cases hlast : segment.later.getLast? with
    | some text => rw [Option.some_or, hlater text hlast]
    | none =>
      rw [Option.none_or]
      cases hstated : segment.stated with
      | some text => rfl
      | none =>
        rw [hearlier hstated]
        rfl

end ClauseSegment

/-! ## Parts of a draft -/

def Attribute.default? : Attribute → Option String
  | .default text => some text
  | _ => none

/-- Only a name changes the name of a draft, and only a default its default. -/
theorem Attribute.parts_of_apply {stated : Attribute} {draft last : ColumnDraft}
    (h : stated.apply (some draft) = some last) :
    last.name = stated.name?.or draft.name ∧ last.default = stated.default?.or draft.default := by
  cases stated with
  | length text =>
    rw [Attribute.apply, Option.map_some, Option.some.injEq] at h
    rw [← h]
    split <;> exact ⟨rfl, rfl⟩
  | _ =>
    rw [← Option.some.inj h]
    exact ⟨rfl, rfl⟩

/-- A part of a draft that a later attribute replaces: where it is in the draft, which attributes
state it, and which tokens do so, by themselves outside parentheses or as the value of a
`DEFAULT`. -/
structure Facet where
  get : ColumnDraft → Option String
  read : Attribute → Option String
  bare : Token → Option String
  taken : Token → Option String
  get_apply : ∀ (stated : Attribute) (draft last : ColumnDraft),
    stated.apply (some draft) = some last → get last = (read stated).or (get draft)
  outside : ∀ token : Token, (token.attribute? true).bind read = bare token
  inside : ∀ token : Token, (token.attribute? false).bind read = none
  value : ∀ (topLevel : Bool) (token : Token),
    (Awaiting.stated topLevel .default token).bind read = taken token
  comment : ∀ text, read (.comment text) = none
  values : ∀ list, read (.values list) = none

def Facet.name : Facet where
  get := ColumnDraft.name
  read := Attribute.name?
  bare := Token.name?
  taken _ := none
  get_apply _ _ _ h := (Attribute.parts_of_apply h).1
  outside token := name?_attribute? true token
  inside token := name?_attribute? false token
  value topLevel token := by
    unfold Awaiting.stated
    dsimp only
    split <;> rfl
  comment _ := rfl
  values _ := rfl

theorem default?_attribute? (topLevel : Bool) (token : Token) :
    (token.attribute? topLevel).bind Attribute.default? =
      if topLevel then token.bareValue? else none := by
  unfold Token.attribute? Token.bareValue?
  cases token.kind with
  | keyword word => cases word <;> cases topLevel <;> rfl
  | _ => cases topLevel <;> rfl

def Facet.default : Facet where
  get := ColumnDraft.default
  read := Attribute.default?
  bare := Token.bareValue?
  taken := Token.statedValue?
  get_apply _ _ _ h := (Attribute.parts_of_apply h).2
  outside token := default?_attribute? true token
  inside token := default?_attribute? false token
  value topLevel token := by
    unfold Awaiting.stated Token.statedValue?
    dsimp only
    split <;> rfl
  comment _ := rfl
  values _ := rfl

namespace ColumnWalk

/-- Between the two walks no column is finished, and of the draft, which has a type, each part is
replaced by what is found of it. -/
structure Finds (walk : ColumnWalk) (found : Facet → Option String) (next : ColumnWalk) :
    Prop where
  columns : next.columns = walk.columns
  draft : ∀ draft, walk.draft = some draft → draft.type ≠ none →
    ∃ last, next.draft = some last ∧ last.type ≠ none ∧
      ∀ facet : Facet, facet.get last = (found facet).or (facet.get draft)

theorem Finds.trans {walk middle last : ColumnWalk} {first second : Facet → Option String}
    (h1 : walk.Finds first middle) (h2 : middle.Finds second last) :
    walk.Finds (fun facet => (second facet).or (first facet)) last := by
  refine ⟨h2.columns.trans h1.columns, fun draft hdraft htype => ?_⟩
  obtain ⟨between, hbetween, htypes, hget⟩ := h1.draft draft hdraft htype
  obtain ⟨final, hfinal, hlast, hgets⟩ := h2.draft between hbetween htypes
  exact ⟨final, hfinal, hlast, fun facet => by rw [hgets, hget, Option.or_assoc]⟩

/-- A walk that is ready takes any token but a string for what it is by itself. -/
theorem states_of_ready {awaiting : Awaiting} (h : awaiting.IsReady) {token : Token}
    (hk : token.kind ≠ .stringLiteral) (topLevel : Bool) :
    awaiting.stated topLevel token = token.attribute? topLevel ∧
      awaiting.next token = token.awaited := by
  rcases h with rfl | rfl
  · exact ⟨rfl, rfl⟩
  · exact Awaiting.comment_other topLevel hk

/-- A step finds what its token states. -/
theorem Takes.finds {walk next : ColumnWalk} {token : Token} (h : walk.Takes token next) :
    walk.Finds (fun facet => (walk.awaiting.stated walk.isTopLevel token).bind facet.read)
      next := by
  refine ⟨h.columns, fun draft hdraft htype => ?_⟩
  have hnext := h.draft
  rw [hdraft] at hnext
  cases hstated : walk.awaiting.stated walk.isTopLevel token with
  | none =>
    rw [hstated] at hnext
    exact ⟨draft, hnext, htype, fun facet => rfl⟩
  | some stated =>
    rw [hstated] at hnext
    obtain ⟨last, happly, hlast, -⟩ := stated.apply_some htype
    exact ⟨last, hnext.trans happly, hlast, fun facet => facet.get_apply stated draft last happly⟩

/-! ## Tokens without a `DEFAULT` -/

/-- The walk and these tokens, in front of the rest, are behind a type, and the tokens have no
`DEFAULT` among them. -/
structure Searches (walk : ColumnWalk) (tokens rest : List Token) : Prop where
  stays : walk.Stays 1 (tokens ++ rest)
  undivided : Undivided walk.depth (tokens ++ rest)
  plain : ∀ token ∈ tokens, token.kind ≠ .keyword .default
  waits : walk.awaiting ≠ .default

section Searches

variable {walk next : ColumnWalk} {token : Token} {tokens rest : List Token}
  {events : List Event}

/-- A walk that goes on inside a definition takes along what the token states. -/
theorem takes_of_undivided (hc : Undivided walk.depth (token :: rest))
    (h : walk.step token = .more next events) : walk.Takes token next := by
  cases ha : walk.awaiting with
  | values scan => exact takes_values ha h
  | _ =>
    refine takes_of_step (fun hk => ?_) h
    rw [isTopLevel_eq (by rw [ha]; rfl)]
    have hne := hc.head hk
    exact decide_eq_false (by omega)

/-- What a token states of a part of the draft, where it is no value of a `DEFAULT`: what it is by
itself, and nothing inside parentheses. -/
theorem bind_stated (facet : Facet) (hdeep : 1 ≤ walk.opened.length)
    (hw : walk.awaiting ≠ .default) (h : walk.step token = .more next events) :
    (walk.awaiting.stated walk.isTopLevel token).bind facet.read =
      if walk.depth = 1 then facet.bare token else none := by
  have hitem : walk.awaiting.depth = 0 → (token.attribute? walk.isTopLevel).bind facet.read =
      if walk.depth = 1 then facet.bare token else none := by
    intro hdepth
    rw [isTopLevel_eq hdepth]
    by_cases htop : walk.depth = 1
    · rw [decide_eq_true htop, if_pos htop, facet.outside]
    · rw [decide_eq_false htop, if_neg htop, facet.inside]
  cases ha : walk.awaiting with
  | item => exact hitem (by rw [ha]; rfl)
  | default => exact absurd ha hw
  | comment =>
    by_cases hs : token.kind = .stringLiteral
    · rw [← hitem (by rw [ha]; rfl), (Awaiting.comment_string walk.isTopLevel hs).1]
      unfold Token.attribute?
      rw [hs]
      exact facet.comment token.unquoted
    · rw [(Awaiting.comment_other walk.isTopLevel hs).1]
      exact hitem (by rw [ha]; rfl)
  | valueList =>
    rw [← hitem (by rw [ha]; rfl)]
    unfold Token.attribute?
    rw [leftParen_of_step h ha]
    rfl
  | values scan =>
    have hnested : walk.depth ≠ 1 := by
      have hvalues : walk.depth = walk.opened.length + (scan.nested + 1) := by
        unfold depth
        rw [ha]
        rfl
      omega
    rw [if_neg hnested]
    cases hs : scan.step token with
    | more after =>
      rw [(Awaiting.values_more walk.isTopLevel hs).1]
      rfl
    | closed list =>
      rw [(Awaiting.values_closed walk.isTopLevel hs).1]
      exact facet.values list

/-- One more token keeps this up and is found outside parentheses. -/
theorem Searches.step (h : walk.Searches (token :: tokens) rest)
    (hs : walk.step token = .more next events) :
    next.Searches tokens rest ∧ (next.depth : Int) = walk.depth + token.nesting ∧
      walk.Finds (fun facet => if walk.depth = 1 then facet.bare token else none) next := by
  have htakes := takes_of_undivided h.undivided hs
  obtain ⟨hstays, hdepth⟩ := Stays.step (by decide) h.stays hs
  have hfinds := htakes.finds
  simp only [bind_stated _ h.stays.deep h.waits hs] at hfinds
  refine ⟨⟨hstays, ?_, fun other hmem => h.plain other (.tail _ hmem), ?_⟩, hdepth, hfinds⟩
  · rw [hdepth]
    exact Undivided.tail h.undivided
  · intro ha
    rcases h.stays.deepens (by decide) (leftParen_of_step hs) with
      ⟨other, noted, hmore, -, -, hdefault⟩ | ⟨-, _, _, hclosed⟩
    · rw [hs, Step.more.injEq] at hmore
      exact h.plain token List.mem_cons_self (hdefault (hmore.1 ▸ ha))
    · rw [hs] at hclosed
      exact absurd hclosed (by simp)

/-- Of the tokens outside parentheses the last one that is found counts. -/
theorem Searches.runs {last : ColumnWalk} (h : walk.Searches tokens rest)
    (hr : Runs walk tokens last) :
    last.Searches [] rest ∧ (last.depth : Int) = walk.depth + balance tokens ∧
      walk.Finds (fun facet => (outermost facet.bare (walk.depth - 1) tokens).getLast?) last := by
  induction hr with
  | nil =>
    exact ⟨h, by rw [balance_nil, Int.add_zero], rfl,
      fun draft hdraft htype => ⟨draft, hdraft, htype, fun _ => rfl⟩⟩
  | @cons walk next last token tokens events hstep _ ih =>
    obtain ⟨hnext, hdepth, hfinds⟩ := h.step hstep
    obtain ⟨hlast, hend, hrest⟩ := ih hnext
    refine ⟨hlast, ?_, ?_⟩
    · rw [hend, hdepth, balance_cons, Int.add_assoc]
    · have hboth := hfinds.trans hrest
      have hbelow : (next.depth : Int) - 1 = walk.depth - 1 + token.nesting := by omega
      have htop : ((walk.depth : Int) - 1 = 0) ↔ walk.depth = 1 := by omega
      simp only [outermost, List.getLast?_append, getLast?_toList, htop, ← hbelow]
      exact hboth

/-- Directly inside the outer parentheses a walk that goes on, but not with a parenthesis, is
ready. -/
theorem isReady_of_step (hdeep : 1 ≤ walk.opened.length) (hd : walk.depth = 1)
    (hw : walk.awaiting ≠ .default) (hk : token.kind ≠ .leftParen)
    (h : walk.step token = .more next events) : walk.awaiting.IsReady := by
  cases ha : walk.awaiting with
  | item => exact .inl rfl
  | comment => exact .inr rfl
  | default => exact absurd ha hw
  | valueList => exact absurd (leftParen_of_step h ha) hk
  | values scan =>
    unfold depth at hd
    rw [ha] at hd
    simp only [Awaiting.depth] at hd
    omega

/-- The `DEFAULT` and its value state the value, and the walk goes on behind them. -/
theorem Searches.clause {clause value : Token} {after : List Token} {last : ColumnWalk}
    (h : walk.Searches [] (clause :: value :: after)) (hk : clause.kind = .keyword .default)
    (hd : walk.depth = 1) (hplain : ∀ token ∈ after, token.kind ≠ .keyword .default)
    (hr : Runs walk [clause, value] last) :
    last.Searches after [] ∧ (last.depth : Int) = 1 + value.nesting ∧
      walk.Finds (fun facet => facet.taken value) last := by
  cases hr with | cons hclause hr => ?_
  cases hr with | cons hvalue hr => ?_
  cases hr
  rename_i between _ _
  have hparen : clause.kind ≠ .leftParen := by
    rw [hk]
    simp
  obtain ⟨hstated, hnext⟩ := states_of_ready
    (isReady_of_step h.stays.deep hd h.waits hparen hclause) (by rw [hk]; simp) walk.isTopLevel
  have hnone : clause.attribute? walk.isTopLevel = none := by
    unfold Token.attribute?
    rw [hk]
    rfl
  have hopen : clause.nesting = 0 := nesting_of_no_paren hparen (by rw [hk]; simp)
  -- The clause states nothing and makes the walk wait for the value.
  have hundivided : Undivided walk.depth (clause :: value :: after) := h.undivided
  have htakes := takes_of_undivided hundivided hclause
  obtain ⟨hstays, hdepth⟩ := Stays.step (by decide) h.stays hclause
  have hawaits : between.awaiting = .default := by
    rw [htakes.awaiting, hnext, awaited_of_default hk]
  -- The value is what is taken.
  have hundividedValue := hundivided.tail
  rw [← hdepth] at hundividedValue
  have htakesValue := takes_of_undivided hundividedValue hvalue
  obtain ⟨hstaysValue, hdepthValue⟩ := Stays.step (by decide) hstays hvalue
  have hundividedAfter := hundividedValue.tail
  rw [← hdepthValue] at hundividedAfter
  have hfinds := htakes.finds.trans htakesValue.finds
  simp only [hstated, hnone, hawaits, Facet.value, Option.bind_none, Option.or_none] at hfinds
  refine ⟨⟨?_, ?_, hplain, ?_⟩, by omega, hfinds⟩
  · rwa [List.append_nil]
  · rwa [List.append_nil]
  · rw [htakesValue.awaiting, hawaits]
    simp [Awaiting.next]

end Searches

end ColumnWalk

/-! ## Definitions with one clause -/

/-- Behind tokens that close what they open, one more parenthesis closes what was open before. -/
theorem exhausts_concat {depth : Int} {tokens : List Token} {closing : Token}
    (h : KeepsDepth depth tokens) (hz : depth + balance tokens = 0)
    (hc : closing.kind = .rightParen) : Exhausts (depth + 1) (tokens ++ [closing]) := by
  induction tokens generalizing depth with
  | nil =>
    rw [balance_nil] at hz
    exact .single (by omega) (by rw [nesting_rightParen hc]; omega)
  | cons token rest ih =>
    obtain ⟨hpos, hrest⟩ := keepsDepth_cons.1 h
    rw [balance_cons] at hz
    have htail := ih hrest (by omega)
    refine .cons (by omega) ?_
    rwa [Int.add_right_comm]

namespace ClauseSegment

variable (segment : ClauseSegment)

def begun : ColumnWalk :=
  within 0 [] (some ((ColumnDraft.named segment.name.unquoted).setType segment.found))

theorem inside_clause : KeepsDepth 0 (segment.clause :: segment.value :: segment.after) := by
  have hinside := segment.balanced.inside.append_right
  rwa [segment.clause_outside] at hinside

theorem clause_nesting : segment.clause.nesting = 0 :=
  nesting_of_no_paren (by rw [segment.clause_kind]; simp) (by rw [segment.clause_kind]; simp)

theorem value_kind : segment.value.kind ≠ .rightParen := by
  intro hk
  have hpos := (keepsDepth_cons.1 (keepsDepth_cons.1 segment.inside_clause).2).2.pos
  rw [segment.clause_nesting, nesting_rightParen hk] at hpos
  omega

theorem single_before : ∀ token ∈ segment.before, token.kind ≠ .keyword .default :=
  fun token hmem => segment.single token (List.mem_append_left _ hmem)

theorem single_after : ∀ token ∈ segment.after, token.kind ≠ .keyword .default :=
  fun token hmem => segment.single token (List.mem_append_right _ (.tail _ hmem))

theorem defaultsKeepOpen {rest : List Token}
    (h : ∀ token ∈ rest, token.kind ≠ .keyword .default) :
    DefaultsKeepOpen (segment.others ++ rest) := by
  unfold others
  rw [List.append_assoc]
  refine NeverFollowed.append segment.single_before ?_
  refine neverFollowed_cons.2 ⟨fun _ next hnext => ?_, ?_⟩
  · rw [← Option.mem_some_iff.1 hnext]
    exact segment.value_kind
  refine neverFollowed_cons.2 ⟨fun hk => absurd hk (segment.single _ (by simp)), ?_⟩
  refine NeverFollowed.append segment.single_after ?_
  have hrest : NeverFollowed (.keyword .default) .rightParen (rest ++ []) := .append h .nil
  rwa [List.append_nil] at hrest

theorem searches_begun :
    segment.begun.Searches segment.before
      (segment.clause :: segment.value :: segment.after) where
  stays := by
    have hkeep : DefaultsKeepOpen (segment.others ++ []) := segment.defaultsKeepOpen (by simp)
    rw [List.append_nil] at hkeep
    exact ⟨Nat.le_refl 1, segment.balanced.inside, Awaiting.noConfusion, hkeep⟩
  undivided := by
    intro front comma after hl hk
    have hne := segment.undivided front comma after hl hk
    show (1 : Int) + balance front ≠ 1
    omega
  plain := segment.single_before
  waits := Awaiting.noConfusion

/-- A run over the definition finds what is in front of the clause, what the clause takes, and what
is behind it, and the last of it counts. -/
theorem finds {last : ColumnWalk} (h : Runs segment.begun segment.others last) :
    segment.begun.Finds (fun facet =>
      (outermost facet.bare segment.value.nesting segment.after).getLast?.or
        ((facet.taken segment.value).or (outermost facet.bare 0 segment.before).getLast?)) last := by
  obtain ⟨front, hbefore, hrest⟩ := Runs.exists_of_append h
  obtain ⟨back, hclause, hafter⟩ :=
    (show Runs front ([segment.clause, segment.value] ++ segment.after) last
      from hrest).exists_of_append
  obtain ⟨hfront, hdepth, hearlier⟩ := segment.searches_begun.runs hbefore
  have hone : segment.begun.depth = 1 := rfl
  rw [segment.clause_outside, hone] at hdepth
  obtain ⟨hback, hdeep, htaken⟩ :=
    hfront.clause segment.clause_kind (by omega) segment.single_after hclause
  obtain ⟨-, -, hlater⟩ := hback.runs hafter
  have hbelow : (back.depth : Int) - 1 = segment.value.nesting := by omega
  rw [hbelow] at hlater
  exact (hearlier.trans htaken).trans hlater

/-- A definition that is read gives one column with the last of the values as its default, or none
if its last name is empty. -/
theorem defaults_of_alone {columns : List Column} (h : Alone columns segment.tokens) :
    columns.map (·.default) =
      ((nonEmpty segment.lastName).map fun _ => segment.recorded).toList := by
  obtain ⟨last, hrun, -, hcolumns⟩ := yields_of_alone h 0 []
  obtain ⟨begun, hbegun, hothers⟩ :=
    (show Runs (within 0 [] none) ([segment.name, segment.type] ++ segment.others) last
      from hrun).exists_of_append
  have hsame : begun = segment.begun :=
    hbegun.unique (runs_name_type segment.name_kind segment.type_kind segment.word_type)
  rw [hsame] at hothers
  obtain ⟨hfinished, hdraft⟩ := segment.finds hothers
  obtain ⟨draft, hlast, htype, hget⟩ := hdraft _ rfl (Option.some_ne_none segment.found)
  have hname : draft.name = some segment.lastName := by
    unfold lastName
    rw [List.getLast?_append, ← Option.or_some]
    exact hget .name
  have hdefault : draft.default = segment.recorded :=
    (hget .default).trans (Option.or_none.trans segment.recorded_eq.symm)
  have hbuilt : columns = draft.build.toList := by
    unfold finishColumn at hcolumns
    rw [hfinished, hlast] at hcolumns
    exact hcolumns.symm
  rw [hbuilt, ← Option.toList_map, map_default_build htype, hname, hdefault]
  rfl

/-- A definition is read if the values of an `ENUM` stand behind it. -/
theorem exists_alone (h : EnumsOpen segment.others) :
    ∃ columns, Alone columns segment.tokens := by
  let opening : Token := ⟨.leftParen, "(", 0, 1⟩
  let closing : Token := ⟨.rightParen, ")", 0, 1⟩
  have hguarded : segment.begun.Guarded (segment.others ++ [closing]) :=
    ⟨List.cons_ne_nil 0 [], Awaiting.noConfusion, Awaiting.noConfusion⟩
  have henums : EnumsOpen (segment.others ++ [closing]) := h.append (by decide)
  have hdefaults : DefaultsKeepOpen (segment.others ++ [closing]) :=
    segment.defaultsKeepOpen (by simp [closing])
  have hexhausts : Exhausts segment.begun.depth (segment.others ++ [closing]) :=
    exhausts_concat segment.balanced.inside ((Int.zero_add _).trans segment.balanced.closed) rfl
  rw [← List.append_nil (segment.others ++ [closing])] at hguarded henums hdefaults
  obtain ⟨columns, hcloses⟩ := hguarded.closes henums hdefaults hexhausts
  refine ⟨columns, opening, closing, rfl, rfl, (readsAs_iff_closes rfl).2 ?_⟩
  exact (runs_name_type segment.name_kind segment.type_kind segment.word_type).closes hcloses

end ClauseSegment

/-- A definition with one `DEFAULT` can be read if every `ENUM` behind its type has its values. Then
it gives one column, whose default is the last value that the clause states or that stands without a
`DEFAULT` outside parentheses, or no column if its last name is empty; and so it does in a list with
other definitions. The default is what the clause states exactly if the other values do not show. -/
theorem default_of_clause (segment : ClauseSegment) :
    (EnumsOpen segment.others → ∃ columns, Alone columns segment.tokens) ∧
      (∀ (parts : List (List Token × List Column)) (list : List Token) (opening closing : Token),
        Listed (fun part tokens => tokens = part.1 ∧ Alone part.2 tokens) parts list →
        opening.kind = .leftParen → closing.kind = .rightParen →
        ReadsAs (opening :: (list ++ [closing])) (parts.map Prod.snd).flatten ∧
          ∀ columns, (segment.tokens, columns) ∈ parts →
            columns.map (·.default) =
              ((nonEmpty segment.lastName).map fun _ => segment.recorded).toList) ∧
      (segment.recorded = segment.stated ↔ segment.Undisturbed) := by
  refine ⟨segment.exists_alone, ?_, segment.recorded_eq_stated_iff⟩
  intro parts list opening closing hlist ho hc
  refine ⟨readsAs_of_segments (hlist.map Prod.snd fun _ _ h => h.2) ho hc, ?_⟩
  intro columns hmem
  obtain ⟨tokens, hsame, halone⟩ := hlist.exists_of_mem hmem
  rw [hsame] at halone
  exact segment.defaults_of_alone halone

/-- `n REAL DEFAULT - 5` -/
def detachedSign : ClauseSegment where
  name := ⟨.name, "n", 1, 2⟩
  type := ⟨.keyword .real, "REAL", 3, 7⟩
  word := .real
  found := .real
  before := []
  clause := ⟨.keyword .default, "DEFAULT", 8, 15⟩
  value := ⟨.operator, "-", 16, 17⟩
  after := [⟨.integerLiteral, "5", 18, 19⟩]
  name_kind := rfl
  name_ne := by decide
  type_kind := rfl
  word_type := rfl
  clause_kind := rfl
  clause_outside := rfl
  balanced := ⟨by decide, by decide⟩
  undivided := by
    intro front comma rest hl hk
    have hno : ∀ token ∈ front ++ comma :: rest, token.kind ≠ .comma := by
      rw [← hl]
      decide
    exact absurd hk (hno comma (by simp))
  single := by decide

/-- `(n REAL DEFAULT - 5)` -/
theorem default_of_detachedSign :
    ∃ columns,
      ReadsAs (⟨.leftParen, "(", 0, 1⟩ ::
        (detachedSign.tokens ++ [⟨.rightParen, ")", 19, 20⟩])) columns ∧
      columns.map (·.default) = [some "5"] := by
  obtain ⟨hread, hlists, -⟩ := default_of_clause detachedSign
  have henums : EnumsOpen detachedSign.others := by decide
  obtain ⟨columns, halone⟩ := hread henums
  obtain ⟨hreads, hdefaults⟩ := hlists [(detachedSign.tokens, columns)] detachedSign.tokens
    ⟨.leftParen, "(", 0, 1⟩ ⟨.rightParen, ")", 19, 20⟩ (.single ⟨rfl, halone⟩) rfl rfl
  refine ⟨columns, ?_, (hdefaults columns (List.mem_singleton_self _)).trans (by decide)⟩
  rw [List.map_singleton, List.flatten_singleton] at hreads
  exact hreads

/-- The `DEFAULT` of `(n REAL DEFAULT - 5)` states no default, but the column has one. -/
theorem not_forall_stated_default :
    ¬ ∀ (segment : ClauseSegment) (columns : List Column), Alone columns segment.tokens →
      ∀ column ∈ columns, column.default = segment.stated := by
  intro h
  have hread : Alone [{ name := "n", type := .real, default := some "5" }] detachedSign.tokens :=
    ⟨⟨.leftParen, "(", 0, 1⟩, ⟨.rightParen, ")", 19, 20⟩, rfl, rfl, rfl, rfl, rfl⟩
  have hdefault := h detachedSign _ hread _ (List.mem_singleton_self _)
  exact absurd hdefault (by decide)

end TableScribe
