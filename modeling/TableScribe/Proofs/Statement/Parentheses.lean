import TableScribe.Proofs.Statement.Parts

/-!
# Parentheses

A column list ends at the parenthesis that matches the one it begins with, where all parentheses
count alike. The reader counts them in two places, on the stack of open parentheses and inside a
value list; `ColumnWalk.depth` adds the two up, and every token changes that sum by its `nesting`
(`ColumnWalk.Guarded.deepens`). So a run goes on while the depth is positive and closes the list
where it comes to zero.

Two kinds of list are read otherwise and excluded here: an `ENUM` without a value list is refused,
and a parenthesis directly after `DEFAULT` closes nothing.
-/

namespace TableScribe

/-- What the token does to the depth of parentheses. -/
def Token.nesting (token : Token) : Int :=
  match token.kind with
  | .leftParen => 1
  | .rightParen => -1
  | _ => 0

/-- How many more parentheses the tokens open than they close. -/
def balance : List Token → Int
  | [] => 0
  | token :: rest => token.nesting + balance rest

theorem balance_nil : balance [] = 0 := rfl

theorem balance_cons (token : Token) (rest : List Token) :
    balance (token :: rest) = token.nesting + balance rest := rfl

/-- The first token opens a parenthesis and the last one closes it. -/
structure Matched (list : List Token) : Prop where
  starts : ∃ opening inner, list = opening :: inner ∧ opening.kind = .leftParen
  closed : balance list = 0
  inside : ∀ before after, list = before ++ after → before ≠ [] → after ≠ [] → 0 < balance before

/-- The tokens take the depth to zero, and only all of them together do. -/
structure Exhausts (depth : Int) (list : List Token) : Prop where
  ends : depth + balance list = 0
  inside : ∀ before after, list = before ++ after → after ≠ [] → 0 < depth + balance before

theorem Exhausts.tail {depth : Int} {token : Token} {list : List Token}
    (h : Exhausts depth (token :: list)) : Exhausts (depth + token.nesting) list := by
  constructor
  · rw [Int.add_assoc, ← balance_cons]
    exact h.ends
  · intro before after hl ha
    rw [Int.add_assoc, ← balance_cons]
    exact h.inside (token :: before) after (by rw [hl]; rfl) ha

theorem Exhausts.single {depth : Int} {token : Token} (hpos : 0 < depth)
    (h : depth + token.nesting = 0) : Exhausts depth [token] := by
  constructor
  · rw [balance_cons, balance_nil, Int.add_zero, h]
  · intro before after hl ha
    cases before with
    | nil => rwa [balance_nil, Int.add_zero]
    | cons first before =>
      rw [List.cons_append, List.cons.injEq] at hl
      exact absurd (List.append_eq_nil_iff.1 hl.2.symm).2 ha

theorem Exhausts.cons {depth : Int} {token : Token} {list : List Token} (hpos : 0 < depth)
    (h : Exhausts (depth + token.nesting) list) : Exhausts depth (token :: list) := by
  constructor
  · rw [balance_cons, ← Int.add_assoc, h.ends]
  · intro before after hl ha
    cases before with
    | nil => rwa [balance_nil, Int.add_zero]
    | cons first before =>
      rw [List.cons_append, List.cons.injEq] at hl
      obtain ⟨rfl, hl⟩ := hl
      rw [balance_cons, ← Int.add_assoc]
      exact h.inside before after hl ha

/-- With `depth` parentheses open at their beginning, the tokens close no more than those and their
own. -/
def KeepsDepth (depth : Int) (tokens : List Token) : Prop :=
  ∀ before after, tokens = before ++ after → 0 ≤ depth + balance before

theorem keepsDepth_nil {depth : Int} : KeepsDepth depth [] ↔ 0 ≤ depth := by
  constructor
  · intro h
    have := h [] [] rfl
    rwa [balance_nil, Int.add_zero] at this
  · intro h before after hl
    rw [(List.append_eq_nil_iff.1 hl.symm).1, balance_nil, Int.add_zero]
    exact h

theorem keepsDepth_cons {depth : Int} {token : Token} {rest : List Token} :
    KeepsDepth depth (token :: rest) ↔ 0 ≤ depth ∧ KeepsDepth (depth + token.nesting) rest := by
  constructor
  · intro h
    constructor
    · have := h [] (token :: rest) rfl
      rwa [balance_nil, Int.add_zero] at this
    · intro before after hl
      rw [Int.add_assoc, ← balance_cons]
      exact h (token :: before) after (by rw [hl]; rfl)
  · rintro ⟨hdepth, hrest⟩ before after hl
    cases before with
    | nil =>
      rw [balance_nil, Int.add_zero]
      exact hdepth
    | cons first before =>
      rw [List.cons_append, List.cons.injEq] at hl
      obtain ⟨rfl, hl⟩ := hl
      rw [balance_cons, ← Int.add_assoc]
      exact hrest before after hl

theorem KeepsDepth.pos {depth : Int} {tokens : List Token} (h : KeepsDepth depth tokens) :
    0 ≤ depth := by
  have := h [] tokens rfl
  rwa [balance_nil, Int.add_zero] at this

theorem KeepsDepth.append_right {depth : Int} {front rest : List Token}
    (h : KeepsDepth depth (front ++ rest)) : KeepsDepth (depth + balance front) rest := by
  induction front generalizing depth with
  | nil =>
    rw [balance_nil, Int.add_zero]
    exact h
  | cons token front ih =>
    have hrest := ih (keepsDepth_cons.1 h).2
    rwa [balance_cons, ← Int.add_assoc]

instance decidableKeepsDepth (depth : Int) :
    (tokens : List Token) → Decidable (KeepsDepth depth tokens)
  | [] => decidable_of_iff _ keepsDepth_nil.symm
  | token :: rest =>
    have := decidableKeepsDepth (depth + token.nesting) rest
    decidable_of_iff _ keepsDepth_cons.symm

/-- The tokens close the parentheses that they open, and no others. -/
structure Balanced (tokens : List Token) : Prop where
  closed : balance tokens = 0
  inside : KeepsDepth 0 tokens

/-- Every `ENUM` is directly followed by a parenthesis that opens. -/
def EnumsOpen (tokens : List Token) : Prop :=
  ∀ before word after, tokens = before ++ word :: after → word.kind = .keyword .enum →
    ∃ next rest, after = next :: rest ∧ next.kind = .leftParen

/-- No `DEFAULT` is directly followed by a parenthesis that closes. -/
abbrev DefaultsKeepOpen (tokens : List Token) : Prop :=
  NeverFollowed (.keyword .default) .rightParen tokens

theorem EnumsOpen.nil : EnumsOpen [] :=
  fun _ _ _ hl => absurd hl (by simp)

theorem EnumsOpen.append_right {first second : List Token} (h : EnumsOpen (first ++ second)) :
    EnumsOpen second := by
  intro before word after hl
  refine h (first ++ before) word after ?_
  rw [List.append_assoc, ← hl]

theorem EnumsOpen.tail {token : Token} {rest : List Token} (h : EnumsOpen (token :: rest)) :
    EnumsOpen rest :=
  EnumsOpen.append_right (show EnumsOpen ([token] ++ rest) from h)

theorem enumsOpen_cons {token : Token} {rest : List Token} :
    EnumsOpen (token :: rest) ↔
      (token.kind = .keyword .enum → startsList rest = true) ∧ EnumsOpen rest := by
  constructor
  · intro h
    refine ⟨fun hk => ?_, h.tail⟩
    obtain ⟨next, after, rfl, hn⟩ := h [] token rest rfl hk
    exact decide_eq_true hn
  · rintro ⟨hhead, htail⟩ before word after hl hk
    cases before with
    | nil =>
      rw [List.nil_append, List.cons.injEq] at hl
      obtain ⟨rfl, rfl⟩ := hl
      cases rest with
      | nil => exact absurd (hhead hk) (by simp [startsList])
      | cons next after => exact ⟨next, after, rfl, by simpa [startsList] using hhead hk⟩
    | cons front before =>
      rw [List.cons_append, List.cons.injEq] at hl
      exact htail before word after hl.2 hk

theorem EnumsOpen.append {first second : List Token} (h1 : EnumsOpen first)
    (h2 : EnumsOpen second) : EnumsOpen (first ++ second) := by
  induction first with
  | nil => exact h2
  | cons token first ih =>
    obtain ⟨hhead, htail⟩ := enumsOpen_cons.1 h1
    refine enumsOpen_cons.2 ⟨fun hk => ?_, ih htail⟩
    have hstarts := hhead hk
    cases first with
    | nil => exact absurd hstarts (by simp [startsList])
    | cons next first => exact hstarts

instance decidableEnumsOpen : (tokens : List Token) → Decidable (EnumsOpen tokens)
  | [] => isTrue .nil
  | _ :: rest =>
    have := decidableEnumsOpen rest
    decidable_of_iff _ enumsOpen_cons.symm

/-! ## The depth of a walk -/

/-- The parentheses that a walk has open inside a value list. -/
def Awaiting.depth : Awaiting → Nat
  | .values scan => scan.nested + 1
  | _ => 0

namespace ColumnWalk

/-- All the parentheses that a walk has open. -/
def depth (walk : ColumnWalk) : Nat :=
  walk.opened.length + walk.awaiting.depth

theorem depth_eq_length {walk : ColumnWalk} (h : walk.awaiting.depth = 0) :
    walk.depth = walk.opened.length := by
  unfold depth
  rw [h, Nat.add_zero]

theorem isTopLevel_eq {walk : ColumnWalk} (h : walk.awaiting.depth = 0) :
    walk.isTopLevel = decide (walk.depth = 1) := by
  rw [depth_eq_length h]
  rfl

/-- The walk is inside the list and the next token fits what it waits for. -/
structure Guarded (walk : ColumnWalk) (tokens : List Token) : Prop where
  inside : walk.opened ≠ []
  values : walk.awaiting = .valueList → ∃ next rest, tokens = next :: rest ∧ next.kind = .leftParen
  default : walk.awaiting = .default →
    ∀ next rest, tokens = next :: rest → next.kind ≠ .rightParen

theorem Guarded.depth_pos {walk : ColumnWalk} {tokens : List Token} (h : walk.Guarded tokens) :
    0 < walk.depth := by
  have := List.length_pos_iff.2 h.inside
  unfold depth
  omega

/-- A token takes the walk to another depth, or closes the list where that depth is zero. -/
def Deepens (walk : ColumnWalk) (token : Token) : Prop :=
  (∃ next events, walk.step token = .more next events ∧
      (next.depth : Int) = walk.depth + token.nesting ∧
      (next.awaiting = .valueList → token.kind = .keyword .enum) ∧
      (next.awaiting = .default → token.kind = .keyword .default)) ∨
    ((walk.depth : Int) + token.nesting = 0 ∧
      ∃ columns events, walk.step token = .closed columns events)

theorem awaited_eq_valueList {token : Token} (h : token.awaited = .valueList) :
    token.kind = .keyword .enum := by
  unfold Token.awaited at h
  split at h
  · assumption
  all_goals exact absurd h (by simp)

theorem awaited_eq_default {token : Token} (h : token.awaited = .default) :
    token.kind = .keyword .default := by
  unfold Token.awaited at h
  split at h
  · exact absurd h (by simp)
  · assumption
  all_goals exact absurd h (by simp)

theorem awaited_eq_comment {token : Token} (h : token.awaited = .comment) :
    token.kind = .keyword .comment := by
  unfold Token.awaited at h
  split at h
  · exact absurd h (by simp)
  · exact absurd h (by simp)
  · assumption
  · exact absurd h (by simp)

theorem awaited_of_default {token : Token} (hk : token.kind = .keyword .default) :
    token.awaited = .default := by
  unfold Token.awaited
  rw [hk]

theorem awaited_of_comment {token : Token} (hk : token.kind = .keyword .comment) :
    token.awaited = .comment := by
  unfold Token.awaited
  rw [hk]

theorem depth_awaited (token : Token) : token.awaited.depth = 0 := by
  unfold Token.awaited
  split <;> rfl

theorem nesting_of_no_paren {token : Token} (hl : token.kind ≠ .leftParen)
    (hr : token.kind ≠ .rightParen) : token.nesting = 0 := by
  unfold Token.nesting
  split
  · exact absurd ‹_› hl
  · exact absurd ‹_› hr
  · rfl

theorem nesting_leftParen {token : Token} (hk : token.kind = .leftParen) : token.nesting = 1 := by
  unfold Token.nesting
  rw [hk]

theorem nesting_rightParen {token : Token} (hk : token.kind = .rightParen) :
    token.nesting = -1 := by
  unfold Token.nesting
  rw [hk]

/-- A step to a walk that waits for nothing. -/
theorem Deepens.of_item {walk next : ColumnWalk} {token : Token} {events : List Event}
    (h : walk.step token = .more next events) (ha : next.awaiting = .item)
    (hd : (next.opened.length : Int) = walk.depth + token.nesting) : walk.Deepens token := by
  refine .inl ⟨next, events, h, ?_, ?_, ?_⟩
  · rw [depth_eq_length (by rw [ha]; rfl), hd]
  · rw [ha]
    simp
  · rw [ha]
    simp

theorem deepens_item {walk : ColumnWalk} {token : Token} (ha : walk.awaiting = .item)
    (ho : walk.opened ≠ []) : walk.Deepens token := by
  have hstep := @step_item walk token ha
  have hdepth : walk.depth = walk.opened.length := depth_eq_length (by rw [ha]; rfl)
  by_cases hl : token.kind = .leftParen
  · have hi : walk.step token = .more (walk.openAt token.start) [] := by
      rw [hstep]
      unfold item
      rw [hl]
    refine .of_item hi ha ?_
    rw [hdepth, nesting_leftParen hl]
    rfl
  by_cases hr : token.kind = .rightParen
  · have hi := hstep
    unfold item at hi
    rw [hr] at hi
    dsimp only at hi
    cases hopened : walk.opened with
    | nil => exact absurd hopened ho
    | cons first outer =>
      rw [hopened] at hi
      cases outer with
      | nil =>
        refine .inr ⟨?_, _, _, hi⟩
        rw [hdepth, hopened, nesting_rightParen hr]
        rfl
      | cons second outer =>
        refine .of_item hi ha ?_
        rw [hdepth, hopened, nesting_rightParen hr]
        simp only [List.length_cons]
        omega
  obtain ⟨next, events, hi, hopened, hawaited⟩ := walk.item_of_no_paren hl hr
  refine .inl ⟨next, events, hstep.trans hi, ?_, ?_, ?_⟩
  · rw [hdepth, nesting_of_no_paren hl hr, Int.add_zero,
      depth_eq_length (by rw [hawaited ha, depth_awaited]), hopened]
  · rw [hawaited ha]
    exact awaited_eq_valueList
  · rw [hawaited ha]
    exact awaited_eq_default

theorem deepens_default {walk : ColumnWalk} {token : Token} (ha : walk.awaiting = .default)
    (hr : token.kind ≠ .rightParen) : walk.Deepens token := by
  have hstep := @step_default walk token ha
  have hdepth : walk.depth = walk.opened.length := depth_eq_length (by rw [ha]; rfl)
  by_cases hl : token.kind = .leftParen
  · have hd : ({ walk with awaiting := .item } : ColumnWalk).defaultValue token =
        ({ walk with awaiting := .item } : ColumnWalk).openAt token.start := by
      unfold defaultValue
      rw [hl]
      rfl
    rw [hd] at hstep
    refine .of_item hstep rfl ?_
    rw [hdepth, nesting_leftParen hl]
    rfl
  · have hd : (({ walk with awaiting := .item } : ColumnWalk).defaultValue token).opened =
        walk.opened ∧
        (({ walk with awaiting := .item } : ColumnWalk).defaultValue token).awaiting = .item := by
      unfold defaultValue
      split
      · exact ⟨rfl, rfl⟩
      · exact ⟨rfl, rfl⟩
    refine .of_item hstep hd.2 ?_
    rw [hd.1, hdepth, nesting_of_no_paren hl hr]
    simp

theorem deepens_comment {walk : ColumnWalk} {token : Token} (ha : walk.awaiting = .comment)
    (ho : walk.opened ≠ []) : walk.Deepens token := by
  have hdepth : walk.depth = walk.opened.length := depth_eq_length (by rw [ha]; rfl)
  by_cases hs : token.kind = .stringLiteral
  · refine .of_item (step_comment ha hs) rfl ?_
    rw [hdepth, nesting_of_no_paren (by rw [hs]; simp) (by rw [hs]; simp), Int.add_zero]
    rfl
  · have hstep : walk.step token = ({ walk with awaiting := .item } : ColumnWalk).step token :=
      step_no_comment ha hs
    have hitem : ({ walk with awaiting := .item } : ColumnWalk).Deepens token :=
      deepens_item rfl ho
    unfold Deepens at hitem ⊢
    rw [hstep, hdepth]
    exact hitem

theorem deepens_valueList {walk : ColumnWalk} {token : Token} (ha : walk.awaiting = .valueList)
    (hl : token.kind = .leftParen) : walk.Deepens token := by
  refine .inl ⟨_, _, step_valueList ha hl, ?_, ?_, ?_⟩
  · rw [nesting_leftParen hl]
    unfold depth
    rw [ha]
    rfl
  · simp
  · simp

theorem nested_of_scan {scan : ValueScan} {token : Token} :
    (∃ next, scan.step token = .more next ∧ (next.nested : Int) = scan.nested + token.nesting) ∨
      ((scan.nested : Int) + 1 + token.nesting = 0 ∧
        ∃ values, scan.step token = .closed values) := by
  unfold ValueScan.step Token.nesting
  cases token.kind with
  | stringLiteral =>
    dsimp only
    split <;> exact .inl ⟨_, rfl, by simp⟩
  | leftParen => exact .inl ⟨_, rfl, by simp⟩
  | rightParen =>
    cases hn : scan.nested with
    | zero => exact .inr ⟨by simp, _, rfl⟩
    | succ nested =>
      refine .inl ⟨_, rfl, ?_⟩
      show (nested : Int) = ((nested + 1 : Nat) : Int) + -1
      omega
  | _ => exact .inl ⟨_, rfl, by simp⟩

theorem deepens_values {walk : ColumnWalk} {token : Token} {scan : ValueScan}
    (ha : walk.awaiting = .values scan) : walk.Deepens token := by
  have hdepth : walk.depth = walk.opened.length + (scan.nested + 1) := by
    unfold depth
    rw [ha]
    rfl
  rcases nested_of_scan with ⟨next, hs, hn⟩ | ⟨hn, values, hs⟩
  · refine .inl ⟨_, _, step_values ha hs, ?_, ?_, ?_⟩
    · rw [hdepth]
      show ((walk.opened.length + (next.nested + 1) : Nat) : Int) = _
      omega
    · simp
    · simp
  · refine .of_item (step_values_closed ha hs) rfl ?_
    rw [hdepth]
    show (walk.opened.length : Int) = _
    omega

/-- Inside the list, every token that fits what the walk waits for deepens it by its nesting. -/
theorem Guarded.deepens {walk : ColumnWalk} {token : Token} {rest : List Token}
    (h : walk.Guarded (token :: rest)) : walk.Deepens token := by
  cases ha : walk.awaiting with
  | item => exact deepens_item ha h.inside
  | default => exact deepens_default ha (h.default ha token rest rfl)
  | comment => exact deepens_comment ha h.inside
  | valueList =>
    obtain ⟨next, after, hl, hk⟩ := h.values ha
    rw [List.cons.injEq] at hl
    exact deepens_valueList ha (hl.1 ▸ hk)
  | values scan => exact deepens_values ha

/-- The next walk is again inside the list, and the next token fits again. -/
theorem Guarded.next {walk next : ColumnWalk} {token : Token} {rest : List Token}
    {events : List Event} (h : walk.Guarded (token :: rest)) (he : EnumsOpen (token :: rest))
    (hd : DefaultsKeepOpen (token :: rest)) (hs : walk.step token = .more next events) :
    next.Guarded rest ∧ (next.depth : Int) = walk.depth + token.nesting := by
  rcases h.deepens with ⟨other, noted, hmore, hdepth, hvalues, hdefault⟩ | ⟨-, _, _, hclosed⟩
  · rw [hs, Step.more.injEq] at hmore
    obtain ⟨rfl, -⟩ := hmore
    refine ⟨⟨opened_ne_nil_of_step hs h.inside, fun ha => ?_, fun ha => ?_⟩, hdepth⟩
    · exact he [] token rest rfl (hvalues ha)
    · intro following after hl
      exact hd [] token following after (by rw [hl]; rfl) (hdefault ha)
  · rw [hs] at hclosed
    exact absurd hclosed (by simp)

/-- A walk whose depth the tokens exhaust closes the list with the last of them. -/
theorem Guarded.closes {walk : ColumnWalk} {list rest : List Token}
    (hg : walk.Guarded (list ++ rest)) (he : EnumsOpen (list ++ rest))
    (hd : DefaultsKeepOpen (list ++ rest)) (h : Exhausts walk.depth list) :
    ∃ columns, Closes walk list columns := by
  induction list generalizing walk with
  | nil =>
    have hends := h.ends
    have hpos := hg.depth_pos
    rw [balance_nil] at hends
    omega
  | cons token list ih =>
    rw [List.cons_append] at hg he hd
    rcases hg.deepens with ⟨next, events, hmore, -⟩ | ⟨hzero, columns, events, hclosed⟩
    · obtain ⟨hnext, hdepth⟩ := hg.next he hd hmore
      have hexhausts : Exhausts next.depth list := by
        rw [hdepth]
        exact h.tail
      obtain ⟨columns, hc⟩ := ih hnext he.tail hd.tail hexhausts
      exact ⟨columns, .cons hmore hc⟩
    · by_cases hnil : list = []
      · subst hnil
        exact ⟨columns, .last hclosed⟩
      · have hpos := h.inside [token] list rfl hnil
        rw [balance_cons, balance_nil] at hpos
        omega

/-- The tokens with which a walk closes the list exhaust its depth. -/
theorem Closes.exhausts {walk : ColumnWalk} {list rest : List Token} {columns : List Column}
    (h : Closes walk list columns) (hg : walk.Guarded (list ++ rest))
    (he : EnumsOpen (list ++ rest)) (hd : DefaultsKeepOpen (list ++ rest)) :
    Exhausts walk.depth list := by
  have hpos : 0 < (walk.depth : Int) := Int.ofNat_lt.2 hg.depth_pos
  induction h with
  | @last walk token columns events hclosed =>
    rcases hg.deepens with ⟨next, noted, hmore, -⟩ | ⟨hzero, -⟩
    · rw [hclosed] at hmore
      exact absurd hmore (by simp)
    · exact .single hpos hzero
  | cons hmore _ ih =>
    rw [List.cons_append] at hg he hd
    obtain ⟨hnext, hdepth⟩ := hg.next he hd hmore
    have hrest := ih hnext he.tail hd.tail (Int.ofNat_lt.2 hnext.depth_pos)
    rw [hdepth] at hrest
    exact .cons hpos hrest

/-! ### Walks that stay deep -/

/-- An item that makes the walk wait for a value list is no parenthesis. -/
theorem opened_of_item {walk next : ColumnWalk} {token : Token} {events : List Event}
    (hw : walk.awaiting = .item) (h : walk.item token = .more next events)
    (ha : next.awaiting.depth ≠ 0) : next.opened = walk.opened := by
  by_cases hl : token.kind = .leftParen
  · unfold item at h
    rw [hl, Step.more.injEq] at h
    rw [← h.1] at ha
    exact absurd (congrArg Awaiting.depth hw) ha
  by_cases hr : token.kind = .rightParen
  · unfold item at h
    rw [hr] at h
    dsimp only at h
    split at h
    · exact absurd h (by simp)
    · exact absurd h (by simp)
    · rw [Step.more.injEq] at h
      rw [← h.1] at ha
      exact absurd (congrArg Awaiting.depth hw) ha
  · obtain ⟨other, noted, hother, hopened, -⟩ := walk.item_of_no_paren hl hr
    rw [h, Step.more.injEq] at hother
    rw [hother.1, hopened]

/-- Only a step that leaves value lists changes the parentheses on the stack. -/
theorem opened_of_step {walk next : ColumnWalk} {token : Token} {events : List Event}
    (h : walk.step token = .more next events) (ha : next.awaiting.depth ≠ 0) :
    next.opened = walk.opened := by
  cases hw : walk.awaiting with
  | item =>
    rw [step_item hw] at h
    exact opened_of_item hw h ha
  | default =>
    rw [step_default hw, Step.more.injEq] at h
    have hnext : next.awaiting = .item := by
      rw [← h.1]
      unfold defaultValue
      split
      · rfl
      split <;> rfl
    exact absurd (congrArg Awaiting.depth hnext) ha
  | comment =>
    by_cases hs : token.kind = .stringLiteral
    · rw [step_comment hw hs, Step.more.injEq] at h
      rw [← h.1]
      rfl
    · rw [step_no_comment hw hs] at h
      have hopened : next.opened = ({ walk with awaiting := .item } : ColumnWalk).opened :=
        opened_of_item rfl h ha
      exact hopened
  | valueList =>
    by_cases hl : token.kind = .leftParen
    · rw [step_valueList hw hl, Step.more.injEq] at h
      rw [← h.1]
    · rw [step_no_valueList hw hl] at h
      exact absurd h (by simp)
  | values scan =>
    cases hs : scan.step token with
    | more after =>
      rw [step_values hw hs, Step.more.injEq] at h
      rw [← h.1]
    | closed values =>
      rw [step_values_closed hw hs, Step.more.injEq] at h
      rw [← h.1]
      rfl

/-- Where values are to follow, the list goes on with a parenthesis only. -/
theorem leftParen_of_step {walk next : ColumnWalk} {token : Token} {events : List Event}
    (h : walk.step token = .more next events) (ha : walk.awaiting = .valueList) :
    token.kind = .leftParen := by
  refine Decidable.byContradiction fun hl => ?_
  rw [step_no_valueList ha hl] at h
  exact absurd h (by simp)

/-- The tokens keep the walk at least `floor` parentheses deep, and none that closes one is taken
along by a `DEFAULT`. -/
structure Stays (floor : Nat) (walk : ColumnWalk) (tokens : List Token) : Prop where
  deep : floor ≤ walk.opened.length
  inside : KeepsDepth (walk.depth - floor) tokens
  default : walk.awaiting = .default → ∀ next rest, tokens = next :: rest → next.kind ≠ .rightParen
  defaults : DefaultsKeepOpen tokens

section Stays

variable {floor : Nat} {walk next : ColumnWalk} {token : Token} {rest : List Token}
  {events : List Event} (hf : 0 < floor) (h : walk.Stays floor (token :: rest))

include hf h in
/-- What a walk that stays deep makes of a token, unless it waits for a value list in vain. -/
theorem Stays.deepens (hv : walk.awaiting = .valueList → token.kind = .leftParen) :
    walk.Deepens token := by
  have hg : walk.Guarded (token :: rest) :=
    ⟨List.length_pos_iff.1 (Nat.lt_of_lt_of_le hf h.deep), fun ha => ⟨token, rest, rfl, hv ha⟩,
      h.default⟩
  exact hg.deepens

include hf h in
theorem Stays.exists_step (hv : walk.awaiting = .valueList → token.kind = .leftParen) :
    ∃ next events, walk.step token = .more next events := by
  rcases h.deepens hf hv with ⟨next, events, hmore, -⟩ | ⟨hzero, -⟩
  · exact ⟨next, events, hmore⟩
  · have hpos := (keepsDepth_cons.1 h.inside).2.pos
    omega

include hf h in
/-- The walk stays deep, and its depth is the one that the token makes. -/
theorem Stays.step (hs : walk.step token = .more next events) :
    next.Stays floor rest ∧ (next.depth : Int) = walk.depth + token.nesting := by
  rcases h.deepens hf (leftParen_of_step hs) with ⟨other, noted, hmore, hdepth, -, hdefault⟩ | ⟨-, _, _, hclosed⟩
  · rw [hs, Step.more.injEq] at hmore
    obtain ⟨rfl, -⟩ := hmore
    have hinside : KeepsDepth (next.depth - floor) rest := by
      have hkeeps := (keepsDepth_cons.1 h.inside).2
      have hsum : (walk.depth : Int) - floor + token.nesting = next.depth - floor := by
        rw [hdepth]
        omega
      rwa [hsum] at hkeeps
    refine ⟨⟨?_, hinside, fun ha after others hl => ?_, h.defaults.tail⟩, hdepth⟩
    · by_cases hd : next.awaiting.depth = 0
      · have hpos := hinside.pos
        rw [depth_eq_length hd] at hpos
        omega
      · rw [opened_of_step hs hd]
        exact h.deep
    · exact h.defaults [] token after others (by rw [hl]; rfl) (hdefault ha)
  · rw [hs] at hclosed
    exact absurd hclosed (by simp)

end Stays

theorem guarded_start (start : Nat) (rest : List Token) :
    ({ opened := [start] } : ColumnWalk).Guarded rest :=
  ⟨by simp, by simp, by simp⟩

end ColumnWalk

open ColumnWalk

/-! ## Matched parentheses -/

/-- The first token opens a parenthesis, and the last one closes it. -/
theorem matched_iff {list : List Token} :
    Matched list ↔
      ∃ opening inner, list = opening :: inner ∧ opening.kind = .leftParen ∧ Exhausts 1 inner := by
  constructor
  · rintro ⟨⟨opening, inner, rfl, hk⟩, hclosed, hinside⟩
    refine ⟨opening, inner, rfl, hk, ?_, ?_⟩
    · rw [← nesting_leftParen hk, ← balance_cons, hclosed]
    · intro before after hl ha
      rw [← nesting_leftParen hk, ← balance_cons]
      exact hinside (opening :: before) after (by rw [hl]; rfl) (List.cons_ne_nil _ _) ha
  · rintro ⟨opening, inner, rfl, hk, hends, hinside⟩
    refine ⟨⟨opening, inner, rfl, hk⟩, ?_, ?_⟩
    · rw [balance_cons, nesting_leftParen hk, hends]
    · intro before after hl hb ha
      cases before with
      | nil => exact absurd rfl hb
      | cons first before =>
        rw [List.cons_append, List.cons.injEq] at hl
        obtain ⟨rfl, hl⟩ := hl
        rw [balance_cons, nesting_leftParen hk]
        exact hinside before after hl ha

/-- Where value lists follow `ENUM` and nothing is closed by a `DEFAULT`, a column list is read to
its end exactly if its parentheses match. -/
theorem closes_iff_matched {list rest : List Token} (he : EnumsOpen (list ++ rest))
    (hd : DefaultsKeepOpen (list ++ rest)) (hs : startsList list = true) :
    (∃ columns, Closes {} list columns) ↔ Matched list := by
  cases list with
  | nil => exact absurd hs (by simp [startsList])
  | cons opening inner =>
    have hk : opening.kind = .leftParen := by simpa [startsList] using hs
    rw [matched_iff]
    have hstart := guarded_start opening.start (inner ++ rest)
    constructor
    · rintro ⟨columns, h⟩
      cases h with
      | last h =>
        rw [step_start hk] at h
        exact absurd h (by simp)
      | cons h ht =>
        rw [step_start hk, Step.more.injEq] at h
        obtain ⟨rfl, -⟩ := h
        exact ⟨opening, inner, rfl, hk, ht.exhausts hstart he.tail hd.tail⟩
    · rintro ⟨first, others, hl, -, h⟩
      rw [List.cons.injEq] at hl
      obtain ⟨rfl, rfl⟩ := hl
      obtain ⟨columns, hc⟩ := hstart.closes he.tail hd.tail h
      exact ⟨columns, .cons (step_start hk) hc⟩

end TableScribe
