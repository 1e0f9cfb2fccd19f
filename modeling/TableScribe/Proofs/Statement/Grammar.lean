import TableScribe.Statement.CreateTable

/-!
# The grammar of a statement

What the parts of a `CREATE TABLE` statement look like and what they say, without reference to how
they are read. A part is a list of tokens with given kinds; what a token says is its text without
delimiters, wherever it stands.

1. `Token.Says`: the text of a token, and that `Token.unquoted` finds it.
2. `Header`: `[IF NOT EXISTS] name (. name)*`, which says its last name.
3. `TableComment`: the last `COMMENT [=] 'text'` among the options of a table.
4. `EndsStatement`: options in which a semicolon can only be the last token.
5. `NeverFollowed`: token lists in which one kind does not directly follow another.
-/

namespace TableScribe

/-! ## What a token says -/

/-- The token says the text: its lexeme between the delimiters of its kind, or all of the lexeme
where the kind has no delimiters or the lexeme lacks them. -/
inductive Token.Says : Token → String → Prop
  | plain {token : Token} (h : token.kind.delimiters? = none) : Says token token.lexeme
  | enclosed {token : Token} {opening closing : Char} {text : String}
      (h : token.kind.delimiters? = some (opening, closing))
      (hl : token.lexeme.toList = opening :: (text.toList ++ [closing])) : Says token text
  | bare {token : Token} {opening closing : Char}
      (h : token.kind.delimiters? = some (opening, closing))
      (hl : ∀ inner, token.lexeme.toList ≠ opening :: (inner ++ [closing])) :
      Says token token.lexeme

theorem Text.between?_eq_some_iff {opening closing : Char} {text inner : List Char} :
    Text.between? opening closing text = some inner ↔ text = opening :: (inner ++ [closing]) := by
  cases text with
  | nil => simp [Text.between?]
  | cons c rest =>
    rw [Text.between?]
    constructor
    · intro h
      split at h
      · rename_i hc
        obtain ⟨rfl, hlast⟩ := hc
        obtain ⟨front, rfl⟩ := List.getLast?_eq_some_iff.1 hlast
        rw [List.dropLast_concat, Option.some.injEq] at h
        rw [h]
      · exact absurd h (by simp)
    · intro h
      rw [List.cons.injEq] at h
      obtain ⟨rfl, rfl⟩ := h
      rw [if_pos ⟨rfl, by simp⟩, List.dropLast_concat]

theorem Token.unquoted_of_plain {token : Token} (h : token.kind.delimiters? = none) :
    token.unquoted = token.lexeme := by
  unfold Token.unquoted
  rw [h]

theorem Token.unquoted_of_delimiters {token : Token} {opening closing : Char}
    (h : token.kind.delimiters? = some (opening, closing)) :
    token.unquoted =
      ((Text.between? opening closing token.lexeme.toList).map String.ofList).getD
        token.lexeme := by
  unfold Token.unquoted
  rw [h]
  dsimp only
  cases Text.between? opening closing token.lexeme.toList <;> rfl

theorem Token.says_unquoted (token : Token) : token.Says token.unquoted := by
  cases h : token.kind.delimiters? with
  | none =>
    rw [Token.unquoted_of_plain h]
    exact .plain h
  | some pair =>
    obtain ⟨opening, closing⟩ := pair
    rw [Token.unquoted_of_delimiters h]
    cases hb : Text.between? opening closing token.lexeme.toList with
    | none =>
      refine .bare h fun inner hl => ?_
      rw [Text.between?_eq_some_iff.2 hl] at hb
      exact absurd hb (by simp)
    | some inner =>
      refine .enclosed h ?_
      rw [Option.map_some, Option.getD_some, String.toList_ofList]
      exact Text.between?_eq_some_iff.1 hb

/-- A token says exactly one text, the one without its delimiters. -/
theorem Token.says_iff {token : Token} {text : String} :
    token.Says text ↔ token.unquoted = text := by
  constructor
  · intro h
    cases h with
    | plain h => exact Token.unquoted_of_plain h
    | enclosed h hl =>
      rw [Token.unquoted_of_delimiters h, Text.between?_eq_some_iff.2 hl]
      exact String.ofList_toList
    | bare h hl =>
      rw [Token.unquoted_of_delimiters h, Option.eq_none_iff_forall_ne_some.2 fun inner hb =>
        hl inner (Text.between?_eq_some_iff.1 hb)]
      rfl
  · rintro rfl
    exact token.says_unquoted

/-! ## The table name -/

/-- Names with a dot between neighbours; they say the last of them. -/
inductive Segments : List Token → String → Prop
  | last {token : Token} {name : String} (hk : token.kind.isName = true)
      (hs : token.Says name) : Segments [token] name
  | dotted {token dot : Token} {rest : List Token} {name : String}
      (hk : token.kind.isName = true) (hd : dot.kind = .dot)
      (hr : Segments rest name) : Segments (token :: dot :: rest) name

/-- The words `IF NOT EXISTS`, or nothing. -/
inductive Condition : List Token → Prop
  | absent : Condition []
  | present {first second third : Token} (h1 : first.kind = .keyword .ifWord)
      (h2 : second.kind = .keyword .notWord) (h3 : third.kind = .keyword .existsWord) :
      Condition [first, second, third]

/-- What stands between `CREATE TABLE` and the column list, and the name that it says. -/
def Header (tokens : List Token) (name : String) : Prop :=
  ∃ condition segments, tokens = condition ++ segments ∧ Condition condition ∧
    Segments segments name

/-! ## The options of a table -/

/-- `COMMENT 'text'` or `COMMENT = 'text'`. -/
inductive CommentClause : List Token → String → Prop
  | plain {word literal : Token} {text : String} (hw : word.kind = .keyword .comment)
      (hk : literal.kind = .stringLiteral) (hs : literal.Says text) :
      CommentClause [word, literal] text
  | equals {word sign literal : Token} {text : String} (hw : word.kind = .keyword .comment)
      (he : sign.kind = .equals) (hk : literal.kind = .stringLiteral) (hs : literal.Says text) :
      CommentClause [word, sign, literal] text

/-- A comment clause stands among the tokens. -/
def HasComment (tokens : List Token) : Prop :=
  ∃ before clause after text, tokens = before ++ (clause ++ after) ∧ CommentClause clause text

/-- The last comment clause among the tokens says what is found, an empty text counting as none;
where there is no clause, the comment is the one given. -/
def LastComment (given : Option String) (tokens : List Token) (found : Option String) : Prop :=
  (¬ HasComment tokens ∧ found = given) ∨
    ∃ before clause after text, tokens = before ++ (clause ++ after) ∧
      CommentClause clause text ∧ ¬ HasComment after ∧ found = nonEmpty text

/-- The comment that the options of a table give it. -/
def TableComment (options : List Token) (comment : Option String) : Prop :=
  LastComment none options comment

/-- No token but the last is a semicolon. -/
def EndsStatement (options : List Token) : Prop :=
  ∀ before semicolon after, options = before ++ semicolon :: after →
    semicolon.kind = .semicolon → after = []

/-! ## Neighbours -/

/-- No token of the first kind is directly followed by one of the second kind. -/
def NeverFollowed (first second : TokenKind) (tokens : List Token) : Prop :=
  ∀ before token next after, tokens = before ++ token :: next :: after →
    token.kind = first → next.kind ≠ second

section NeverFollowed

variable {first second : TokenKind}

theorem NeverFollowed.nil : NeverFollowed first second [] :=
  fun _ _ _ _ hl => absurd hl (by simp)

theorem NeverFollowed.append_right {front rest : List Token}
    (h : NeverFollowed first second (front ++ rest)) : NeverFollowed first second rest := by
  intro before token next after hl
  refine h (front ++ before) token next after ?_
  rw [List.append_assoc, ← hl]

theorem NeverFollowed.tail {token : Token} {rest : List Token}
    (h : NeverFollowed first second (token :: rest)) : NeverFollowed first second rest :=
  NeverFollowed.append_right (show NeverFollowed first second ([token] ++ rest) from h)

theorem neverFollowed_cons {token : Token} {rest : List Token} :
    NeverFollowed first second (token :: rest) ↔
      (token.kind = first → ∀ next ∈ rest.head?, next.kind ≠ second) ∧
        NeverFollowed first second rest := by
  constructor
  · intro h
    refine ⟨fun hk next hnext => ?_, h.tail⟩
    obtain ⟨after, rfl⟩ := List.head?_eq_some_iff.1 hnext
    exact h [] token next after rfl hk
  · rintro ⟨hhead, htail⟩ before found next after hl hk
    cases before with
    | nil =>
      rw [List.nil_append, List.cons.injEq] at hl
      obtain ⟨rfl, rfl⟩ := hl
      exact hhead hk next rfl
    | cons front before =>
      rw [List.cons_append, List.cons.injEq] at hl
      exact htail before found next after hl.2 hk

theorem NeverFollowed.append {front rest : List Token}
    (hfront : ∀ token ∈ front, token.kind ≠ first) (h : NeverFollowed first second rest) :
    NeverFollowed first second (front ++ rest) := by
  induction front with
  | nil => exact h
  | cons token front ih =>
    refine neverFollowed_cons.2 ⟨fun hk => absurd hk (hfront token List.mem_cons_self), ?_⟩
    exact ih fun other hmem => hfront other (.tail _ hmem)

instance decidableNeverFollowed :
    (tokens : List Token) → Decidable (NeverFollowed first second tokens)
  | [] => isTrue .nil
  | _ :: rest =>
    have := decidableNeverFollowed rest
    decidable_of_iff _ neverFollowed_cons.symm

end NeverFollowed

end TableScribe
