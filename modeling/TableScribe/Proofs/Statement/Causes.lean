import TableScribe.Proofs.Statement.Readers

/-!
# Causes of faults

A fault says what was expected where, and its cause is found among the tokens.

1. `Fault.CausedBy`: for each fault, the tokens in front of which or behind which it arises. There
   is no cause for a parenthesis that closes none, and so this fault never arises.
2. `Cursor.Behind tokens read cursor`: the cursor stands behind `read`. A reader takes a cursor from
   one such place to another, or its fault has a cause (`Reading.Explains`).

Here this is shown of the opening words, the table name and the table options. What has been read
always decides what is expected next: a name, for instance, behind `TABLE`, behind `EXISTS` or behind
a dot.
-/

namespace TableScribe

/-! ## Causes -/

/-- The last of the tokens is of such a kind. -/
def EndsIn (p : TokenKind → Prop) (tokens : List Token) : Prop :=
  ∃ token ∈ tokens.getLast?, p token.kind

theorem endsIn_concat {p : TokenKind → Prop} {token : Token} (h : p token.kind)
    (front : List Token) : EndsIn p (front ++ [token]) :=
  ⟨token, by simp, h⟩

/-- A parenthesis that opens stands at the byte. -/
def OpensAt (tokens : List Token) (position : Nat) : Prop :=
  ∃ token ∈ tokens, token.kind = .leftParen ∧ token.start = position

theorem OpensAt.append_left {front : List Token} {position : Nat} (h : OpensAt front position)
    (back : List Token) : OpensAt (front ++ back) position := by
  obtain ⟨token, hmem, hk, hstart⟩ := h
  exact ⟨token, List.mem_append_left back hmem, hk, hstart⟩

theorem OpensAt.append_right {back : List Token} {position : Nat} (h : OpensAt back position)
    (front : List Token) : OpensAt (front ++ back) position := by
  obtain ⟨token, hmem, hk, hstart⟩ := h
  exact ⟨token, List.mem_append_right front hmem, hk, hstart⟩

/-- Behind the tokens that have been read, this is what has to follow. -/
def Expected.Due : Expected → List Token → Prop
  | .create, read => read = []
  | .table, read => ∃ word, read = [word] ∧ word.kind = .keyword .create
  | .columnList, read => EndsIn (fun kind => kind.isName = true) read
  | .valueList, read => EndsIn (fun kind => kind = .keyword .enum) read
  | .statementEnd, read => EndsIn (fun kind => kind = .semicolon) read

/-- The token is the expected one. No token is the end of a statement. -/
def Expected.Met : Expected → Token → Prop
  | .create, token => token.kind = .keyword .create
  | .table, token => token.kind = .keyword .table
  | .columnList, token => token.kind = .leftParen
  | .valueList, token => token.kind = .leftParen
  | .statementEnd, _ => False

/-- Behind the tokens that have been read, a table name has to follow. -/
def NameDue (read : List Token) : Prop :=
  EndsIn (fun kind => kind = .keyword .table ∨ kind = .keyword .existsWord ∨ kind = .dot) read

/-- What in the tokens is at fault. -/
inductive Fault.CausedBy (strictness : Strictness) (tokens : List Token) : Fault → Prop
  | unexpectedToken {expected : Expected} {read rest : List Token} {token : Token}
      (h : tokens = read ++ token :: rest) (hd : expected.Due read) (hm : ¬ expected.Met token) :
      CausedBy strictness tokens (.unexpectedToken expected token.lexeme token.start)
  | unexpectedEnd {expected : Expected} {last : Token} (hd : expected.Due tokens)
      (hl : last ∈ tokens.getLast?) :
      CausedBy strictness tokens (.unexpectedEnd expected last.stop)
  | emptyStatement (h : tokens = []) : CausedBy strictness tokens .emptyStatement
  | missingCreateTable (hs : strictness = .lenient) (hne : tokens ≠ [])
      (hl : LacksOpening tokens) : CausedBy strictness tokens .missingCreateTable
  | noTableName {read rest : List Token} {token : Token} (h : tokens = read ++ token :: rest)
      (hd : NameDue read) (hk : token.kind.isName = false) :
      CausedBy strictness tokens (.missingTableName token.start)
  | endsBeforeTableName {last : Token} (hd : NameDue tokens) (hl : last ∈ tokens.getLast?) :
      CausedBy strictness tokens (.missingTableName last.stop)
  | incompleteIfNotExists {read rest : List Token} {word : Token}
      (h : tokens = read ++ word :: rest) (hd : EndsIn (fun kind => kind = .keyword .table) read)
      (hk : word.kind = .keyword .ifWord)
      (hno : ∀ second third after, rest = second :: third :: after →
        second.kind = .keyword .notWord → third.kind = .keyword .existsWord → after = []) :
      CausedBy strictness tokens (.incompleteIfNotExists word.start)
  | unmatchedOpening {position : Nat} (h : OpensAt tokens position) :
      CausedBy strictness tokens (.unmatchedOpening position)
  | unmatchedInValues {position : Nat} (h : OpensAt tokens position) :
      CausedBy strictness tokens (.unmatchedInValues position)

/-! ## Places among the tokens -/

/-- The cursor stands behind what has been read of the tokens. -/
structure Cursor.Behind (tokens read : List Token) (cursor : Cursor) : Prop where
  split : tokens = read ++ cursor.rest
  finish : cursor.finish = (Cursor.ofTokens tokens).finish

/-- If the reading fails, its fault has a cause in the tokens; otherwise it stops behind tokens with
the property. -/
def Reading.Explains {α : Type} (strictness : Strictness) (tokens : List Token)
    (after : List Token → Prop) (reading : Reading α) : Prop :=
  match reading.outcome with
  | .error fault => fault.CausedBy strictness tokens
  | .ok _ => ∃ read, reading.cursor.Behind tokens read ∧ after read

section Readers

variable {strictness : Strictness} {tokens read : List Token} {cursor : Cursor}

theorem Reading.Explains.error {α : Type} {after : List Token → Prop} {reading : Reading α}
    (h : reading.Explains strictness tokens after) {fault : Fault}
    (hr : reading.outcome = .error fault) : fault.CausedBy strictness tokens := by
  unfold Reading.Explains at h
  rwa [hr] at h

theorem Reading.Explains.ok {α : Type} {after : List Token → Prop} {reading : Reading α}
    (h : reading.Explains strictness tokens after) {a : α} (hr : reading.outcome = .ok a) :
    ∃ read, reading.cursor.Behind tokens read ∧ after read := by
  unfold Reading.Explains at h
  rwa [hr] at h

theorem Cursor.behind_ofTokens (tokens : List Token) :
    (Cursor.ofTokens tokens).Behind tokens [] :=
  ⟨rfl, rfl⟩

theorem Cursor.Behind.moveTo (h : cursor.Behind tokens read) (front : List Token)
    {rest : List Token} (hr : cursor.rest = front ++ rest) (count : Nat) :
    (cursor.moveTo count rest).Behind tokens (read ++ front) := by
  refine ⟨?_, h.finish⟩
  rw [List.append_assoc]
  show tokens = read ++ (front ++ rest)
  rw [← hr]
  exact h.split

/-- Where nothing is left to be read, the cursor knows the end of the last token. -/
theorem Cursor.Behind.exists_last (h : cursor.Behind tokens read) (hne : tokens ≠ [])
    (hr : cursor.rest = []) :
    tokens = read ∧ ∃ last ∈ tokens.getLast?, cursor.finish = last.stop := by
  refine ⟨?_, ?_⟩
  · have hsplit := h.split
    rwa [hr, List.append_nil] at hsplit
  · refine ⟨tokens.getLast hne, List.getLast?_eq_some_getLast hne, ?_⟩
    rw [h.finish, Cursor.ofTokens, List.getLast?_eq_some_getLast hne]
    rfl

theorem Cursor.Behind.unexpected (h : cursor.Behind tokens read) (hne : tokens ≠ [])
    {expected : Expected} (hd : expected.Due read)
    (hm : ∀ token ∈ cursor.rest.head?, ¬ expected.Met token) :
    (cursor.unexpected expected).CausedBy strictness tokens := by
  unfold Cursor.unexpected
  cases hr : cursor.rest with
  | nil =>
    obtain ⟨rfl, last, hl, hfinish⟩ := h.exists_last hne hr
    show (Fault.unexpectedEnd expected cursor.finish).CausedBy strictness tokens
    rw [hfinish]
    exact .unexpectedEnd hd hl
  | cons token rest =>
    rw [hr] at hm
    refine .unexpectedToken (hr ▸ h.split) hd (hm token rfl)

theorem Cursor.Behind.missingTableName (h : cursor.Behind tokens read) (hne : tokens ≠ [])
    (hd : NameDue read) (hk : ∀ token ∈ cursor.rest.head?, token.kind.isName = false) :
    (Fault.missingTableName cursor.position).CausedBy strictness tokens := by
  unfold Cursor.position
  cases hr : cursor.rest with
  | nil =>
    obtain ⟨rfl, last, hl, hfinish⟩ := h.exists_last hne hr
    show (Fault.missingTableName cursor.finish).CausedBy strictness tokens
    rw [hfinish]
    exact .endsBeforeTableName hd hl
  | cons token rest =>
    rw [hr] at hk
    exact .noTableName (hr ▸ h.split) hd (hk token rfl)

/-! ## The opening words and the table name -/

theorem readOpening_explains (h : cursor.Behind tokens []) (hne : tokens ≠ []) :
    (readOpening cursor).Explains strictness tokens
      (EndsIn fun kind => kind = .keyword .table) := by
  unfold readOpening
  cases hr : cursor.rest with
  | nil => exact h.unexpected hne rfl (by simp [hr])
  | cons first rest =>
    dsimp only
    split
    · rename_i h1
      have hfirst : first.kind = .keyword .create := by simpa [Token.isKeyword] using h1
      have hbehind := h.moveTo [first] hr 1
      have hdue : Expected.table.Due [first] := ⟨first, rfl, hfirst⟩
      cases rest with
      | nil => exact hbehind.unexpected hne hdue (by simp [Cursor.moveTo])
      | cons second rest =>
        dsimp only
        split
        · rename_i h2
          have hsecond : second.kind = .keyword .table := by simpa [Token.isKeyword] using h2
          exact ⟨[first] ++ [second], hbehind.moveTo [second] rfl 1,
            endsIn_concat hsecond [first]⟩
        · rename_i h2
          refine hbehind.unexpected hne hdue fun token htoken hmet => h2 ?_
          obtain rfl : second = token := by simpa [Cursor.moveTo] using htoken
          exact decide_eq_true hmet
    · rename_i h1
      refine h.unexpected hne rfl fun token htoken hmet => h1 ?_
      rw [hr, List.head?_cons, Option.mem_some_iff] at htoken
      subst htoken
      exact decide_eq_true hmet

/-- A search that fails has passed over all tokens without finding the words. -/
theorem seekOpening_explains {rest : List Token} (hs : tokens = read ++ rest)
    (hf : cursor.finish = (Cursor.ofTokens tokens).finish) (hne : tokens ≠ [])
    (hl : LacksOpening rest → LacksOpening tokens) (count : Nat) (events : List Event) :
    (seekOpening cursor rest count events).Explains .lenient tokens
      (EndsIn fun kind => kind = .keyword .table) := by
  -- As long as nothing is found, all tokens lack the words if those that are left do.
  induction rest generalizing read count events with
  | nil => exact .missingCreateTable rfl hne (hl .nil)
  | cons token rest ih =>
    rw [seekOpening]
    split
    · rename_i hstarts
      obtain ⟨-, second, after, rfl, hsecond⟩ := startsCreateTable_cons.1 hstarts
      refine ⟨read ++ [token] ++ [second], ⟨?_, hf⟩, endsIn_concat hsecond _⟩
      rw [hs]
      simp [Cursor.moveTo]
    · rename_i hstarts
      have hread : tokens = (read ++ [token]) ++ rest := by rw [hs, List.append_cons]
      refine ih hread (fun hlacks => hl ?_) _ _
      refine neverFollowed_cons.2 ⟨fun hk second hsecond h2 => hstarts ?_, hlacks⟩
      obtain ⟨after, rfl⟩ := List.head?_eq_some_iff.1 hsecond
      exact startsCreateTable_cons.2 ⟨hk, second, after, rfl, h2⟩

theorem readStart_explains (h : cursor.Behind tokens []) (hne : tokens ≠ []) :
    (readStart strictness cursor).Explains strictness tokens
      (EndsIn fun kind => kind = .keyword .table) := by
  cases strictness with
  | strict => exact readOpening_explains h hne
  | lenient => exact seekOpening_explains h.split h.finish hne (fun hl => h.split ▸ hl) 0 []

theorem not_isName_of_name? {token : Token} (h : token.name? = none) :
    token.kind.isName = false := by
  unfold Token.name? at h
  split at h
  · exact absurd h (by simp)
  · rename_i hk
    exact Bool.eq_false_iff.2 hk

theorem readSegments_explains {rest : List Token} (hs : tokens = read ++ rest)
    (hf : cursor.finish = (Cursor.ofTokens tokens).finish) (hne : tokens ≠ []) (hd : NameDue read)
    (count : Nat) :
    (readSegments cursor rest count).Explains strictness tokens
      (EndsIn fun kind => kind.isName = true) := by
  have hmissing : ∀ {rest : List Token} {read : List Token} (count : Nat), tokens = read ++ rest →
      NameDue read → (∀ token ∈ rest.head?, token.kind.isName = false) →
      (Fault.missingTableName (cursor.moveTo count rest).position).CausedBy strictness tokens :=
    fun count hs hd hk => Cursor.Behind.missingTableName ⟨hs, hf⟩ hne hd hk
  fun_induction readSegments cursor rest count generalizing read with
  | case1 count => exact hmissing count hs hd (by simp)
  | case2 token count hn =>
    refine hmissing count hs hd fun found hfound => ?_
    obtain rfl : token = found := by simpa using hfound
    exact not_isName_of_name? hn
  | case3 token count name hn =>
    exact ⟨read ++ [token], ⟨by rw [hs]; simp [Cursor.moveTo], hf⟩,
      endsIn_concat (Token.name?_eq_some_iff.1 hn).1 read⟩
  | case4 token next rest count hn =>
    refine hmissing count hs hd fun found hfound => ?_
    obtain rfl : token = found := by simpa using hfound
    exact not_isName_of_name? hn
  | case5 token next rest count name hn hdot ih =>
    have hread : tokens = (read ++ [token] ++ [next]) ++ rest := by rw [hs]; simp
    exact ih hread (endsIn_concat (.inr (.inr hdot)) _)
  | case6 token next rest count name hn hdot =>
    exact ⟨read ++ [token], ⟨by rw [hs]; simp [Cursor.moveTo], hf⟩,
      endsIn_concat (Token.name?_eq_some_iff.1 hn).1 read⟩

theorem readTableName_explains (h : cursor.Behind tokens read) (hne : tokens ≠ [])
    (hd : EndsIn (fun kind => kind = .keyword .table) read) :
    (readTableName cursor).Explains strictness tokens
      (EndsIn fun kind => kind.isName = true) := by
  have hdue : NameDue read := by
    obtain ⟨word, hword, hk⟩ := hd
    exact ⟨word, hword, .inl hk⟩
  unfold readTableName
  cases hr : cursor.rest with
  | nil => exact readSegments_explains (hr ▸ h.split) h.finish hne hdue 0
  | cons token rest =>
    dsimp only
    split
    · rename_i hif
      have hk : token.kind = .keyword .ifWord := by simpa [Token.isKeyword] using hif
      split
      · rename_i hnone
        refine .incompleteIfNotExists (hr ▸ h.split) hd hk fun second third after hl h2 h3 => ?_
        rw [hl, Option.eq_none_iff_forall_ne_some] at hnone
        refine Classical.byContradiction fun hafter => hnone after ?_
        exact afterIfNotExists?_eq_some_iff.2 ⟨token, second, third, rfl, hk, h2, h3, hafter⟩
      · rename_i after hafter
        obtain ⟨first, second, third, hl, -, -, h3, -⟩ := afterIfNotExists?_eq_some_iff.1 hafter
        have hread : tokens = (read ++ [first, second] ++ [third]) ++ after := by
          rw [h.split, hr, hl]
          simp
        exact readSegments_explains hread h.finish hne (endsIn_concat (.inr (.inl h3)) _) 3
    · exact readSegments_explains (hr ▸ h.split) h.finish hne hdue 0

/-- Once there is a table name, the cursor stands behind it. -/
theorem behind_of_readTableName
    (hs : (readStart strictness (.ofTokens tokens)).outcome = .ok ()) {name : String}
    (hh : (readTableName (readStart strictness (.ofTokens tokens)).cursor).outcome = .ok name) :
    ∃ read, (readTableName (readStart strictness (.ofTokens tokens)).cursor).cursor.Behind
      tokens read ∧ EndsIn (fun kind => kind.isName = true) read := by
  have hne : tokens ≠ [] := by
    rintro rfl
    cases strictness with
    | strict => exact absurd hs (by simp [readStart, readOpening, Cursor.ofTokens])
    | lenient => exact absurd hs (by simp [readStart, seekOpening, Cursor.ofTokens])
  obtain ⟨read, hbehind, htable⟩ := (readStart_explains (Cursor.behind_ofTokens tokens) hne).ok hs
  have hheader : (readTableName _).Explains strictness tokens _ :=
    readTableName_explains hbehind hne htable
  exact hheader.ok hh

/-! ## The options of a table -/

/-- Only what follows the semicolon can be at fault. -/
theorem causedBy_of_readTableOptions (hs : tokens = read ++ cursor.rest) {fault : Fault}
    (h : (readTableOptions strictness cursor).outcome = .error fault) :
    fault.CausedBy strictness tokens := by
  rcases endsStatement_or_append cursor.rest with ho | ⟨options, after, hr, hafter, ho, hsemi⟩
  · obtain ⟨comment, -, hread⟩ := readTableOptions_of_endsStatement ho
    rw [hread strictness cursor [] (List.append_nil _).symm (.inl rfl)] at h
    exact absurd h (by simp)
  · obtain ⟨comment, -, hread⟩ := readOptions_spec none .plain ho
    obtain ⟨hok, hrest⟩ := hread cursor 0 [] after (.inr hsemi)
    rw [← hr] at hok hrest
    obtain ⟨body, semicolon, rfl, hk⟩ := hsemi
    obtain ⟨next, more, rfl⟩ := List.exists_cons_of_ne_nil hafter
    unfold readTableOptions at h
    dsimp only at h
    split at h
    · rw [Except.error.injEq, Cursor.unexpected, hrest] at h
      rw [← h]
      have hread : tokens = (read ++ body ++ [semicolon]) ++ next :: more := by
        rw [hs, hr]
        simp
      have hdue : EndsIn (fun kind => kind = .semicolon) (read ++ body ++ [semicolon]) :=
        endsIn_concat hk _
      exact .unexpectedToken hread hdue id
    · rw [hok] at h
      exact absurd h (by simp)

end Readers

end TableScribe
