import TableScribe.Proofs.Script.Blocks
import TableScribe.Proofs.Statement.Joining
import TableScribe.Proofs.Statement.Semicolon
import TableScribe.Run

/-!
# Comments between statements

White space between the statements of a script does not matter, but comments do: the statement
behind one is read together with the one before. `parseAll_scriptText` says what is left of the
tables.

1. A block is scanned into the tokens of its first statement, a semicolon, and those of the hidden
   statements (`Block.Plain.exists_scan`).
2. A lenient reading takes the first statement of a block and drops the others. A strict one refuses
   a block with hidden statements as a whole (`Block.Plain.parseStatement_eq`).
3. `parseFrom_eq_ok_iff`: a run collects what is understood. Which passages that is, `blocks` tells
   (`filter_first_blocks`, `filter_hidden_blocks`).
-/

namespace TableScribe

open Matcher Pattern

/-! ## Reading a block -/

/-- A list of the same contents reads alike. -/
theorem joined_of_map_content {tokens again : List Token}
    (h : again.map Token.content = tokens.map Token.content) : Joined tokens again := by
  induction tokens generalizing again with
  | nil =>
    rw [List.map_nil, List.map_eq_nil_iff] at h
    rw [h]
    exact .nil
  | cons token rest ih =>
    rw [List.map_cons, List.map_eq_cons_iff] at h
    obtain ⟨found, later, rfl, hfound, hlater⟩ := h
    exact .same hfound (ih hlater)

/-- A text that is not all blanks begins as before when others follow and the end is trimmed. -/
theorem head?_trimEnd_append {text : List Char} (h : ∃ c ∈ text, Text.isBlank c = false)
    (back more : List Char) :
    (Text.trimEnd (text ++ back) ++ more).head? = text.head? := by
  obtain ⟨gap, hsplit, -⟩ := dropEndWhile_spec Text.isBlank (text ++ back)
  obtain ⟨c, hc, hblank⟩ := h
  have hne : Text.trimEnd (text ++ back) ≠ [] :=
    dropEndWhile_ne_nil ⟨c, List.mem_append_left back hc, hblank⟩
  obtain ⟨first, kept, hkept⟩ := List.exists_cons_of_ne_nil hne
  obtain ⟨d, rest, rfl⟩ := List.exists_cons_of_ne_nil (List.ne_nil_of_mem hc)
  rw [show Text.dropEndWhile Text.isBlank (d :: rest ++ back) = first :: kept from hkept,
    List.cons_append, List.cons_append, List.cons.injEq] at hsplit
  rw [hkept, hsplit.1]
  rfl

/-- The statements behind a text are scanned after it and a semicolon. -/
theorem exists_scansAs_tail {hidden : List Passage} (h : ∀ p ∈ hidden, p.Plain) {text : List Char}
    {cuts : List Cut} (hcuts : Cuts none text cuts []) (hno : ¬ ['-', '-'] <:+: text) :
    ∃ more, (more = [] ↔ hidden = []) ∧ ∀ before : Option Char,
      before.any Text.isWord = false →
      ScansAs before (Text.trimEnd (text ++ tailText hidden) ++ [';'])
        (contentsOf cuts ++ (.semicolon, ";") :: more) := by
  induction hidden generalizing text cuts with
  | nil =>
    refine ⟨[], by simp, fun before hb => ?_⟩
    obtain ⟨gap, hsplit, hgap, hlast⟩ := dropEndWhile_spec Text.isBlank text
    have hdashes : ¬ ['-', '-'] <:+: Text.dropEndWhile Text.isBlank text := by
      intro hslice
      refine hno ?_
      rw [hsplit]
      exact hslice.trans (List.prefix_append _ gap).isInfix
    rw [tailText, List.append_nil]
    exact (hcuts.congr (show none.any _ = _ from hb.symm)).scansAs_semicolon rfl hsplit hgap
      (.inr hlast) hdashes (scansAs_nil _)
  | cons p rest ih =>
    have hp := h p List.mem_cons_self
    obtain ⟨later, hlater, -⟩ := hp.exists_cuts
    obtain ⟨more, -, hscans⟩ :=
      ih (fun next hmem => h next (List.mem_cons_of_mem p hmem)) hlater hp.dashes
    refine ⟨contentsOf later ++ (.semicolon, ";") :: more, by simp, fun before hb => ?_⟩
    obtain ⟨c, hc, hblank⟩ := hp.opens.not_blank
    have htrim : Text.trimEnd (text ++ tailText (p :: rest)) ++ [';'] =
        text ++ ';' ::
          (p.gap ++ (Text.trimEnd (p.statement.toList ++ tailText rest) ++ [';'])) := by
      have hback : ∃ c ∈ p.statement.toList ++ tailText rest, Text.isBlank c = false :=
        ⟨c, List.mem_append_left _ hc, hblank⟩
      have hkept := @dropEndWhile_append_of_mem Text.isBlank (text ++ ';' :: p.gap) _ hback
      unfold Text.trimEnd
      rw [tailText]
      simp only [List.append_assoc, List.cons_append] at hkept
      rw [hkept]
      simp only [List.append_assoc, List.cons_append]
    have hgap : Gap p.gap (Text.trimEnd (p.statement.toList ++ tailText rest) ++ [';']) :=
      hp.gap.congr (head?_trimEnd_append ⟨c, hc, hblank⟩ _ _)
    rw [htrim]
    refine (hcuts.congr (show none.any _ = _ from hb.symm)).scansAs_semicolon rfl
      (List.append_nil text).symm (by simp) (.inl rfl) hno ?_
    exact hgap.scansAs hscans (by decide)

/-- A block is scanned into the tokens of its first statement, a semicolon, and more if there are
hidden statements. -/
theorem Block.Plain.exists_scan {b : Block} (h : b.Plain) :
    ∃ tokens semicolon after, scan b.statement = .ok (tokens ++ semicolon :: after) ∧
      parseTokens .strict tokens = .ok b.first.table ∧ semicolon.kind = .semicolon ∧
      (∀ token ∈ tokens, token.kind ≠ .semicolon) ∧ (after = [] ↔ b.hidden = []) := by
  obtain ⟨cuts, hcuts, hparse⟩ := h.first.exists_cuts
  obtain ⟨later, hlater, hcontents⟩ := hcuts.exists_trimStart
  have hdashes : ¬ ['-', '-'] <:+: Text.trimStart b.first.statement.toList :=
    fun hslice => h.first.dashes (hslice.trans (List.dropWhile_suffix _).isInfix)
  obtain ⟨more, hmore, hscans⟩ := exists_scansAs_tail h.hidden hlater hdashes
  have htext : Text.trim b.text =
      Text.trimEnd (Text.trimStart b.first.statement.toList ++ tailText b.hidden) := by
    rw [← h.trimStart_text]
    rfl
  obtain ⟨found, hscan, hfound⟩ := hscans none rfl 0
  rw [← htext, ← @String.toList_ofList (Text.trim b.text ++ [';'])] at hscan
  rw [hcontents, ← contents_tokensOf 0, List.map_eq_append_iff] at hfound
  obtain ⟨tokens, back, rfl, htokens, hback⟩ := hfound
  rw [List.map_eq_cons_iff] at hback
  obtain ⟨semicolon, after, rfl, hsemicolon, hafter⟩ := hback
  refine ⟨tokens, semicolon, after, hscan, ?_, congrArg Prod.fst hsemicolon, ?_, ?_⟩
  · exact (parseTokens_alike (joined_of_map_content htokens) .strict).eq_ok hparse
  · intro token hmem
    have hcontent : token.content ∈ contentsOf cuts := by
      rw [← contents_tokensOf 0, ← htokens]
      exact List.mem_map_of_mem hmem
    exact hcuts.ne_semicolon h.first.semicolon _ hcontent
  · rw [← hmore, ← hafter, List.map_eq_nil_iff]

/-- A lenient reading takes the first statement of a block; a strict one refuses the block if there
are others. -/
theorem Block.Plain.parseStatement_eq {b : Block} (h : b.Plain) :
    parseStatement .lenient b.statement = .ok b.first.table ∧
      (b.hidden = [] → parseStatement .strict b.statement = .ok b.first.table) ∧
      (b.hidden ≠ [] → ∃ fault, parseStatement .strict b.statement = .error fault) := by
  obtain ⟨tokens, semicolon, after, hscan, hparse, hk, hno, hafter⟩ := h.exists_scan
  obtain ⟨hlenient, halone, hbehind⟩ := parseTokens_semicolon hk hno hparse after
  unfold parseStatement
  rw [hscan]
  refine ⟨hlenient, fun hnil => halone (hafter.2 hnil), fun hne => ?_⟩
  obtain ⟨found, position, hfault⟩ := hbehind fun hnil => hne (hafter.1 hnil)
  exact ⟨_, hfault⟩

/-! ## Collecting the tables -/

/-- A run has the tables of the statements that are understood, and if it ends with the first that
is not, then all are. -/
theorem parseFrom_eq_ok_iff {settings : Settings} {index : Nat} {statements : List String}
    {tables : List Table} :
    (parseFrom settings index statements).result = .ok tables ↔
      tables = statements.filterMap
          (fun statement => (parseStatement settings.strictness statement).toOption) ∧
        (settings.failFast = true → ∀ statement ∈ statements,
          ∃ table, parseStatement settings.strictness statement = .ok table) := by
  induction statements generalizing index tables with
  | nil =>
    rw [parseFrom]
    constructor
    · intro h
      injection h with h
      exact ⟨h.symm, fun _ statement hmem => absurd hmem List.not_mem_nil⟩
    · rintro ⟨rfl, -⟩
      rfl
  | cons statement rest ih =>
    rw [parseFrom]
    dsimp only
    cases hparse : parseStatement settings.strictness statement with
    | ok table =>
      simp only [List.filterMap_cons, hparse, Except.toOption]
      constructor
      · intro h
        cases hrest : (parseFrom settings (index + 1) rest).result with
        | error failure =>
          rw [hrest] at h
          exact absurd h (by simp [Except.map])
        | ok later =>
          rw [hrest] at h
          injection h with h
          obtain ⟨rfl, hall⟩ := ih.1 hrest
          exact ⟨h.symm, fun hfast => List.forall_mem_cons.2 ⟨⟨table, hparse⟩, hall hfast⟩⟩
      · rintro ⟨rfl, hall⟩
        rw [ih.2 ⟨rfl, fun hfast => (List.forall_mem_cons.1 (hall hfast)).2⟩]
        rfl
    | error fault =>
      simp only [List.filterMap_cons, hparse, Except.toOption]
      split
      · rename_i hfast
        refine ⟨fun h => absurd h (by simp), ?_⟩
        rintro ⟨-, hall⟩
        obtain ⟨table, hok⟩ := hall hfast statement List.mem_cons_self
        rw [hparse] at hok
        exact absurd hok (by simp)
      · rename_i hfast
        refine ih.trans (and_congr_right fun _ => ?_)
        exact ⟨fun _ hfast' => absurd hfast' hfast, fun _ hfast' => absurd hfast' hfast⟩

/-! ## What is left of a script -/

/-- The passages that have no comment in front of them and none behind. -/
def standAlone : List Passage → List Passage
  | [] => []
  | p :: rest =>
    if p.apart && rest.head?.all (·.apart) then p :: standAlone rest else standAlone rest

/-- The passages without a comment in front are those with which blocks begin, but for the first. -/
theorem filter_first_blocks (passages : List Passage) :
    ((blocks passages).map (·.first)).filter (·.apart) = passages.filter (·.apart) := by
  induction passages with
  | nil => rfl
  | cons p rest ih =>
    rw [blocks, List.filter_cons, ← ih]
    split
    · rename_i hnil
      rw [hnil, List.map_singleton, List.filter_cons, List.map_nil]
    · rename_i b later hcons
      rw [hcons]
      split
      · rw [List.map_cons, List.filter_cons]
      · rename_i hcomment
        rw [List.map_cons, List.filter_cons, List.map_cons, List.filter_cons_of_neg hcomment]

theorem map_first_blocks {passages : List Passage}
    (hfirst : ∀ p ∈ passages.head?, p.apart = true) :
    (blocks passages).map (·.first) = passages.filter (·.apart) := by
  rw [← filter_first_blocks, List.filter_eq_self.2]
  exact List.forall_mem_map.2 (apart_of_mem_blocks hfirst)

/-- A passage stands alone if it is a block by itself. -/
theorem filter_hidden_blocks (passages : List Passage) :
    ((blocks passages).filter fun b => b.first.apart && b.hidden.isEmpty).map (·.first) =
      standAlone passages := by
  induction passages with
  | nil => rfl
  | cons p rest ih =>
    rw [blocks, standAlone, ← ih]
    cases rest with
    | nil => cases hp : p.apart <;> simp [blocks, hp]
    | cons next rest =>
      obtain ⟨hidden, later, heq⟩ := blocks_cons next rest
      rw [heq]
      cases hp : p.apart <;> cases hnext : next.apart <;> simp [hp, hnext]

theorem hidden_of_apart {passages : List Passage} (h : ∀ p ∈ passages, p.apart = true) :
    ∀ b ∈ blocks passages, b.hidden = [] := by
  induction passages with
  | nil => exact fun b hmem => absurd hmem List.not_mem_nil
  | cons p rest ih =>
    have hrest : ∀ q ∈ rest, q.apart = true := fun q hmem => h q (List.mem_cons_of_mem p hmem)
    rw [blocks]
    split
    · exact List.forall_mem_cons.2 ⟨rfl, fun b hmem => absurd hmem List.not_mem_nil⟩
    · rename_i b later hcons
      have hb : b.first.apart = true :=
        apart_of_mem_blocks (fun q hq => hrest q (List.mem_of_mem_head? hq)) b (by simp [hcons])
      rw [if_pos hb, ← hcons]
      exact List.forall_mem_cons.2 ⟨rfl, ih hrest⟩

theorem apart_of_hidden {passages : List Passage}
    (hfirst : ∀ p ∈ passages.head?, p.apart = true)
    (h : ∀ b ∈ blocks passages, b.hidden = []) : ∀ p ∈ passages, p.apart = true := by
  intro p hmem
  rw [← flatMap_blocks passages, List.mem_flatMap] at hmem
  obtain ⟨b, hb, hp⟩ := hmem
  rw [h b hb, List.mem_singleton] at hp
  rw [hp]
  exact apart_of_mem_blocks hfirst b hb

section Results

variable {settings : Settings} {bs : List Block}

/-- A run over blocks of which each gives its first table has these tables. -/
theorem result_of_read
    (h : ∀ b ∈ bs, parseStatement settings.strictness b.statement = .ok b.first.table)
    (index : Nat) :
    (parseFrom settings index (bs.map Block.statement)).result = .ok (bs.map (·.first.table)) := by
  rw [parseFrom_eq_ok_iff]
  constructor
  · induction bs with
    | nil => rfl
    | cons b rest ih =>
      obtain ⟨hb, hrest⟩ := List.forall_mem_cons.1 h
      rw [List.map_cons, List.map_cons, List.filterMap_cons, hb, ← ih hrest]
      rfl
  · intro _ statement hmem
    obtain ⟨b, hb, rfl⟩ := List.mem_map.1 hmem
    exact ⟨_, h b hb⟩

/-- A strict reading has the tables of the blocks that hide nothing. -/
theorem filterMap_strict (h : ∀ b ∈ bs, b.Plain) :
    (bs.map Block.statement).filterMap
        (fun statement => (parseStatement .strict statement).toOption) =
      (bs.filter (·.hidden.isEmpty)).map (·.first.table) := by
  induction bs with
  | nil => rfl
  | cons b rest ih =>
    obtain ⟨-, halone, hhidden⟩ := (h b List.mem_cons_self).parseStatement_eq
    have hrest := ih fun other hmem => h other (List.mem_cons_of_mem b hmem)
    rw [List.map_cons, List.filterMap_cons]
    by_cases hnil : b.hidden = []
    · rw [halone hnil, hrest, List.filter_cons_of_pos (by simp [hnil])]
      rfl
    · obtain ⟨fault, hfault⟩ := hhidden hnil
      rw [hfault, hrest, List.filter_cons_of_neg (by simp [hnil])]
      rfl

/-- If a strict run may not skip anything and does not fail, no block hides anything. -/
theorem hidden_of_result (h : ∀ b ∈ bs, b.Plain) (hs : settings.strictness = .strict)
    (hfast : settings.failFast = true) {index : Nat} {tables : List Table}
    (hresult : (parseFrom settings index (bs.map Block.statement)).result = .ok tables) :
    ∀ b ∈ bs, b.hidden = [] := by
  intro b hb
  refine Decidable.byContradiction fun hne => ?_
  obtain ⟨fault, hfault⟩ := (h b hb).parseStatement_eq.2.2 hne
  obtain ⟨table, hok⟩ := (parseFrom_eq_ok_iff.1 hresult).2 hfast _ (List.mem_map_of_mem hb)
  rw [hs, hfault] at hok
  exact absurd hok (by simp)

end Results

/-- What is left of a script with comments between its statements. A lenient run loses the
statements with a comment in front. A strict one loses those with a comment in front or behind, or
fails if it may not skip anything. All are read exactly if nothing but white space stands between
them. -/
theorem parseAll_scriptText {passages : List Passage} (h : ∀ p ∈ passages, p.Plain)
    (hfirst : ∀ p ∈ passages.head?, p.apart = true) (settings : Settings) :
    let result := (parseAll settings (splitStatements (String.ofList (scriptText passages)))).result
    (settings.lenient = true → result = .ok ((passages.filter (·.apart)).map (·.table))) ∧
      (settings.lenient = false → settings.failFast = false →
        result = .ok ((standAlone passages).map (·.table))) ∧
      (settings.lenient = false → settings.failFast = true → (∃ p ∈ passages, p.apart = false) →
        ∃ failure, result = .error failure) ∧
      (result = .ok (passages.map (·.table)) ↔ ∀ p ∈ passages, p.apart = true) := by
  intro result
  have hplain := plain_of_mem_blocks h hfirst
  have hresult : result =
      (parseFrom settings 0 ((blocks passages).map Block.statement)).result := by
    show (parseAll settings _).result = _
    rw [splitStatements_scriptText h hfirst]
    rfl
  have htables : (blocks passages).map (·.first.table) =
      (passages.filter (·.apart)).map (·.table) := by
    rw [← map_first_blocks hfirst, List.map_map]
    rfl
  have hstrictness : settings.lenient = false → settings.strictness = .strict := by
    intro hstrict
    simp [Settings.strictness, hstrict]
  rw [hresult]
  refine ⟨fun hlenient => ?_, fun hstrict hfast => ?_, fun hstrict hfast => ?_, fun hall => ?_,
    fun hall => ?_⟩
  · have hs : settings.strictness = .lenient := if_pos hlenient
    rw [← htables]
    refine result_of_read (fun b hb => ?_) 0
    rw [hs]
    exact (hplain b hb).parseStatement_eq.1
  · have hapart : (blocks passages).filter (fun b => b.first.apart && b.hidden.isEmpty) =
        (blocks passages).filter (·.hidden.isEmpty) :=
      List.filter_congr fun b hb => by rw [(hplain b hb).apart, Bool.true_and]
    rw [parseFrom_eq_ok_iff, hstrictness hstrict, filterMap_strict hplain,
      ← filter_hidden_blocks, hapart, List.map_map]
    exact ⟨rfl, fun hfast' => absurd hfast' (by simp [hfast])⟩
  · rintro ⟨p, hmem, hcomment⟩
    cases hrun : (parseFrom settings 0 ((blocks passages).map Block.statement)).result with
    | error failure => exact ⟨failure, rfl⟩
    | ok tables =>
      have hhidden := hidden_of_result hplain (hstrictness hstrict) hfast hrun
      rw [apart_of_hidden hfirst hhidden p hmem] at hcomment
      exact absurd hcomment (by simp)
  · -- There are at most as many tables as blocks, and a block begins with each passage set apart.
    have hle := List.length_filterMap_le
      (fun statement => (parseStatement settings.strictness statement).toOption)
      ((blocks passages).map Block.statement)
    have hblocks := congrArg List.length (map_first_blocks hfirst)
    rw [List.length_map] at hblocks
    rw [← (parseFrom_eq_ok_iff.1 hall).1, List.length_map, List.length_map, hblocks] at hle
    exact List.length_filter_eq_length_iff.1 (Nat.le_antisymm (List.length_filter_le _ _) hle)
  · rw [List.filter_eq_self.2 hall] at htables
    rw [← htables]
    refine result_of_read (fun b hb => ?_) 0
    obtain ⟨hlenient, halone, -⟩ := (hplain b hb).parseStatement_eq
    cases settings.strictness with
    | lenient => exact hlenient
    | strict => exact halone (hidden_of_apart hall b hb)

def commentedPassages : List Passage :=
  [⟨[], "CREATE TABLE a (x INT)", ⟨"a", [⟨"x", .int, none, none, none, false, none⟩], none⟩⟩,
    ⟨"--c\n".toList, "CREATE TABLE b (y INT)",
      ⟨"b", [⟨"y", .int, none, none, none, false, none⟩], none⟩⟩]

theorem plain_commentedPassages : ∀ p ∈ commentedPassages, p.Plain := by
  refine List.forall_mem_cons.2 ⟨?_, List.forall_mem_singleton.2 ?_⟩
  · exact {
      gap := .nil
      gap_semicolon := by decide
      semicolon := by decide +kernel
      dashes := by decide +kernel
      parses := eq_ok_of_toOption (by decide +kernel) }
  · exact {
      gap := @Gap.comment ['c'] ['\n'] _ (by decide) (by simp) (.blank (by decide) .nil)
      gap_semicolon := by decide
      semicolon := by decide +kernel
      dashes := by decide +kernel
      parses := eq_ok_of_toOption (by decide +kernel) }

/-- A lenient reading has the first table only, and a strict one has none. -/
theorem parseAll_commentedPassages :
    (∀ p ∈ commentedPassages, p.Plain) ∧
      (∀ p ∈ commentedPassages.head?, p.apart = true) ∧
      ∀ settings : Settings,
        let result := (parseAll settings
          (splitStatements (String.ofList (scriptText commentedPassages)))).result
        (settings.lenient = true → result =
          .ok [⟨"a", [⟨"x", .int, none, none, none, false, none⟩], none⟩]) ∧
        (settings.lenient = false → settings.failFast = false → result = .ok []) := by
  have hfirst : ∀ p ∈ commentedPassages.head?, p.apart = true := by decide
  refine ⟨plain_commentedPassages, hfirst, fun settings => ?_⟩
  obtain ⟨hlenient, hstrict, -⟩ := parseAll_scriptText plain_commentedPassages hfirst settings
  exact ⟨hlenient, hstrict⟩

/-- So comments between the statements of a script matter, and neither a strict reading nor a
lenient one passes over them. -/
theorem not_forall_parseAll_scriptText :
    ¬ ∃ lenient : Bool, ∀ passages : List Passage, (∀ p ∈ passages, p.Plain) →
      (∀ p ∈ passages.head?, p.gap = []) →
      (parseAll { lenient } (splitStatements (String.ofList (scriptText passages)))).result =
        .ok (passages.map (·.table)) := by
  rintro ⟨lenient, h⟩
  have hall := congrArg Except.toOption (h commentedPassages plain_commentedPassages (by decide))
  cases lenient with
  | false => exact absurd hall (by decide +kernel)
  | true => exact absurd hall (by decide +kernel)

end TableScribe
