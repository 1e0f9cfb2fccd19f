import TableScribe.Proofs.Script.Statements

/-!
# Statements that share a piece

A script may have comments between its statements. One of them keeps the script from being cut
there, because behind the semicolon it stands in the way of `CREATE TABLE`; then the statement
behind it stays in the piece of the one before.

1. `Passage` is a statement with what separates it from the one before; `scriptText` puts passages
   together.
2. `blocks` groups passages that share a piece: the first, which only white space separates from
   what is before, and those that comments hide.
3. `splitStatements_scriptText`: the statements of the script are those of the blocks.
-/

namespace TableScribe

open Matcher Pattern

/-! ## Passages -/

/-- A statement of a script, with what stands between it and the semicolon before it, and the table
that it defines. -/
structure Passage where
  gap : List Char
  statement : String
  table : Table
  deriving DecidableEq, Repr

namespace Passage

/-- A statement without semicolons and comments that a strict reading accepts, behind white space
and comments. -/
structure Plain (p : Passage) : Prop where
  gap : Gap p.gap p.statement.toList
  gap_semicolon : ';' ∉ p.gap
  semicolon : ';' ∉ p.statement.toList
  dashes : ¬ ['-', '-'] <:+: p.statement.toList
  parses : parseStatement .strict p.statement = .ok p.table

/-- Whether there is no comment in front of the statement. -/
def apart (p : Passage) : Bool :=
  p.gap.all Text.isBlank

theorem Plain.exists_cuts {p : Passage} (h : p.Plain) :
    ∃ cuts, Cuts none p.statement.toList cuts [] ∧
      parseTokens .strict (tokensOf 0 cuts) = .ok p.table := by
  have hparses := h.parses
  unfold parseStatement at hparses
  split at hparses
  · exact absurd hparses (by simp)
  · rename_i tokens hscan
    obtain ⟨cuts, hcuts, rfl⟩ := cuts_of_scan hscan
    exact ⟨cuts, hcuts, hparses⟩

theorem Plain.opens {p : Passage} (h : p.Plain) : Opens p.statement.toList := by
  obtain ⟨cuts, hcuts, hparse⟩ := h.exists_cuts
  exact opens_of_strict hcuts h.dashes hparse

end Passage

/-- The text of the passages, with a semicolon behind every statement. -/
def scriptText : List Passage → List Char
  | [] => []
  | p :: rest => p.gap ++ (p.statement.toList ++ ';' :: scriptText rest)

/-! ## Gaps -/

theorem Gap.congr {gap rest other : List Char} (h : Gap gap rest)
    (hhead : other.head? = rest.head?) : Gap gap other := by
  induction h with
  | nil => exact .nil
  | blank hc _ ih => exact .blank hc (ih hhead)
  | @comment body gap rest hbody hstop _ ih =>
    refine .comment hbody ?_ (ih hhead)
    cases gap with
    | nil =>
      rw [List.nil_append] at hstop ⊢
      rwa [hhead]
    | cons c gap => exact hstop

/-- A gap with a comment goes on from blanks to a minus sign. -/
theorem Gap.exists_dash {gap rest : List Char} (h : Gap gap rest)
    (hcomment : gap.all Text.isBlank = false) :
    ∃ blanks more, gap = blanks ++ '-' :: more ∧ ∀ c ∈ blanks, Text.isBlank c = true := by
  induction h with
  | nil => exact absurd hcomment (by simp)
  | @blank c gap rest hc _ ih =>
    rw [List.all_cons, hc, Bool.true_and] at hcomment
    obtain ⟨blanks, more, rfl, hblanks⟩ := ih hcomment
    exact ⟨c :: blanks, more, rfl, List.forall_mem_cons.2 ⟨hc, hblanks⟩⟩
  | comment => exact ⟨[], _, rfl, by simp⟩

/-- A script is cut in front of a statement exactly if no comment stands there. -/
theorem Passage.Plain.opens_iff {p : Passage} (h : p.Plain) (later : List Char) :
    Opens (p.gap ++ (p.statement.toList ++ ';' :: later)) ↔ p.apart = true := by
  constructor
  · intro hopens
    rw [← Bool.not_eq_false]
    intro hcomment
    obtain ⟨blanks, more, hgap, hblanks⟩ := h.gap.exists_dash hcomment
    rw [hgap, List.append_assoc] at hopens
    exact not_opens_of_no_word hblanks (by decide) (by decide) hopens
  · intro hapart
    exact (opens_append_semicolon_iff.2 h.opens).blanks_append (List.all_eq_true.1 hapart)

/-! ## Blocks -/

/-- A passage and those behind it that share its piece. -/
structure Block where
  first : Passage
  hidden : List Passage
  deriving DecidableEq, Repr

/-- The passages in blocks: one with a comment in front of it joins the one before. -/
def blocks : List Passage → List Block
  | [] => []
  | p :: rest =>
    match blocks rest with
    | [] => [⟨p, []⟩]
    | b :: later =>
      if b.first.apart then ⟨p, []⟩ :: b :: later else ⟨p, b.first :: b.hidden⟩ :: later

theorem blocks_cons (p : Passage) (rest : List Passage) :
    ∃ hidden later, blocks (p :: rest) = ⟨p, hidden⟩ :: later := by
  rw [blocks]
  split
  · exact ⟨[], [], rfl⟩
  · split
    · exact ⟨[], _, rfl⟩
    · exact ⟨_, _, rfl⟩

/-- No passage is lost. -/
theorem flatMap_blocks (passages : List Passage) :
    (blocks passages).flatMap (fun b => b.first :: b.hidden) = passages := by
  induction passages with
  | nil => rfl
  | cons p rest ih =>
    rw [blocks]
    split
    · rename_i hnil
      rw [hnil] at ih
      rw [← ih]
      rfl
    · rename_i b later hcons
      rw [hcons, List.flatMap_cons] at ih
      split
      · rw [← ih]
        simp
      · rw [← ih]
        simp

/-- Only white space stands in front of a block, the first one perhaps apart. -/
theorem apart_of_mem_tail (passages : List Passage) :
    ∀ b ∈ (blocks passages).tail, b.first.apart = true := by
  induction passages with
  | nil => exact fun b hmem => absurd hmem List.not_mem_nil
  | cons p rest ih =>
    rw [blocks]
    split
    · exact fun b hmem => absurd hmem List.not_mem_nil
    · rename_i b later hcons
      rw [hcons] at ih
      split
      · rename_i hapart
        exact List.forall_mem_cons.2 ⟨hapart, ih⟩
      · exact ih

theorem apart_of_mem_blocks {passages : List Passage}
    (h : ∀ p ∈ passages.head?, p.apart = true) : ∀ b ∈ blocks passages, b.first.apart = true := by
  cases passages with
  | nil => exact fun b hmem => absurd hmem List.not_mem_nil
  | cons p rest =>
    have htail := apart_of_mem_tail (p :: rest)
    obtain ⟨hidden, later, heq⟩ := blocks_cons p rest
    rw [heq] at htail ⊢
    exact List.forall_mem_cons.2 ⟨h p rfl, htail⟩

/-! ## Pieces of a script -/

/-- Passages behind a statement, with a semicolon in front of each. -/
def tailText : List Passage → List Char
  | [] => []
  | p :: rest => ';' :: (p.gap ++ (p.statement.toList ++ tailText rest))

def Block.text (b : Block) : List Char :=
  b.first.gap ++ (b.first.statement.toList ++ tailText b.hidden)

/-- The pieces of blocks: only the last keeps its last semicolon. -/
def pieceTexts : List Block → List (List Char)
  | [] => [[]]
  | [b] => [b.text ++ [';']]
  | b :: next :: more => b.text :: pieceTexts (next :: more)

theorem pieceTexts_cons (later : List Block) :
    ∃ suffix more, ∀ b, pieceTexts (b :: later) = (b.text ++ suffix) :: more := by
  cases later with
  | nil => exact ⟨[';'], [], fun _ => rfl⟩
  | cons next later =>
    refine ⟨[], pieceTexts (next :: later), fun b => ?_⟩
    rw [pieceTexts, List.append_nil]

/-- The pieces of a script are those of its blocks. -/
theorem pieces_scriptText {passages : List Passage} (h : ∀ p ∈ passages, p.Plain) :
    pieces (scriptText passages) = pieceTexts (blocks passages) := by
  induction passages with
  | nil => rfl
  | cons p rest ih =>
    have he := h p List.mem_cons_self
    have hrest : ∀ p ∈ rest, p.Plain := fun next hmem => h next (List.mem_cons_of_mem p hmem)
    have hfront : ';' ∉ p.gap ++ p.statement.toList := fun hmem =>
      (List.mem_append.1 hmem).elim he.gap_semicolon he.semicolon
    rw [scriptText, ← List.append_assoc]
    cases rest with
    | nil =>
      have hlast := pieces_semicolon_of_not_opens not_opens_nil (show pieces [] = [[]] from rfl)
      rw [scriptText, pieces_append hfront hlast]
      simp [blocks, pieceTexts, Block.text, tailText]
    | cons next rest =>
      have hpieces := ih hrest
      obtain ⟨hidden, later, hblocks⟩ := blocks_cons next rest
      obtain ⟨suffix, more, htexts⟩ := pieceTexts_cons later
      rw [hblocks, htexts] at hpieces
      have hopens : Opens (scriptText (next :: rest)) ↔ next.apart = true :=
        (hrest next List.mem_cons_self).opens_iff (scriptText rest)
      rw [blocks, hblocks]
      dsimp only
      split
      · rename_i hapart
        rw [pieces_append hfront (pieces_semicolon_of_opens (hopens.2 hapart)), hpieces,
          pieceTexts, htexts]
        simp [Block.text, tailText]
      · rename_i hcomment
        rw [pieces_append hfront
          (pieces_semicolon_of_not_opens (fun hop => hcomment (hopens.1 hop)) hpieces), htexts]
        simp [Block.text, tailText]

/-! ## Statements of a script -/

def Block.statement (b : Block) : String :=
  String.ofList (Text.trim b.text ++ [';'])

/-- All passages of the block are plain, and no comment stands in front of it. -/
structure Block.Plain (b : Block) : Prop where
  first : b.first.Plain
  hidden : ∀ p ∈ b.hidden, p.Plain
  apart : b.first.apart = true

theorem plain_of_mem_blocks {passages : List Passage} (h : ∀ p ∈ passages, p.Plain)
    (hfirst : ∀ p ∈ passages.head?, p.apart = true) : ∀ b ∈ blocks passages, b.Plain := by
  intro b hb
  have hmem : ∀ p ∈ b.first :: b.hidden, p.Plain := by
    intro p hp
    refine h p ?_
    rw [← flatMap_blocks passages]
    exact List.mem_flatMap.2 ⟨b, hb, hp⟩
  exact ⟨hmem _ List.mem_cons_self, fun p hp => hmem p (List.mem_cons_of_mem _ hp),
    apart_of_mem_blocks hfirst b hb⟩

theorem tailText_ends {hidden : List Passage} (hne : hidden ≠ []) :
    ∃ front, ∃ last ∈ hidden, tailText hidden = front ++ last.statement.toList := by
  induction hidden with
  | nil => exact absurd rfl hne
  | cons p rest ih =>
    by_cases hrest : rest = []
    · subst hrest
      refine ⟨';' :: p.gap, p, List.mem_cons_self, ?_⟩
      simp [tailText]
    · obtain ⟨front, last, hlast, htext⟩ := ih hrest
      refine ⟨';' :: (p.gap ++ (p.statement.toList ++ front)), last,
        List.mem_cons_of_mem p hlast, ?_⟩
      simp [tailText, htext]

theorem not_blank_trimStart {text : List Char} (h : ∃ c ∈ text, Text.isBlank c = false) :
    ∃ c ∈ Text.trimStart text, Text.isBlank c = false := by
  obtain ⟨c, hc, hblank⟩ := h
  obtain ⟨lead, htext, hlead, -⟩ := trimStart_spec text
  rw [htext] at hc
  refine ⟨c, (List.mem_append.1 hc).resolve_left fun hstart => ?_, hblank⟩
  rw [hlead c hstart] at hblank
  exact absurd hblank (by simp)

namespace Block

variable {b : Block}

theorem Plain.trimStart_text (h : b.Plain) :
    Text.trimStart b.text = Text.trimStart b.first.statement.toList ++ tailText b.hidden := by
  unfold Block.text Text.trimStart
  rw [List.dropWhile_append_of_pos (List.all_eq_true.1 h.apart),
    dropWhile_append_of_mem h.first.opens.not_blank]

/-- Without its blanks at the front, the text of a block ends with a statement. -/
theorem Plain.exists_end (h : b.Plain) :
    ∃ front back, Text.trimStart b.text = front ++ back ∧ (∃ c ∈ back, Text.isBlank c = false) ∧
      ';' ∉ back := by
  rw [h.trimStart_text]
  by_cases hnil : b.hidden = []
  · rw [hnil]
    refine ⟨[], _, List.append_nil _, not_blank_trimStart h.first.opens.not_blank, fun hmem => ?_⟩
    exact h.first.semicolon ((List.dropWhile_sublist Text.isBlank).subset hmem)
  · obtain ⟨front, last, hlast, htext⟩ := tailText_ends hnil
    have hplain := h.hidden last hlast
    rw [htext, ← List.append_assoc]
    exact ⟨_, _, rfl, hplain.opens.not_blank, hplain.semicolon⟩

theorem Plain.trim_ne_nil (h : b.Plain) : Text.trim b.text ≠ [] := by
  obtain ⟨front, back, htext, ⟨c, hc, hblank⟩, -⟩ := h.exists_end
  refine dropEndWhile_ne_nil ⟨c, ?_, hblank⟩
  rw [htext]
  exact List.mem_append_right front hc

end Block

theorem tidy_pieceTexts {bs : List Block} (h : ∀ b ∈ bs, b.Plain) :
    ((pieceTexts bs).map tidy).filter (· ≠ []) = bs.map fun b => Text.trim b.text := by
  induction bs using pieceTexts.induct with
  | case1 => rfl
  | case2 b =>
    have hb := h b List.mem_cons_self
    obtain ⟨front, back, htext, hback, hno⟩ := hb.exists_end
    rw [pieceTexts, List.map_singleton, (tidy_eq_trim htext hback hno).2]
    simp [hb.trim_ne_nil]
  | case3 b next more ih =>
    have hb := h b List.mem_cons_self
    obtain ⟨front, back, htext, hback, hno⟩ := hb.exists_end
    have hmore := ih fun other hmem => h other (List.mem_cons_of_mem b hmem)
    rw [pieceTexts, List.map_cons, (tidy_eq_trim htext hback hno).1,
      List.filter_cons_of_pos (by simp [hb.trim_ne_nil]), hmore]
    rfl

/-- The statements of a script are those of its blocks. -/
theorem splitStatements_scriptText {passages : List Passage} (h : ∀ p ∈ passages, p.Plain)
    (hfirst : ∀ p ∈ passages.head?, p.apart = true) :
    splitStatements (String.ofList (scriptText passages)) =
      (blocks passages).map Block.statement := by
  unfold splitStatements
  rw [String.toList_ofList, pieces_scriptText h, tidy_pieceTexts (plain_of_mem_blocks h hfirst),
    List.map_map]
  rfl

end TableScribe
