import TableScribe.Proofs.Lexical.Cuts

/-!
# Where the tokens of a text lie

A text consists of its tokens and of what lies between them, white space and comments.

1. `IsSlice text start stop part`: the bytes from `start` up to `stop` of the text are `part`.
2. `Gap gap rest`: in front of `rest` there are only white-space characters and comments, and each
   comment goes on up to a line break or to the end.
3. `Laid offset text tokens rest`: gaps and tokens by turns make up the text from the byte `offset`
   down to `rest`, and each token says where it lies.

`laid_of_cuts` brings the cuts of a scan into this form, where blanks and comments that follow each
other become one gap. From it, `scan_lossless` states what a scan does to a text: `Covers` where it
succeeds, `StopsAt` where it fails.
-/

namespace TableScribe

open Matcher Pattern

/-! ## Bytes and characters -/

/-- The text between the bytes `start` and `stop` is `part`; both lie between characters. -/
def IsSlice (text : String) (start stop : Nat) (part : String) : Prop :=
  ∃ first last : text.Pos, first.offset.byteIdx = start ∧ last.offset.byteIdx = stop ∧
    text.extract first last = part

theorem byteLength_eq_utf8ByteSize (text : List Char) :
    byteLength text = (String.ofList text).utf8ByteSize := by
  induction text with
  | nil => rfl
  | cons c rest ih =>
    have hcons : String.ofList (c :: rest) = String.singleton c ++ String.ofList rest := by
      rw [← String.toList_inj, String.toList_append, String.toList_ofList, String.toList_ofList,
        String.toList_singleton]
      rfl
    rw [byteLength_cons, ih, hcons, String.utf8ByteSize_append, String.utf8ByteSize_singleton]

theorem byteLength_toList (text : String) : byteLength text.toList = text.utf8ByteSize := by
  rw [byteLength_eq_utf8ByteSize, String.ofList_toList]

theorem byteLength_pos {text : List Char} (h : text ≠ []) : 0 < byteLength text := by
  obtain ⟨c, rest, rfl⟩ := List.exists_cons_of_ne_nil h
  rw [byteLength_cons]
  have hc := c.utf8Size_pos
  omega

theorem isSlice_append (front part back : String) :
    IsSlice (front ++ part ++ back) front.utf8ByteSize (front ++ part).utf8ByteSize part := by
  have hfirst : String.Pos.Raw.IsValid (front ++ part ++ back) front.rawEndPos :=
    String.Pos.Raw.isValid_iff_exists_append.2 ⟨front, part ++ back, String.append_assoc, rfl⟩
  have hlast : String.Pos.Raw.IsValid (front ++ part ++ back) (front ++ part).rawEndPos :=
    String.Pos.Raw.isValid_iff_exists_append.2 ⟨front ++ part, back, rfl, rfl⟩
  refine ⟨⟨_, hfirst⟩, ⟨_, hlast⟩, rfl, rfl, ?_⟩
  have hbytes : (front.toByteArray ++ (part.toByteArray ++ back.toByteArray)).extract
      (front.toByteArray.size + 0) (front.toByteArray.size + part.toByteArray.size) =
        part.toByteArray := by
    rw [ByteArray.extract_append_size_add, ByteArray.extract_append_eq_left rfl]
  rw [← String.toByteArray_inj, String.toByteArray_extract, String.toByteArray_append,
    String.toByteArray_append, ByteArray.append_assoc]
  show ByteArray.extract _ front.utf8ByteSize (front ++ part).utf8ByteSize = _
  rw [String.utf8ByteSize_append]
  exact hbytes

/-- What stands somewhere in a text is a slice of it. -/
theorem isSlice_of_toList {text part : String} {front back : List Char}
    (h : text.toList = front ++ (part.toList ++ back)) :
    IsSlice text (byteLength front) (byteLength front + byteLength part.toList) part := by
  have htext : text = String.ofList front ++ part ++ String.ofList back := by
    rw [← String.toList_inj, h]
    simp
  rw [htext, byteLength_toList, byteLength_eq_utf8ByteSize, ← String.utf8ByteSize_append]
  exact isSlice_append _ part _

/-! ## Gaps -/

/-- White-space characters and comments in front of `rest`. A comment begins with two minus signs
and goes on up to a line break or to the end of the text. -/
inductive Gap : List Char → List Char → Prop
  | nil {rest : List Char} : Gap [] rest
  | blank {c : Char} {gap rest : List Char} (hc : Text.isBlank c = true) (hg : Gap gap rest) :
      Gap (c :: gap) rest
  | comment {body gap rest : List Char} (hb : '\n' ∉ body) (hs : ∀ c ∈ (gap ++ rest).head?, c = '\n')
      (hg : Gap gap rest) : Gap ('-' :: '-' :: (body ++ gap)) rest

theorem Gap.blanks_append {blanks gap rest : List Char} (h : ∀ c ∈ blanks, Text.isBlank c = true)
    (hg : Gap gap rest) : Gap (blanks ++ gap) rest := by
  induction blanks with
  | nil => exact hg
  | cons c blanks ih =>
    exact .blank (h c List.mem_cons_self) (ih fun b hb => h b (List.mem_cons_of_mem c hb))

/-- What blanks and comments cut off goes into the gap in front of the next token. -/
theorem Gap.cut_append {before : Option Char} {text gap rest : List Char} {cut : Cut}
    (h : firstCut? before text = some cut) (hk : cut.pattern.kind? = none)
    (hrest : cut.rest = gap ++ rest) (hg : Gap gap rest) : Gap (cut.found ++ gap) rest := by
  have hm := (matcher_of_firstCut? h).2
  cases hp : cut.pattern with
  | blanks =>
    rw [hp] at hm
    exact hg.blanks_append (some1_eq_some_iff.1 hm).2.2.1
  | comment =>
    rw [hp] at hm
    obtain ⟨-, body, hfound, hbody, hstop⟩ := comment_matches_iff.1 hm
    rw [hfound]
    exact .comment hbody (hrest ▸ hstop) hg
  | _ =>
    rw [hp] at hk
    exact absurd hk (by simp [kind?])

/-! ## Gaps and tokens by turns -/

/-- From the byte `offset` on, the text consists of gaps and of the tokens between them, down to
`rest`. -/
inductive Laid : Nat → List Char → List Token → List Char → Prop
  | gap {offset : Nat} {gap rest : List Char} (hg : Gap gap rest) :
      Laid offset (gap ++ rest) [] rest
  | token {offset : Nat} {gap text rest : List Char} {token : Token} {tokens : List Token}
      (hg : Gap gap (token.lexeme.toList ++ text)) (hne : token.lexeme ≠ "")
      (hstart : token.start = offset + byteLength gap)
      (hstop : token.stop = token.start + byteLength token.lexeme.toList)
      (ht : Laid token.stop text tokens rest) :
      Laid offset (gap ++ (token.lexeme.toList ++ text)) (token :: tokens) rest

/-- Blanks and comments in front of a text leave its tokens where they are. -/
theorem Laid.skip {before : Option Char} {offset : Nat} {text rest : List Char} {cut : Cut}
    {tokens : List Token} (h : firstCut? before text = some cut) (hk : cut.pattern.kind? = none)
    (hl : Laid (offset + byteLength cut.found) cut.rest tokens rest) :
    Laid offset text tokens rest := by
  rw [← found_append_rest h]
  generalize hrest : cut.rest = later at hl ⊢
  cases hl with
  | gap hg =>
    rw [← List.append_assoc]
    exact .gap (hg.cut_append h hk hrest)
  | token hg hne hstart hstop ht =>
    rw [← List.append_assoc]
    refine .token (hg.cut_append h hk hrest) hne ?_ hstop ht
    rw [hstart, byteLength_append, Nat.add_assoc]

/-- A token that stands right at the beginning. -/
theorem Laid.cons {offset : Nat} {text rest : List Char} {token : Token} {tokens : List Token}
    (hne : token.lexeme ≠ "") (hstart : token.start = offset)
    (hstop : token.stop = token.start + byteLength token.lexeme.toList)
    (hl : Laid token.stop text tokens rest) :
    Laid offset (token.lexeme.toList ++ text) (token :: tokens) rest :=
  .token .nil hne hstart hstop hl

/-- Successive cuts lay out their tokens. -/
theorem laid_of_cuts {before : Option Char} {text rest : List Char} {cuts : List Cut}
    (h : Cuts before text cuts rest) (offset : Nat) :
    Laid offset text (tokensOf offset cuts) rest := by
  induction h generalizing offset with
  | nil => exact .gap .nil
  | @cons before text rest cut cuts hcut _ ih =>
    have hlater := ih (offset + byteLength cut.found)
    rw [tokensOf, Cut.tokens]
    cases hk : cut.pattern.kind? with
    | none => exact hlater.skip hcut hk
    | some kind =>
      rw [← found_append_rest hcut]
      generalize hlexeme : String.ofList cut.found = lexeme
      have hfound : cut.found = lexeme.toList := by
        rw [← hlexeme, String.toList_ofList]
      rw [hfound] at hlater ⊢
      have hne : lexeme ≠ "" := by
        rintro rfl
        exact consumes_matcher before _ (matcher_of_firstCut? hcut).2 hfound
      let token : Token := ⟨kind, lexeme, offset, offset + byteLength lexeme.toList⟩
      exact @Laid.cons offset cut.rest rest token _ hne rfl rfl hlater

/-! ## What the layout says of single tokens -/

/-- Each token lies where it says. -/
theorem Laid.exists_append {offset : Nat} {text rest : List Char} {tokens : List Token}
    (h : Laid offset text tokens rest) :
    ∀ token ∈ tokens, token.lexeme ≠ "" ∧ ∃ front back,
      text = front ++ (token.lexeme.toList ++ back) ∧ token.start = offset + byteLength front ∧
        token.stop = token.start + byteLength token.lexeme.toList := by
  induction h with
  | gap => exact fun token hmem => absurd hmem (by simp)
  | @token offset gap text rest first tokens hg hne hstart hstop _ ih =>
    intro token hmem
    rcases List.mem_cons.1 hmem with rfl | hmem
    · exact ⟨hne, gap, text, rfl, hstart, hstop⟩
    · obtain ⟨hne, front, back, rfl, hstart', hstop'⟩ := ih token hmem
      refine ⟨hne, gap ++ (first.lexeme.toList ++ front), back, by simp, ?_, hstop'⟩
      rw [hstart', hstop, hstart, byteLength_append, byteLength_append]
      omega

/-- No token begins before the one in front of it has ended. -/
theorem Laid.pairwise {offset : Nat} {text rest : List Char} {tokens : List Token}
    (h : Laid offset text tokens rest) :
    tokens.Pairwise (fun one other => one.stop ≤ other.start) := by
  induction h with
  | gap => exact .nil
  | token hg hne hstart hstop ht ih =>
    refine .cons (fun other hmem => ?_) ih
    obtain ⟨-, front, -, -, hother, -⟩ := ht.exists_append other hmem
    omega

/-- Behind the last token there is only a gap. -/
theorem Laid.gap_of_getLast? {offset : Nat} {text rest : List Char} {tokens : List Token}
    {last : Token} (h : Laid offset text tokens rest) (hl : tokens.getLast? = some last) :
    ∃ front gap, text = front ++ (gap ++ rest) ∧ last.stop = offset + byteLength front ∧
      Gap gap rest := by
  induction h with
  | gap => exact absurd hl (by simp)
  | @token offset gap text rest token tokens hg hne hstart hstop ht ih =>
    cases tokens with
    | nil =>
      rw [List.getLast?_singleton, Option.some.injEq] at hl
      subst hl
      cases ht with
      | gap hlast =>
        refine ⟨gap ++ token.lexeme.toList, _, by simp, ?_, hlast⟩
        rw [hstop, hstart, byteLength_append, Nat.add_assoc]
    | cons next tokens =>
      rw [List.getLast?_cons_cons] at hl
      obtain ⟨front, later, rfl, hlast, hgap⟩ := ih hl
      refine ⟨gap ++ (token.lexeme.toList ++ front), later, by simp, ?_, hgap⟩
      rw [hlast, hstop, hstart, byteLength_append, byteLength_append]
      omega

theorem Laid.slice {statement : String} {rest : List Char} {tokens : List Token}
    (h : Laid 0 statement.toList tokens rest) :
    ∀ token ∈ tokens, token.start < token.stop ∧
      IsSlice statement token.start token.stop token.lexeme := by
  intro token hmem
  obtain ⟨hne, front, back, htext, hstart, hstop⟩ := h.exists_append token hmem
  have hlexeme : token.lexeme.toList ≠ [] := fun hnil => hne (String.toList_eq_nil_iff.1 hnil)
  have hpos := byteLength_pos hlexeme
  rw [Nat.zero_add] at hstart
  refine ⟨by omega, ?_⟩
  rw [hstop, hstart]
  exact isSlice_of_toList htext

/-- The text `part`, which is not empty, stands at the byte `position`. -/
def Stands (statement : String) (position : Nat) (part : String) : Prop :=
  part ≠ "" ∧ ∃ stop, IsSlice statement position stop part

/-- From the byte `position` on, there are only white space and comments. -/
def EndsAt (statement : String) (position : Nat) : Prop :=
  ∃ front gap, statement.toList = front ++ gap ∧ byteLength front = position ∧ Gap gap []

theorem Laid.stands {statement : String} {rest : List Char} {tokens : List Token}
    (h : Laid 0 statement.toList tokens rest) :
    ∀ token ∈ tokens, Stands statement token.start token.lexeme := by
  intro token hmem
  obtain ⟨hne, -⟩ := h.exists_append token hmem
  exact ⟨hne, token.stop, (h.slice token hmem).2⟩

theorem Laid.endsAt {statement : String} {tokens : List Token}
    (h : Laid 0 statement.toList tokens []) :
    ∀ last ∈ tokens.getLast?, EndsAt statement last.stop := by
  intro last hlast
  obtain ⟨front, gap, htext, hstop, hgap⟩ := h.gap_of_getLast? hlast
  rw [List.append_nil] at htext
  rw [Nat.zero_add] at hstop
  exact ⟨front, gap, htext, hstop.symm, hgap⟩

/-! ## What a scan does to a text -/

/-- The tokens are those of the cuts that the pattern table makes of the statement. They lie in it one
after the other, each where it says, and all else is white space and comments. -/
structure Covers (statement : String) (tokens : List Token) : Prop where
  cut : ∃ cuts, Cuts none statement.toList cuts [] ∧ tokens = tokensOf 0 cuts
  slice : ∀ token ∈ tokens, token.start < token.stop ∧
    IsSlice statement token.start token.stop token.lexeme
  pairwise : tokens.Pairwise (fun one other => one.stop ≤ other.start)
  laid : Laid 0 statement.toList tokens []

theorem covers_of_scan {statement : String} {tokens : List Token}
    (h : scan statement = .ok tokens) : Covers statement tokens := by
  obtain ⟨cuts, hcuts, rfl⟩ := cuts_of_scan h
  have hlaid := laid_of_cuts hcuts 0
  exact ⟨⟨cuts, hcuts, rfl⟩, hlaid.slice, hlaid.pairwise, hlaid⟩

/-- The cuts of the statement `front ++ (lexeme ++ back)` take `front` off, and nothing matches the
lexeme. -/
structure StopsAt (statement : String) (cuts : List Cut) (front lexeme back : List Char) : Prop where
  text : statement.toList = front ++ (lexeme ++ back)
  cut : Cuts none statement.toList cuts (lexeme ++ back)
  laid : Laid 0 statement.toList (tokensOf 0 cuts) (lexeme ++ back)
  unmatched : Unmatched front lexeme back

/-- A scan fails at the first text that nothing matches, and reports it and the byte where it
begins. -/
theorem stopsAt_of_scan {statement : String} {fault : Fault} (h : scan statement = .error fault) :
    ∃ lexeme cuts front back, fault = .unrecognized lexeme (byteLength front) ∧
      StopsAt statement cuts front lexeme.toList back := by
  rcases exists_cuts_of_scan statement with
    ⟨cuts, -, hscan⟩ | ⟨cuts, lexeme, back, hcuts, hunmatched, hscan⟩
  · rw [h] at hscan
    exact absurd hscan (by simp)
  · rw [h, Except.error.injEq] at hscan
    refine ⟨String.ofList lexeme, cuts, cutOff cuts, back, hscan, ?_⟩
    rw [String.toList_ofList]
    exact ⟨hcuts.cutOff_append, hcuts, laid_of_cuts hcuts 0, hunmatched⟩

theorem StopsAt.slice {statement lexeme : String} {cuts : List Cut} {front back : List Char}
    (h : StopsAt statement cuts front lexeme.toList back) :
    lexeme ≠ "" ∧ IsSlice statement (byteLength front)
      (byteLength front + lexeme.utf8ByteSize) lexeme := by
  refine ⟨?_, ?_⟩
  · rintro rfl
    exact h.unmatched.ne_nil rfl
  · rw [← byteLength_toList]
    exact isSlice_of_toList h.text

/-- A scan either covers the statement with tokens, or it stops, after successive cuts that lay out
tokens in the same way, at the first text that nothing matches. The fault reports this text, from
its first byte up to the next place where a pattern matches or to the end. -/
theorem scan_lossless (statement : String) :
    (∃ tokens, scan statement = .ok tokens ∧ Covers statement tokens) ∨
      ∃ lexeme position, scan statement = .error (.unrecognized lexeme position) ∧
        lexeme ≠ "" ∧ IsSlice statement position (position + lexeme.utf8ByteSize) lexeme ∧
        ∃ cuts front back, byteLength front = position ∧
          StopsAt statement cuts front lexeme.toList back := by
  cases hscan : scan statement with
  | ok tokens => exact .inl ⟨tokens, rfl, covers_of_scan hscan⟩
  | error fault =>
    obtain ⟨lexeme, cuts, front, back, rfl, hstops⟩ := stopsAt_of_scan hscan
    obtain ⟨hne, hslice⟩ := hstops.slice
    exact .inr ⟨lexeme, byteLength front, rfl, hne, hslice, cuts, front, back, rfl, hstops⟩

end TableScribe
