import TableScribe.Fault
import TableScribe.Lexical.Pattern

/-!
# From text to tokens

`scan` reads a statement from left to right, one cut of the pattern table after the other. Where no
pattern matches, the text up to the next place where one does is a fault: it is not guessed at. The
fault reports that text without blanks at its end.
-/

namespace TableScribe

def byteLength (text : List Char) : Nat :=
  text.foldr (fun c length => c.utf8Size + length) 0

theorem byteLength_nil : byteLength [] = 0 := rfl

theorem byteLength_cons (c : Char) (rest : List Char) :
    byteLength (c :: rest) = c.utf8Size + byteLength rest := rfl

theorem byteLength_append (a b : List Char) :
    byteLength (a ++ b) = byteLength a + byteLength b := by
  induction a with
  | nil => rw [List.nil_append, byteLength_nil, Nat.zero_add]
  | cons c rest ih => rw [List.cons_append, byteLength_cons, byteLength_cons, ih, Nat.add_assoc]

/-- What the text begins with up to the first place where a pattern matches. -/
def unmatched (before : Option Char) : List Char → List Char
  | [] => []
  | c :: rest =>
    if (Pattern.firstCut? before (c :: rest)).isSome then [] else c :: unmatched (some c) rest

/-- The tokens of a text that follows the character `before` and starts at the byte `offset`. -/
def scanFrom (before : Option Char) (offset : Nat) (text : List Char) :
    Except Fault (List Token) :=
  match text with
  | [] => .ok []
  | c :: rest =>
    match _h : Pattern.firstCut? before (c :: rest) with
    | none =>
      let lexeme := Text.trimEnd (unmatched before (c :: rest))
      .error (.unrecognized (String.ofList lexeme) offset)
    | some cut =>
      let stop := offset + byteLength cut.found
      match scanFrom cut.found.getLast? stop cut.rest with
      | .error fault => .error fault
      | .ok tokens =>
        match cut.pattern.kind? with
        | none => .ok tokens
        | some kind => .ok (⟨kind, String.ofList cut.found, offset, stop⟩ :: tokens)
termination_by text.length
decreasing_by exact Pattern.length_rest_lt_of_firstCut? _h

/-- The tokens of a statement, in order; blanks and comments leave none. -/
def scan (statement : String) : Except Fault (List Token) :=
  scanFrom none 0 statement.toList

example : (scan "x not  null").toOption.map (·.map (·.kind)) = some [.name, .notNull] := by
  decide +kernel

end TableScribe
