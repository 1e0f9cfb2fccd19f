/-!
# Joining and splitting

`join` puts a separator between texts; `splitOn` cuts a text at the occurrences of a separator, read
from the left and never overlapping; `lines` cuts at line feeds.
-/

namespace TableScribe.Text

/-- The texts in order, with the separator between neighbours. -/
def join (separator : String) : List String → String
  | [] => ""
  | [text] => text
  | text :: more => text ++ separator ++ join separator more

theorem join_nil (separator : String) : join separator [] = "" := rfl

theorem join_singleton (separator text : String) : join separator [text] = text := rfl

theorem join_cons_cons (separator text next : String) (more : List String) :
    join separator (text :: next :: more) = text ++ separator ++ join separator (next :: more) :=
  rfl

/-- The pieces of a text between occurrences of the separator, after `skip` more characters of the
occurrence just found. -/
def splitAfter (separator : List Char) : Nat → List Char → List (List Char)
  | _, [] => [[]]
  | skip + 1, _ :: rest => splitAfter separator skip rest
  | 0, c :: rest =>
    if separator.isPrefixOf (c :: rest) then
      [] :: splitAfter separator (separator.length - 1) rest
    else
      match splitAfter separator 0 rest with
      | [] => [[c]]
      | piece :: pieces => (c :: piece) :: pieces

/-- The pieces of a text between occurrences of the separator. -/
def splitOn (separator text : List Char) : List (List Char) :=
  splitAfter separator 0 text

/-- A separator that is a single character cuts like the one of the list library. -/
theorem splitOn_singleton (separator : Char) (text : List Char) :
    splitOn [separator] text = text.splitOn separator := by
  induction text with
  | nil => rfl
  | cons c rest ih =>
    have hrest : splitAfter [separator] 0 rest = rest.splitOn separator := ih
    unfold splitOn
    rw [splitAfter, List.splitOn_cons_eq_if_modifyHead, hrest]
    by_cases hc : c = separator
    · rw [if_pos (by simp [hc]), if_pos (by simp [hc])]
      exact congrArg _ hrest
    · rw [if_neg (by simp [Ne.symm hc]), if_neg (by simp [hc])]
      obtain ⟨piece, pieces, hpieces⟩ :=
        List.exists_cons_of_ne_nil (List.splitOn_ne_nil separator rest)
      rw [hpieces]
      rfl

/-- A line without the carriage return it may end with. -/
def dropReturn (line : List Char) : List Char :=
  if line.getLast? = some '\r' then line.dropLast else line

/-- The lines of a text. A line ends at a line feed and keeps neither it nor one carriage return
before it; what follows the last line feed is a line unless it is empty. -/
def lines (text : List Char) : List (List Char) :=
  let pieces := splitOn ['\n'] text
  pieces.dropLast.map dropReturn ++ (pieces.getLast?.toList.filter (!·.isEmpty))

example : lines ['a', '\r', '\n', '\n', 'b'] = [['a'], [], ['b']] := by decide

end TableScribe.Text
