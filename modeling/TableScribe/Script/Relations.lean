import TableScribe.Text.Blank
import TableScribe.Text.Pieces

/-!
# Which table extends which

A relations file has one relation to a line, `child extends parent`. A line that is not exactly
that is passed over. A child keeps the place of its first line and the parent of its last.
-/

namespace TableScribe

/-- One table extends another. -/
structure Relation where
  child : String
  parent : String
  deriving DecidableEq, Repr

def Relation.ofLine? (line : List Char) : Option Relation :=
  match Text.splitOn " extends ".toList (Text.trim line) with
  | [child, parent] => some ⟨String.ofList child, String.ofList parent⟩
  | _ => none

/-- The relations with one more: a known child gets the new parent where it stands. -/
def putRelation (relation : Relation) : List Relation → List Relation
  | [] => [relation]
  | first :: rest =>
    if first.child = relation.child then relation :: rest
    else first :: putRelation relation rest

def relationsOf (text : String) : List Relation :=
  ((Text.lines text.toList).filterMap Relation.ofLine?).foldl
    (fun relations relation => putRelation relation relations) []

example : relationsOf "a extends b\nc extends b\na extends d" = [⟨"a", "d"⟩, ⟨"c", "b"⟩] := by
  decide +kernel

end TableScribe
