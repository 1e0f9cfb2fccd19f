/-!
# String literals

A text becomes a literal by putting a backslash before every backslash and every delimiter, and the
delimiter at both ends. Nothing else is escaped.
-/

namespace TableScribe.Code

/-- A character inside a literal with the given delimiter. -/
def escaped (delimiter c : Char) : List Char :=
  if c = '\\' ∨ c = delimiter then ['\\', c] else [c]

/-- The literal that stands for a text. -/
def literal (delimiter : Char) (text : String) : String :=
  String.ofList (delimiter :: (text.toList.flatMap (escaped delimiter) ++ [delimiter]))

def singleQuoted (text : String) : String :=
  literal '\x27' text

def doubleQuoted (text : String) : String :=
  literal '"' text

theorem toList_literal (delimiter : Char) (text : String) :
    (literal delimiter text).toList =
      delimiter :: (text.toList.flatMap (escaped delimiter) ++ [delimiter]) := by
  simp [literal]

example : singleQuoted "it\x27s" = "\x27it\\\x27s\x27" := by
  decide +kernel

end TableScribe.Code
