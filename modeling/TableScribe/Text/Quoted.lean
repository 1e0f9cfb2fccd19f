import TableScribe.Text.Hidden

/-!
# Text shown in messages

A piece of a statement is shown between double quotes, on one line: the quote and the backslash
get a backslash, the usual controls their short escapes, and every hidden character its code point
in hexadecimal.
-/

namespace TableScribe.Text

/-- A character by its code point, in lower-case hexadecimal without padding. -/
def codePointEscape (c : Char) : List Char :=
  '\\' :: 'u' :: '\x7b' :: (Nat.toDigits 16 c.toNat ++ ['\x7d'])

/-- A character as it stands between the quotes. -/
def shown (c : Char) : List Char :=
  match c with
  | '\x00' => ['\\', '0']
  | '\t' => ['\\', 't']
  | '\r' => ['\\', 'r']
  | '\n' => ['\\', 'n']
  | '"' => ['\\', '"']
  | '\\' => ['\\', '\\']
  | c => if isHidden c then codePointEscape c else [c]

/-- The text between double quotes, every character as `shown` writes it. -/
def quoted (text : String) : String :=
  String.ofList ('"' :: (text.toList.flatMap shown ++ ['"']))

example : quoted "a\tb\"" = "\"a\\tb\\\"\"" := by decide +kernel

end TableScribe.Text
