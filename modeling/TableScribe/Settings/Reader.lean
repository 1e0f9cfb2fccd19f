import TableScribe.Settings.Document
import TableScribe.Settings.Scalar

/-!
# Reading a settings document

The document is written in TOML: lines of `key = value` under headers in brackets. `readDocument`
answers with the entries, or with `none` where the text is not well formed or contradicts itself.

A reader of a part answers with what it read and the rest of the text. Texts are read by recursion
on their characters; lists and tables in braces, which nest, by recursion on a bound for the depth.
Inside a list or a table in braces, lines may end between any two words, though not inside a dotted
key. There are limits to how many parts a key has and to how deep values nest.
-/

namespace TableScribe.Reader

/-- What was read, and the rest of the text. -/
abbrev Part (α : Type) := Option (α × List Char)

/-! ## Blanks, comments and line ends -/

def isSpace (c : Char) : Bool :=
  c = ' ' || c = '\t'

def skipSpaces (text : List Char) : List Char :=
  text.dropWhile isSpace

/-- A character that may stand in a comment or, if it is no delimiter, in a string. -/
def isPrintable (c : Char) : Bool :=
  c = '\t' || (32 ≤ c.toNat && c.toNat ≠ 127)

def skipComment : List Char → List Char
  | '#' :: rest => rest.dropWhile isPrintable
  | text => text

def lineBreak? : List Char → Option (List Char)
  | '\n' :: rest => some rest
  | '\r' :: '\n' :: rest => some rest
  | _ => none

/-- The text after the end of a line: blanks, perhaps a comment, and a line break or the end. -/
def endOfLine? (text : List Char) : Option (List Char) :=
  match skipComment (skipSpaces text) with
  | [] => some []
  | rest => lineBreak? rest

/-- The text after blanks, comments and as many line breaks as `depth` allows. -/
def skipLinesWithin : (depth : Nat) → List Char → List Char
  | 0, text => text
  | depth + 1, text =>
    let text := skipComment (skipSpaces text)
    match lineBreak? text with
    | none => text
    | some rest => skipLinesWithin depth rest

/-- The text after all blanks, comments and line breaks. -/
def skipLines (text : List Char) : List Char :=
  skipLinesWithin text.length text

/-! ## Strings -/

/-- The character with that code point. -/
def scalar? (digits : List Char) : Option Char :=
  match digits.mapM Scalar.hexDigit? with
  | none => none
  | some values =>
    let point := values.foldl (fun point value => 16 * point + value) 0
    if point.isValidChar then some (Char.ofNat point) else none

/-- The character that a backslash and a letter stand for. -/
def shortEscape? : Char → Option Char
  | 'b' => some '\x08'
  | 't' => some '\t'
  | 'n' => some '\n'
  | 'f' => some '\x0c'
  | 'r' => some '\r'
  | 'e' => some '\x1b'
  | '"' => some '"'
  | '\\' => some '\\'
  | _ => none

/-- A character in front of what a part has read. -/
def consPart (c : Option Char) (part : Part (List Char)) : Part (List Char) :=
  match c, part with
  | some c, some (text, rest) => some (c :: text, rest)
  | _, _ => none

/-- The rest of a string in double quotes. -/
def quotedText : List Char → Part (List Char)
  | [] => none
  | '"' :: rest => some ([], rest)
  | '\\' :: 'x' :: a :: b :: rest => consPart (scalar? [a, b]) (quotedText rest)
  | '\\' :: 'u' :: a :: b :: c :: d :: rest => consPart (scalar? [a, b, c, d]) (quotedText rest)
  | '\\' :: 'U' :: a :: b :: c :: d :: e :: f :: g :: h :: rest =>
    consPart (scalar? [a, b, c, d, e, f, g, h]) (quotedText rest)
  | '\\' :: c :: rest => consPart (shortEscape? c) (quotedText rest)
  | c :: rest => if isPrintable c then consPart (some c) (quotedText rest) else none

/-- The rest of a string in single quotes. -/
def plainText : List Char → Part (List Char)
  | [] => none
  | c :: rest =>
    if c = '\x27' then some ([], rest)
    else if isPrintable c then consPart (some c) (plainText rest)
    else none

/-- What a run of at least three quotes means inside a string of several lines: it closes the
string, and up to two quotes in front of the last three belong to it. -/
def closing? (quote : Char) (text : List Char) : Part (List Char) :=
  let run := text.takeWhile (· = quote)
  if run.length < 3 then none
  else
    let kept := min (run.length - 3) 2
    some (List.replicate kept quote, text.drop (kept + 3))

/-- Whether a backslash in front of the text ends its line: only blanks come before a line break. -/
def endsLine (text : List Char) : Bool :=
  (lineBreak? (skipSpaces text)).isSome

/-- The text after all blanks and line breaks. -/
def skipBlankLines : List Char → List Char
  | [] => []
  | '\r' :: '\n' :: rest => skipBlankLines rest
  | c :: rest => if isSpace c || c = '\n' then skipBlankLines rest else c :: rest

/-- Whether a character may stand in a string of several lines, given the text after it. A line
break is kept as it is written; a carriage return without a line feed is none. -/
def isLineText (c : Char) (rest : List Char) : Bool :=
  isPrintable c || (lineBreak? (c :: rest)).isSome

/-- The rest of a string of several lines in double quotes. -/
def quotedLines : (depth : Nat) → List Char → Part (List Char)
  | 0, _ => none
  | depth + 1, text =>
    match closing? '"' text with
    | some part => some part
    | none =>
      match text with
      | [] => none
      | '\\' :: 'x' :: a :: b :: rest => consPart (scalar? [a, b]) (quotedLines depth rest)
      | '\\' :: 'u' :: a :: b :: c :: d :: rest =>
        consPart (scalar? [a, b, c, d]) (quotedLines depth rest)
      | '\\' :: 'U' :: a :: b :: c :: d :: e :: f :: g :: h :: rest =>
        consPart (scalar? [a, b, c, d, e, f, g, h]) (quotedLines depth rest)
      | '\\' :: rest =>
        if endsLine rest then quotedLines depth (skipBlankLines rest)
        else
          match rest with
          | [] => none
          | c :: rest => consPart (shortEscape? c) (quotedLines depth rest)
      | c :: rest => if isLineText c rest then consPart (some c) (quotedLines depth rest) else none

/-- The rest of a string of several lines in single quotes. -/
def plainLines : (depth : Nat) → List Char → Part (List Char)
  | 0, _ => none
  | depth + 1, text =>
    match closing? '\x27' text with
    | some part => some part
    | none =>
      match text with
      | [] => none
      | c :: rest => if isLineText c rest then consPart (some c) (plainLines depth rest) else none

/-- The text after the line break that a string of several lines may begin with. -/
def skipFirstBreak (text : List Char) : List Char :=
  (lineBreak? text).getD text

/-- A string of any of the four forms. -/
def string? (text : List Char) : Part (List Char) :=
  match text with
  | '"' :: '"' :: '"' :: rest => quotedLines (rest.length + 1) (skipFirstBreak rest)
  | '"' :: rest => quotedText rest
  | '\x27' :: '\x27' :: '\x27' :: rest => plainLines (rest.length + 1) (skipFirstBreak rest)
  | '\x27' :: rest => plainText rest
  | _ => none

/-! ## Keys -/

/-- A character of a key without quotes. -/
def isKeyChar (c : Char) : Bool :=
  c.isAlphanum || c = '_' || c = '-'

/-- One part of a key. -/
def keyPart? (text : List Char) : Part String :=
  match text with
  | '"' :: rest => (quotedText rest).map fun (key, rest) => (String.ofList key, rest)
  | '\x27' :: rest => (plainText rest).map fun (key, rest) => (String.ofList key, rest)
  | text =>
    match text.takeWhile isKeyChar with
    | [] => none
    | key => some (String.ofList key, text.dropWhile isKeyChar)

/-- How many parts a key may have. -/
def partLimit : Nat := 80

/-- A key of at most `limit` parts. -/
def keyWithin : (limit : Nat) → List Char → Part (List String)
  | 0, _ => none
  | limit + 1, text =>
    match keyPart? (skipSpaces text) with
    | none => none
    | some (part, rest) =>
      match skipSpaces rest with
      | '.' :: rest => (keyWithin limit rest).map fun (parts, rest) => (part :: parts, rest)
      | rest => some ([part], rest)

/-- A key, part by part, with the blanks around it. -/
def key? (text : List Char) : Part (List String) :=
  keyWithin partLimit text

/-! ## Values -/

/-- A character of a number, a date or a truth value. -/
def isWordChar (c : Char) : Bool :=
  c.isAlphanum || c = '_' || c = '-' || c = '+' || c = '.' || c = ':'

/-- The word that a text begins with; after a date, a blank and a time belong to it. -/
def word (text : List Char) : List Char × List Char :=
  let first := text.takeWhile isWordChar
  match text.dropWhile isWordChar with
  | ' ' :: c :: rest =>
    if Scalar.isDate first ∧ c.isDigit then
      (first ++ ' ' :: (c :: rest).takeWhile isWordChar, (c :: rest).dropWhile isWordChar)
    else (first, ' ' :: c :: rest)
  | rest => (first, rest)

/-- A number, a date or a truth value. -/
def word? (text : List Char) : Part Entry :=
  let (found, rest) := word text
  if found = "true".toList then some (.boolean true, rest)
  else if found = "false".toList then some (.boolean false, rest)
  else if Scalar.isNumber found || Scalar.isDateTime found then some (.other, rest)
  else none

/-- How many lists and tables in braces may stand one inside the other. -/
def nestingLimit : Nat := 80

mutual

/-- A value that nests at most `level` deep. -/
def value? : (depth level : Nat) → List Char → Part Entry
  | 0, _, _ => none
  | depth + 1, level, text =>
    match text, level with
    | '[' :: _, 0 | '\x7b' :: _, 0 => none
    | '[' :: rest, level + 1 => items? depth level (skipLines rest)
    | '\x7b' :: rest, level + 1 => members? depth level [] (skipLines rest)
    | '"' :: _, _ | '\x27' :: _, _ =>
      (string? text).map fun (value, rest) => (.text (String.ofList value), rest)
    | text, _ => word? text

/-- The items of a list, up to its end. -/
def items? : (depth level : Nat) → List Char → Part Entry
  | 0, _, _ => none
  | depth + 1, level, text =>
    match text with
    | ']' :: rest => some (.other, rest)
    | text =>
      match value? depth level text with
      | none => none
      | some (_, rest) =>
        match skipLines rest with
        | ']' :: rest => some (.other, rest)
        | ',' :: rest => items? depth level (skipLines rest)
        | _ => none

/-- The members of a table in braces, up to its end. -/
def members? : (depth level : Nat) → Members → List Char → Part Entry
  | 0, _, _, _ => none
  | depth + 1, level, members, text =>
    match text with
    | '\x7d' :: rest => some (.table .closed members, rest)
    | text =>
      match key? text with
      | none => none
      | some (parts, rest) =>
        match skipLines rest with
        | '=' :: rest =>
          match parts.getLast?, value? depth level (skipLines rest) with
          | some key, some (value, rest) =>
            match members.putValue parts.dropLast key value with
            | none => none
            | some members =>
              match skipLines rest with
              | '\x7d' :: rest => some (.table .closed members, rest)
              | ',' :: rest => members? depth level members (skipLines rest)
              | _ => none
          | _, _ => none
        | _ => none

end

/-! ## Lines -/

/-- What has been read of a document. -/
structure State where
  members : Members := []
  /-- The table that is open, by its path. -/
  table : List String := []

/-- A header, without its first bracket. -/
def header? (state : State) (text : List Char) : Part State :=
  match text with
  | '[' :: text =>
    match key? text with
    | some (parts, ']' :: ']' :: rest) =>
      match parts.getLast? with
      | none => none
      | some key =>
        (state.members.openElement parts.dropLast key).map fun members => (⟨members, parts⟩, rest)
    | _ => none
  | text =>
    match key? text with
    | some (parts, ']' :: rest) =>
      match parts.getLast? with
      | none => none
      | some key =>
        (state.members.openTable parts.dropLast key).map fun members => (⟨members, parts⟩, rest)
    | _ => none

def pair? (state : State) (text : List Char) : Part State :=
  match key? text with
  | some (parts, '=' :: rest) =>
    let rest := skipSpaces rest
    match parts.getLast?, value? (2 * rest.length + 2) nestingLimit rest with
    | some key, some (value, rest) =>
      (state.members.putInto state.table parts.dropLast key value).map fun members =>
        ({ state with members }, rest)
    | _, _ => none
  | _ => none

/-- The rest of a document, line by line. -/
def lines? : (depth : Nat) → State → List Char → Option Members
  | 0, _, _ => none
  | depth + 1, state, text =>
    match skipSpaces text with
    | [] => some state.members
    | c :: rest =>
      match endOfLine? (c :: rest) with
      | some rest => lines? depth state rest
      | none =>
        let part := if c = '[' then header? state rest else pair? state (c :: rest)
        match part with
        | none => none
        | some (state, rest) =>
          match endOfLine? rest with
          | none => none
          | some rest => lines? depth state rest

/-- The entries of a document. A byte-order mark at its beginning is passed over. -/
def readDocument (text : List Char) : Option Members :=
  let text := match text with
    | '\ufeff' :: rest => rest
    | text => text
  lines? (text.length + 1) {} text

end TableScribe.Reader
