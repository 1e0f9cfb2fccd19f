import TableScribe.Lexical.Keyword
import TableScribe.Text.Pieces

/-!
# Tokens

A token is a piece of a statement with its kind and its place. The lexeme is the text as written,
delimiters included; `Token.unquoted` takes them off.
-/

namespace TableScribe

inductive TokenKind
  | keyword (word : Keyword)
  /-- The two words `NOT NULL`. -/
  | notNull
  | realLiteral
  | integerLiteral
  /-- A number in parentheses. -/
  | length
  | leftParen
  | rightParen
  | comma
  | semicolon
  | equals
  | operator
  | dot
  /-- A text between single quotes. -/
  | stringLiteral
  /-- A name between backquotes. -/
  | quotedName
  | name
  deriving DecidableEq, Repr

namespace TokenKind

/-- The label of a kind; a key word is labelled by its spelling. -/
def label : TokenKind → String
  | keyword word => word.spelling
  | notNull => "NOT_NULL"
  | realLiteral => "REAL_LITERAL"
  | integerLiteral => "INTEGER_LITERAL"
  | length => "VARCHAR_LENGTH"
  | leftParen => "LPAREN"
  | rightParen => "RPAREN"
  | comma => "COMMA"
  | semicolon => "SEMICOLON"
  | equals => "EQUALS"
  | operator => "OPERATOR"
  | dot => "DOT"
  | stringLiteral => "STRING_LITERAL"
  | quotedName => "QUOTED_IDENTIFIER"
  | name => "IDENTIFIER"

def all : List TokenKind :=
  Keyword.all.map keyword ++
    [notNull, realLiteral, integerLiteral, length, leftParen, rightParen, comma, semicolon, equals,
      operator, dot, stringLiteral, quotedName, name]

def ofLabel? (text : String) : Option TokenKind :=
  all.find? (·.label == text)

/-- A plain or a quoted name. -/
def isName : TokenKind → Bool
  | name | quotedName => true
  | _ => false

/-- A token that can be the value of a `DEFAULT`. -/
def isDefaultValue : TokenKind → Bool
  | stringLiteral | realLiteral | integerLiteral | keyword .currentTimestamp => true
  | _ => false

/-- A token that is a default value even without the word `DEFAULT`: every default value but a
string. -/
def isInlineDefault (kind : TokenKind) : Bool :=
  kind.isDefaultValue && kind != stringLiteral

/-- The characters that a token of the kind stands between. -/
def delimiters? : TokenKind → Option (Char × Char)
  | stringLiteral => some ('\x27', '\x27')
  | quotedName => some ('\x60', '\x60')
  | length => some ('(', ')')
  | _ => none

end TokenKind

/-- What stands between the two characters, if the text begins with the one and, after it, ends with
the other. -/
def Text.between? (opening closing : Char) : List Char → Option (List Char)
  | [] => none
  | c :: rest =>
    if c = opening ∧ rest.getLast? = some closing then some rest.dropLast else none

/-- A token: its text covers the bytes from `start` up to `stop`. -/
structure Token where
  kind : TokenKind
  lexeme : String
  start : Nat
  stop : Nat
  deriving DecidableEq, Repr

namespace Token

/-- The lexeme without its delimiters; a lexeme that lacks them stays as it is. -/
def unquoted (token : Token) : String :=
  match token.kind.delimiters? with
  | none => token.lexeme
  | some (opening, closing) =>
    match Text.between? opening closing token.lexeme.toList with
    | none => token.lexeme
    | some inner => String.ofList inner

/-- The name that a token is, without backquotes. -/
def name? (token : Token) : Option String :=
  if token.kind.isName then some token.unquoted else none

def isKeyword (token : Token) (word : Keyword) : Bool :=
  token.kind = .keyword word

/-- The text a token contributes as a default: the current time by its canonical spelling, any
other token without its delimiters. -/
def defaultText (token : Token) : String :=
  if token.isKeyword .currentTimestamp then Keyword.currentTimestamp.spelling else token.unquoted

end Token

/-- The lexemes of a token list with one space between neighbours. -/
def renderTokens (tokens : List Token) : String :=
  Text.join " " (tokens.map (·.lexeme))

end TableScribe
