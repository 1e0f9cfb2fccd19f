import TableScribe.Text.Quoted

/-!
# What can be wrong with a statement

A `Fault` names the cause and, where there is one, the byte offset in the statement. `message` is
the only place that words it.
-/

namespace TableScribe

/-- What a statement has to go on with. -/
inductive Expected
  | create
  | table
  | columnList
  | valueList
  | statementEnd
  deriving DecidableEq, Repr

/-- How a message names what is missing. -/
def Expected.text : Expected → String
  | create => "CREATE"
  | table => "TABLE"
  | columnList => "("
  | valueList => "( after ENUM"
  | statementEnd => "end of statement"

/-- Why a statement is not understood. Positions are byte offsets in its text. -/
inductive Fault
  | unrecognized (lexeme : String) (position : Nat)
  | unexpectedToken (expected : Expected) (found : String) (position : Nat)
  | unexpectedEnd (expected : Expected) (position : Nat)
  | emptyStatement
  | missingCreateTable
  | missingTableName (position : Nat)
  | incompleteIfNotExists (position : Nat)
  | unmatchedOpening (position : Nat)
  | unmatchedClosing (position : Nat)
  | unmatchedInValues (position : Nat)
  deriving DecidableEq, Repr

def Fault.message : Fault → String
  | unrecognized lexeme position =>
    "unrecognized input " ++ Text.quoted lexeme ++ " at byte " ++ toString position
  | unexpectedToken expected found position =>
    "expected " ++ expected.text ++ " but found " ++ Text.quoted found ++ " at byte " ++
      toString position
  | unexpectedEnd expected position =>
    "expected " ++ expected.text ++ " but the statement ended at byte " ++ toString position
  | emptyStatement => "empty statement"
  | missingCreateTable => "no CREATE TABLE found in statement"
  | missingTableName position => "expected table name after TABLE at byte " ++ toString position
  | incompleteIfNotExists position =>
    "incomplete IF NOT EXISTS clause at byte " ++ toString position
  | unmatchedOpening position => "unmatched opening parenthesis at byte " ++ toString position
  | unmatchedClosing position => "unmatched closing parenthesis at byte " ++ toString position
  | unmatchedInValues position =>
    "unmatched parenthesis in ENUM definition at byte " ++ toString position

end TableScribe
