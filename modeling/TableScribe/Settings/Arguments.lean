import TableScribe.Settings.Basic

/-!
# Command-line arguments

`Arguments.parse` reads the words after the name of the program. An option takes one value: in the
next word, after an equals sign, or directly behind the letter. A flag takes none. Nothing may be
given twice, and there are no other words.

An option whose value is still to come, or has come as the next word, is pending: it is looked at
only when the next option or flag is recognised or the words end. So a word that is not recognised
is reported before a pending option that lacks its value.
-/

namespace TableScribe

/-- What is wrong with the arguments, or what they ask for instead of a run. -/
inductive Misuse
  | argumentConflict
  | invalidValue
  | tooManyValues
  | unknownArgument
  | displayHelp
  | displayVersion
  deriving DecidableEq, Repr

namespace Misuse

def name : Misuse → String
  | argumentConflict => "ArgumentConflict"
  | invalidValue => "InvalidValue"
  | tooManyValues => "TooManyValues"
  | unknownArgument => "UnknownArgument"
  | displayHelp => "DisplayHelp"
  | displayVersion => "DisplayVersion"

/-- The exit code: asking for help or the version is no failure. -/
def exitCode : Misuse → Nat
  | displayHelp | displayVersion => 0
  | _ => 2

end Misuse

/-- What can be set on the command line. -/
inductive Switch
  | config
  | input
  | directory
  | relations
  | lenient
  | failFast
  | withMetadata
  | help
  | version
  deriving DecidableEq, Repr

namespace Switch

def takesValue : Switch → Bool
  | config | input | directory | relations => true
  | _ => false

def ofLong? : String → Option Switch
  | "config" => some config
  | "input" => some input
  | "out-dir" => some directory
  | "inheritance" => some relations
  | "lenient" => some lenient
  | "fail-fast" => some failFast
  | "emit-json" => some withMetadata
  | "help" => some help
  | "version" => some version
  | _ => none

def ofLetter? : Char → Option Switch
  | 'c' => some config
  | 'i' => some input
  | 'o' => some directory
  | 'h' => some help
  | 'V' => some version
  | _ => none

end Switch

/-- What the command line sets. -/
structure Arguments where
  config : Option String := none
  input : Option String := none
  directory : Option String := none
  relations : Option String := none
  lenient : Bool := false
  failFast : Bool := false
  withMetadata : Bool := false
  deriving DecidableEq, Repr

namespace Arguments

/-- Stores a value, unless there is one or the value is empty. -/
def fill (old : Option String) (value : String) (store : Option String → Arguments) :
    Except Misuse Arguments :=
  if old.isSome then .error .argumentConflict
  else if value = "" then .error .invalidValue
  else .ok (store (some value))

/-- Sets a flag, unless it is set. -/
def raise (old : Bool) (store : Bool → Arguments) : Except Misuse Arguments :=
  if old then .error .argumentConflict else .ok (store true)

/-- Takes a switch with its value, which is empty for a flag. -/
def take (arguments : Arguments) (switch : Switch) (value : String) : Except Misuse Arguments :=
  match switch with
  | .config => fill arguments.config value fun v => { arguments with config := v }
  | .input => fill arguments.input value fun v => { arguments with input := v }
  | .directory => fill arguments.directory value fun v => { arguments with directory := v }
  | .relations => fill arguments.relations value fun v => { arguments with relations := v }
  | .lenient => raise arguments.lenient fun v => { arguments with lenient := v }
  | .failFast => raise arguments.failFast fun v => { arguments with failFast := v }
  | .withMetadata => raise arguments.withMetadata fun v => { arguments with withMetadata := v }
  | .help => .error .displayHelp
  | .version => .error .displayVersion

/-- An option that has been recognised and not yet been stored. -/
structure Pending where
  switch : Switch
  value : Option String := none

/-- What has been read of the command line. -/
structure State where
  arguments : Arguments := {}
  pending : Option Pending := none

/-- Stores the pending option, if there is one. -/
def State.settle (state : State) : Except Misuse Arguments :=
  match state.pending with
  | none => .ok state.arguments
  | some pending =>
    match pending.value with
    | none => .error .invalidValue
    | some value => state.arguments.take pending.switch value

/-- Takes a switch and the value that is attached to it, if there is one. -/
def State.recognise (state : State) (switch : Switch) (attached : Option String) :
    Except Misuse State :=
  match state.settle with
  | .error e => .error e
  | .ok arguments =>
    match attached with
    | some value => (arguments.take switch value).map fun arguments => { arguments }
    | none =>
      if switch.takesValue then .ok { arguments, pending := some { switch } }
      else (arguments.take switch "").map fun arguments => { arguments }

/-- Takes a word that begins with two hyphens, without them. -/
def State.long (state : State) (word : List Char) : Except Misuse State :=
  let name := String.ofList (word.takeWhile (· ≠ '='))
  let attached := match word.dropWhile (· ≠ '=') with
    | [] => none
    | _ :: value => some (String.ofList value)
  match Switch.ofLong? name with
  | none => .error .unknownArgument
  | some switch =>
    if attached.isSome ∧ !switch.takesValue then .error .tooManyValues
    else state.recognise switch attached

/-- Takes a word that begins with one hyphen, by its first letter and what is behind it. No flag has
a letter but those that end the reading, so the letters after a flag never matter. -/
def State.short (state : State) (letter : Char) (behind : List Char) : Except Misuse State :=
  match Switch.ofLetter? letter with
  | none => .error .unknownArgument
  | some switch =>
    match behind with
    | [] => state.recognise switch none
    | '=' :: value => state.recognise switch (some (String.ofList value))
    | value => state.recognise switch (some (String.ofList value))

/-- Whether a pending option waits for its value. -/
def State.waiting (state : State) : Option Switch :=
  match state.pending with
  | some { switch, value := none } => some switch
  | _ => none

def State.word (state : State) (word : String) : Except Misuse State :=
  match word.toList with
  | '-' :: '-' :: rest => state.long rest
  | '-' :: letter :: behind => state.short letter behind
  | _ =>
    match state.waiting with
    | none => .error .unknownArgument
    | some switch => .ok { state with pending := some { switch, value := some word } }

/-- Takes the words in order. After `--` no option is recognised, and there are no other words. -/
def State.words (state : State) : List String → Except Misuse Arguments
  | [] => state.settle
  | "--" :: rest => if rest = [] then state.settle else .error .unknownArgument
  | word :: rest =>
    match state.word word with
    | .error e => .error e
    | .ok state => state.words rest

/-- What the words of a command line set. -/
def parse (words : List String) : Except Misuse Arguments :=
  State.words {} words

/-- The settings with what the command line sets put on top. A flag can only be raised. -/
def applyTo (arguments : Arguments) (settings : Settings) : Settings where
  input := arguments.input.getD settings.input
  directory := arguments.directory.getD settings.directory
  relations := arguments.relations.or settings.relations
  lenient := settings.lenient || arguments.lenient
  failFast := settings.failFast || arguments.failFast
  withMetadata := settings.withMetadata || arguments.withMetadata

end Arguments

end TableScribe
