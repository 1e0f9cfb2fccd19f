/-!
# Settings documents

A settings document is a table of named entries, some of which are tables again. It is built up
entry by entry: a header opens a table, and a key, perhaps a dotted one, puts a value into the
open table. `Origin` remembers how a table came about, since that decides whether it may be added to
or opened again. Every operation answers `none` where the document contradicts itself.
-/

namespace TableScribe

/-- How a table came about. -/
inductive Origin
  /-- By a header of its own. -/
  | header
  /-- By the header of a table inside it. -/
  | implied
  /-- By a dotted key. -/
  | dotted
  /-- Between braces; nothing can be added to it. -/
  | closed
  deriving DecidableEq, Repr

/-- What stands under a key. -/
inductive Entry
  | text (value : String)
  | boolean (value : Bool)
  /-- A number, a date or a list. -/
  | other
  | table (origin : Origin) (members : List (String × Entry))
  /-- Tables under the same repeated header. -/
  | tables (elements : List (List (String × Entry)))

/-- The entries of a table, in order. -/
abbrev Members := List (String × Entry)

namespace Members

/-- The members with another entry under the key. -/
def replace (key : String) (entry : Entry) (members : Members) : Members :=
  members.map fun member => if member.1 = key then (key, entry) else member

/-- Changes the table at the end of a path of keys. Tables that are missing are made on the way. A
dotted key does not lead through a table that has a header. -/
def updateAt (dotted : Bool) (update : Origin → Members → Option Members) :
    List String → Origin → Members → Option Members
  | [], origin, members => update origin members
  | key :: keys, _, members =>
    match members.lookup key with
    | none =>
      let origin := if dotted then Origin.dotted else Origin.implied
      (updateAt dotted update keys origin []).map fun inner =>
        members ++ [(key, .table origin inner)]
    | some (.table origin inner) =>
      if origin = .closed ∨ (dotted ∧ origin = .header) then none
      else
        (updateAt dotted update keys origin inner).map fun inner =>
          members.replace key (.table origin inner)
    | some (.tables elements) =>
      (updateAt dotted update keys .header (elements.getLast?.getD [])).map fun inner =>
        members.replace key (.tables (elements.dropLast ++ [inner]))
    | some _ => none

/-- Puts a value under a dotted key. The key must be new, and the keys before its last dot must not
lead to a table that was made otherwise. -/
def putValue (path : List String) (key : String) (value : Entry) (members : Members) :
    Option Members :=
  updateAt true
    (fun origin members =>
      if decide (origin = .dotted) != decide (path ≠ []) then none
      else if (members.lookup key).isSome then none
      else some (members ++ [(key, value)]))
    path .header members

/-- Opens a table by its header. -/
def openTable (path : List String) (key : String) (members : Members) : Option Members :=
  updateAt false
    (fun _ members =>
      match members.lookup key with
      | none => some (members ++ [(key, .table .header [])])
      | some (.table .implied inner) => some (members.replace key (.table .header inner))
      | some _ => none)
    path .header members

/-- Opens one more table under a repeated header. -/
def openElement (path : List String) (key : String) (members : Members) : Option Members :=
  updateAt false
    (fun _ members =>
      match members.lookup key with
      | none => some (members ++ [(key, .tables [[]])])
      | some (.tables elements) => some (members.replace key (.tables (elements ++ [[]])))
      | some _ => none)
    path .header members

/-- Puts a value under a dotted key of an open table. -/
def putInto (table path : List String) (key : String) (value : Entry) (members : Members) :
    Option Members :=
  updateAt false (fun _ members => putValue path key value members) table .header members

end Members

end TableScribe
