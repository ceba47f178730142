/-!
Tables of configuration text. A table comes from a header, from a longer header
that passes through it, or from a dotted key; where it comes from decides what
may still be added to it. No table is defined twice and no key is set twice.
-/

namespace ClassImage

namespace Toml

inductive Origin where
  | header
  | passing
  | dotted
deriving DecidableEq

/--
What a key holds. A closed value is one that nothing is added to or read from:
a scalar other than a whole number, an array, or a table written in one line.
The tables of a list stand newest first.
-/
inductive Item where
  | integer (value : Int)
  | closed
  | table (origin : Origin) (members : List (String × Item))
  | tables (elements : List (List (String × Item)))

abbrev Members := List (String × Item)

namespace Members

/-- Sets a key, in its place if it is there and at the end if it is not. -/
def put (members : Members) (key : String) (item : Item) : Members :=
  match members with
  | [] => [(key, item)]
  | (other, held) :: rest =>
    if other = key then (key, item) :: rest else (other, held) :: put rest key item

/-- Sets a key that is not there yet. -/
def add (members : Members) (key : String) (item : Item) : Option Members :=
  match members.lookup key with
  | none => some (members.put key item)
  | some _ => none

/--
Changes the table that a path leads to, creating the tables on the way. A list
of tables is entered at its newest one, and a dotted key enters no table that
has a header of its own.
-/
def within (dotted : Bool) (change : Origin → Members → Option Members) :
    List String → Origin → Members → Option Members
  | [], origin, members => change origin members
  | key :: path, _, members =>
    match members.lookup key with
    | none => do
      let origin := if dotted then .dotted else .passing
      return members.put key (.table origin (← within dotted change path origin []))
    | some (.table origin inner) =>
      if dotted && origin = .header then none
      else do
        return members.put key (.table origin (← within dotted change path origin inner))
    | some (.tables (newest :: older)) => do
      return members.put key (.tables ((← within dotted change path .header newest) :: older))
    | some _ => none

/--
Sets a dotted key. A key with dots adds to a table that came from a dotted key,
and one without adds to a table that did not.
-/
def assign (origin : Origin) (members : Members) (path : List String) (item : Item) :
    Option Members := do
  let key ← path.getLast?
  let change := fun origin (members : Members) =>
    if decide (origin = .dotted) = path.dropLast.isEmpty then none else members.add key item
  within true change path.dropLast origin members

/-- Opens the table of a header, which other headers may have passed through. -/
def openTable (members : Members) (path : List String) : Option Members := do
  let key ← path.getLast?
  let change := fun _ (members : Members) =>
    match members.lookup key with
    | none => some (members.put key (.table .header []))
    | some (.table .passing inner) => some (members.put key (.table .header inner))
    | some _ => none
  within false change path.dropLast .header members

/-- Opens a new table at the end of a list of tables. -/
def openElement (members : Members) (path : List String) : Option Members := do
  let key ← path.getLast?
  let change := fun _ (members : Members) =>
    match members.lookup key with
    | none => some (members.put key (.tables [[]]))
    | some (.tables elements) => some (members.put key (.tables ([] :: elements)))
    | some _ => none
  within false change path.dropLast .header members

end Members

end Toml

end ClassImage
