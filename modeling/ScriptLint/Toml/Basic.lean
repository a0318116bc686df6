
namespace ScriptLint
namespace Toml

/-- How a table came about. -/
inductive TableKind where
  /-- Under its own header. -/
  | defined
  /-- From the header of a table inside it. -/
  | implied
  /-- From a key with dots. -/
  | dotted
  /-- As a value in braces. -/
  | inline
  deriving DecidableEq

/-- A value of a document. -/
inductive Value where
  | string (text : String)
  | integer (value : Int)
  | float
  | boolean (value : Bool)
  | date
  | array (items : List Value)
  | table (kind : TableKind) (entries : List (String × Value))
  /-- Tables under doubled headers, in their order. -/
  | tables (items : List (List (String × Value)))

/-- The entries of a table, each key once. -/
abbrev Entries := List (String × Value)

/-- The entries with a key bound to a value, in the place of its old value if it had one. -/
def put (key : String) (value : Value) : Entries → Entries
  | [] => [(key, value)]
  | (k, v) :: entries => if k = key then (key, value) :: entries else (k, v) :: put key value entries

/-- Changes the table at the end of a path. Tables that are missing on the way are made; one that
a key with dots has to pass must not have a header of its own, and a list of tables is passed
through its last one. -/
def modifyAt? (byDots : Bool) (change : TableKind → Entries → Option Entries) :
    List String → TableKind → Entries → Option Entries
  | [], kind, entries => change kind entries
  | key :: path, _, entries =>
    match entries.lookup key with
    | none => do
      let kind := if byDots then .dotted else .implied
      let inner ← modifyAt? byDots change path kind []
      return put key (.table kind inner) entries
    | some (.table kind inner) =>
      if kind == .inline || (byDots && kind == .defined) then none
      else (modifyAt? byDots change path kind inner).map fun inner =>
        put key (.table kind inner) entries
    | some (.tables items) => do
      let inner ← modifyAt? byDots change path .defined (← items.getLast?)
      return put key (.tables (items.dropLast ++ [inner])) entries
    | some _ => none

/-- Binds a key with dots, `path` and then `key`. No key is bound twice, and every table on the
path is one that keys with dots have made. -/
def bind? (path : List String) (key : String) (value : Value) (kind : TableKind)
    (entries : Entries) : Option Entries :=
  modifyAt? true (fun kind entries =>
    if (kind == .dotted) == path.isEmpty || (entries.lookup key).isSome then none
    else some (put key value entries)) path kind entries

/-- Opens the table of a header. -/
def openTable? (path : List String) (key : String) (root : Entries) : Option Entries :=
  modifyAt? false (fun _ entries =>
    match entries.lookup key with
    | none => some (put key (.table .defined []) entries)
    | some (.table .implied inner) => some (put key (.table .defined inner) entries)
    | some _ => none) path .defined root

/-- Opens one more table of a doubled header. -/
def openNext? (path : List String) (key : String) (root : Entries) : Option Entries :=
  modifyAt? false (fun _ entries =>
    match entries.lookup key with
    | none => some (put key (.tables [[]]) entries)
    | some (.tables items) => some (put key (.tables (items ++ [[]])) entries)
    | some _ => none) path .defined root

end Toml
end ScriptLint
