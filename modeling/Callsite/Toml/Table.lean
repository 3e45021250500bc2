/-!
# TOML tables

A document is a tree of tables.  Tables come about in several ways, and how a
table came about decides in which way it may still be extended.
-/

namespace Callsite

/-- How a table came about. -/
inductive TableKind where
  | header
  | implicit
  | dotted
  | closed
  deriving DecidableEq, Repr

/-- A TOML value; of some only the kind is kept. -/
inductive Toml where
  | int (value : Int)
  | bool (value : Bool)
  | text (value : String)
  | real
  | moment
  | arr (items : List Toml)
  | table (kind : TableKind) (entries : List (String × Toml))
  /-- Tables that share a header in double brackets. -/
  | tables (items : List (List (String × Toml)))
  deriving Repr, Inhabited

namespace Toml

/-- The keys of a table with their values. -/
abbrev Entries := List (String × Toml)

def replace (key : String) (value : Toml) (entries : Entries) : Entries :=
  entries.map fun entry => if entry.1 == key then (key, value) else entry

/-- Change the last of several tables. -/
def changeLast (f : Entries → Option Entries) : List Entries → Option (List Entries)
  | [] => none
  | [last] => (f last).map ([·])
  | first :: rest => (changeLast f rest).map (first :: ·)

/-- Give a value to a dotted key.  The tables on the way are made if need be, and may only be
those that dotted keys made. -/
def put (key : String) (value : Toml) : List String → Entries → Option Entries
  | [], entries =>
    if entries.any (·.1 == key) then none else some (entries ++ [(key, value)])
  | step :: path, entries =>
    match entries.lookup step with
    | none => do
      let inner ← put key value path []
      pure (entries ++ [(step, .table .dotted inner)])
    | some (.table kind inner) =>
      if kind = .dotted || (kind = .implicit && !path.isEmpty) then do
        pure (replace step (.table kind (← put key value path inner)) entries)
      else none
    | some (.tables items) =>
      if path.isEmpty then none
      else do pure (replace step (.tables (← changeLast (put key value path) items)) entries)
    | some _ => none

/-- What is at the path of a header: nothing when the way is barred, and nothing inside when
the place is free. -/
def locate : List String → Entries → Option (Option Toml)
  | [], _ => none
  | [key], entries => some (entries.lookup key)
  | step :: path, entries =>
    match entries.lookup step with
    | none => some none
    | some (.table kind inner) => if kind = .closed then none else locate path inner
    | some (.tables items) => locate path (items.getLast?.getD [])
    | some _ => none

/-- Put something at the path of a header. -/
def store (f : Option Toml → Toml) : List String → Entries → Option Entries
  | [], _ => none
  | [key], entries =>
    match entries.lookup key with
    | none => some (entries ++ [(key, f none)])
    | some old => some (replace key (f (some old)) entries)
  | step :: path, entries =>
    match entries.lookup step with
    | none => do
      let inner ← store f path []
      pure (entries ++ [(step, .table .implicit inner)])
    | some (.table kind inner) =>
      if kind = .closed then none
      else do pure (replace step (.table kind (← store f path inner)) entries)
    | some (.tables items) => do
      pure (replace step (.tables (← changeLast (store f path) items)) entries)
    | some _ => none

/-- The table that a header opens, with the entries it has already. -/
def openTable (path : List String) (root : Entries) : Option Entries :=
  match locate path root with
  | some none => some []
  | some (some (.table .implicit entries)) => some entries
  | _ => none

/-- The table that a header in double brackets opens. -/
def openItem (path : List String) (root : Entries) : Option Entries :=
  match locate path root with
  | some none | some (some (.tables _)) => some []
  | _ => none

/-- Put a table that a header opened in its place. -/
def closeTable (path : List String) (entries : Entries) (root : Entries) : Option Entries :=
  store (fun _ => .table .header entries) path root

/-- Put a table that a header in double brackets opened in its place. -/
def closeItem (path : List String) (entries : Entries) (root : Entries) : Option Entries :=
  store
    (fun
      | some (.tables items) => .tables (items ++ [entries])
      | _ => .tables [entries])
    path root

end Toml

end Callsite
