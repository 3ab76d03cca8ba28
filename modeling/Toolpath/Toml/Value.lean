import Toolpath.Toml.Scalar

/-!
# Values and tables

A table grows statement by statement. `assign` sets a value under a dotted key and `place` opens the
table that a header names; both refuse whatever would define a key or a table twice. How a table
came to be decides which statements may still add to it.
-/

namespace Toolpath.Toml

/-- How a table came to be. -/
inductive Origin where
  | header
  /-- As a parent in the header of another table. -/
  | parent
  /-- As a parent in a dotted key. -/
  | dotted
  | closed
deriving DecidableEq, Repr

inductive Value where
  | scalar (s : Scalar)
  | text (s : String)
  | moment
  | array (items : List Value)
  | table (origin : Origin) (members : List (String × Value))
  /-- Tables of one repeated header. -/
  | tables (items : List (List (String × Value)))

/-- The members of a table, with their keys in the order in which they were first named. -/
abbrev Members := List (String × Value)

namespace Members

/-- Sets the value of a key, in the place where the key stands or else at the end. -/
def put (key : String) (v : Value) : Members → Members
  | [] => [(key, v)]
  | (k, w) :: later => if k = key then (k, v) :: later else (k, w) :: put key v later

end Members

structure Key where
  parents : List String := []
  last : String
deriving DecidableEq, Repr

/-- A dotted key may set a member of such a table, directly or through further tables. Only tables
that dotted keys made take members directly; those that headers name through their children can be
passed through. -/
def Origin.takesKey (origin : Origin) (directly : Bool) : Bool :=
  match origin with
  | .dotted => true
  | .parent => !directly
  | .header | .closed => false

def assign (v : Value) (key : String) : List String → Members → Option Members
  | [], ms => if (ms.lookup key).isSome then none else some (ms.put key v)
  | k :: path, ms =>
    match ms.lookup k with
    | none => (assign v key path []).map fun inner => ms.put k (.table .dotted inner)
    | some (.table origin inner) =>
      if origin.takesKey path.isEmpty then
        (assign v key path inner).map fun inner => ms.put k (.table origin inner)
      else none
    | some (.tables items) =>
      match items.getLast?, path with
      | some inner, _ :: _ =>
        (assign v key path inner).map fun inner => ms.put k (.tables (items.dropLast ++ [inner]))
      | _, _ => none
    | some _ => none

def assignAll (pairs : List (Key × Value)) (ms : Members) : Option Members :=
  pairs.foldlM (fun ms (key, v) => assign v key.last key.parents ms) ms

/-- Changes the value of a key whose parents are tables within these members. Parents that are
missing are made, and of the tables of a repeated header the last one is meant. -/
def place (change : Option Value → Option Value) (key : String) :
    List String → Members → Option Members
  | [], ms => (change (ms.lookup key)).map fun v => ms.put key v
  | k :: path, ms =>
    match ms.lookup k with
    | none => (place change key path []).map fun inner => ms.put k (.table .parent inner)
    | some (.table origin inner) =>
      if origin = .closed then none
      else (place change key path inner).map fun inner => ms.put k (.table origin inner)
    | some (.tables items) =>
      match items.getLast? with
      | some inner =>
        (place change key path inner).map fun inner =>
          ms.put k (.tables (items.dropLast ++ [inner]))
      | none => none
    | some _ => none

/-- The table of a header with the pairs below it. One that was made as a parent is completed; any
other that is there already may not be defined again. -/
def tableOf (pairs : List (Key × Value)) : Option Value → Option Value
  | none => (assignAll pairs []).map (.table .header)
  | some (.table .parent inner) => (assignAll pairs inner).map (.table .header)
  | some _ => none

def tablesOf (pairs : List (Key × Value)) : Option Value → Option Value
  | none => (assignAll pairs []).map fun inner => .tables [inner]
  | some (.tables items) => (assignAll pairs []).map fun inner => .tables (items ++ [inner])
  | some _ => none

end Toolpath.Toml
