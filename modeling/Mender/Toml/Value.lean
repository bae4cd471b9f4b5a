import Mender.Text.Basic

/-!
# Values of a TOML document

A table remembers how it came about, because that decides whether a later line may add to it.
-/

namespace Mender.Toml

/-- How a table came about. -/
inductive TableKind where
  /-- By a header of its own, or as the document itself. -/
  | headed
  /-- By the header of a table inside it. -/
  | implied
  /-- By a dotted key. -/
  | dotted
  /-- As a value between braces. -/
  | inline
deriving DecidableEq, Repr

/-- A value of a document. Numbers and dates are kept as they are written. -/
inductive Value where
  | string (text : Text)
  | boolean (b : Bool)
  | integer (text : Text)
  | float (text : Text)
  | datetime (text : Text)
  | array (items : List Value)
  /-- The tables that headers in double brackets have listed. -/
  | tables (items : List Value)
  | table (kind : TableKind) (entries : List (Text × Value))

/-- The entries of a table, in the order of their definition. -/
abbrev Entries := List (Text × Value)

namespace Entries

/-- The value of a key. -/
def get? (key : Text) (es : Entries) : Option Value := List.lookup key es

/-- Sets the value of a key that may be there already. -/
def set (key : Text) (v : Value) : Entries → Entries
  | [] => [(key, v)]
  | (k, w) :: es => if k = key then (k, v) :: es else (k, w) :: set key v es

end Entries

/-- Replaces the last item of a list by what `f` makes of it. -/
def updateLast? (f : Value → Option Value) : List Value → Option (List Value)
  | [] => none
  | [v] => (f v).map ([·])
  | v :: w :: vs => (updateLast? f (w :: vs)).map (v :: ·)

/-- Changes the table at the end of a path by `change`, which is told its kind. Missing tables on
the way are made, as of a dotted key or as implied. Of a list of tables the last one counts. A
dotted key does not go through a table with a header, and nothing goes through other values. -/
def within (dotted : Bool) (change : TableKind → Entries → Option Entries) :
    (path : List Text) → TableKind → Entries → Option Entries
  | [], kind, es => change kind es
  | key :: path, _, es =>
    let into : Value → Option Value := fun
      | .table kind inner => (within dotted change path kind inner).map (.table kind)
      | _ => none
    match es.get? key with
    | none =>
      (into (.table (if dotted then .dotted else .implied) [])).map fun v => es ++ [(key, v)]
    | some (.table kind inner) =>
      if kind = .inline ∨ (dotted ∧ kind = .headed) then none
      else (into (.table kind inner)).map fun v => es.set key v
    | some (.tables items) => (updateLast? into items).map fun vs => es.set key (.tables vs)
    | some _ => none

/-- Adds a pair with the dotted key `path` and `key` to a table. Each key has one value, and a table
that came about in another way is not added to by a dotted key. -/
def addPair (path : List Text) (key : Text) (v : Value) (kind : TableKind) (es : Entries) :
    Option Entries :=
  within true (fun kind es =>
    if (kind = .dotted ↔ path = []) ∨ (es.get? key).isSome then none
    else some (es ++ [(key, v)])) path kind es

/-- Makes the table of a header: new, or by giving an implied one its header. -/
def addTable (key : Text) (es : Entries) : Option Entries :=
  match es.get? key with
  | none => some (es ++ [(key, .table .headed [])])
  | some (.table .implied inner) => some (es.set key (.table .headed inner))
  | some _ => none

/-- Appends an empty table to the list of a header in double brackets. -/
def appendTable (key : Text) (es : Entries) : Option Entries :=
  match es.get? key with
  | none => some (es ++ [(key, .tables [.table .headed []])])
  | some (.tables items) => some (es.set key (.tables (items ++ [.table .headed []])))
  | some _ => none

end Mender.Toml
