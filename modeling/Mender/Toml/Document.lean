import Mender.Toml.Scalar
import Mender.Toml.Value

/-!
# TOML documents

A document is a sequence of lines: headers, which choose the table that follows, and pairs, which
add to it. A document is well formed when every line is, and when no line defines a key or a table
a second time.
-/

namespace Mender.Toml

open Mender.Text (Recognizer after?)

/-- Reads a value without brackets and braces. -/
def scalar : Recognizer Value := fun t =>
  let written (rest : Text) : Text := t.take (t.length - rest.length)
  match t with
  | '"' :: _ => (string t).map fun (s, rest) => (.string s, rest)
  | '\'' :: _ => (string t).map fun (s, rest) => (.string s, rest)
  | 't' :: _ => (after? "true" t).map fun rest => (.boolean true, rest)
  | 'f' :: _ => (after? "false" t).map fun rest => (.boolean false, rest)
  | _ =>
    ((datetime t).map fun (_, rest) => (.datetime (written rest), rest)).or <|
    ((float t).map fun (_, rest) => (.float (written rest), rest)).or <|
    (integer t).map fun (_, rest) => (.integer (written rest), rest)

/-- Reads the rest of an array of at most `n` items. -/
def arrayTail (item : Recognizer Value) : (n : Nat) → Recognizer (List Value)
  | 0, _ => none
  | n + 1, t =>
    match skipLayout (t.length + 1) t with
    | ']' :: rest => some ([], rest)
    | t => do
      let (v, t) ← item t
      match skipLayout (t.length + 1) t with
      | ',' :: t => (arrayTail item n t).map fun (vs, rest) => (v :: vs, rest)
      | ']' :: rest => some ([v], rest)
      | _ => none

/-- Reads a key, the equals sign and a value. -/
def pair (value : Recognizer Value) : Recognizer (List Text × Text × Value) := fun t => do
  let ((path, name), t) ← key t
  let t ← after? ['='] (skipSpace t)
  let (v, t) ← value (skipSpace t)
  some ((path, name, v), skipSpace t)

/-- Reads the rest of a table between braces of at most `n` more pairs. -/
def inlineTail (value : Recognizer Value) : (n : Nat) → Entries → Recognizer Entries
  | 0, _, _ => none
  | n + 1, es, t => do
    let ((path, name, v), t) ← pair value t
    let es ← addPair path name v .inline es
    match t with
    | ',' :: t => inlineTail value n es t
    | '\x7d' :: rest => some (es, rest)
    | _ => none

/-- Reads a value with at most `depth` levels of brackets and braces. -/
def value : (depth : Nat) → Recognizer Value
  | 0 => fun t => match t with
    | '[' :: _ => none
    | '\x7b' :: _ => none
    | _ => scalar t
  | depth + 1 => fun t => match t with
    | '[' :: t => (arrayTail (value depth) (t.length + 1) t).map fun (vs, rest) => (.array vs, rest)
    | '\x7b' :: t =>
      match skipSpace t with
      | '\x7d' :: rest => some (.table .inline [], rest)
      | t => (inlineTail (value depth) (t.length + 1) [] t).map
          fun (es, rest) => (.table .inline es, rest)
    | _ => scalar t

/-- A line of a document. -/
inductive Statement where
  /-- Begins a table. -/
  | table (path : List Text) (name : Text)
  /-- Begins a further table of a list. -/
  | listed (path : List Text) (name : Text)
  /-- Adds a pair to the table begun last. -/
  | pair (path : List Text) (name : Text) (value : Value)

/-- Reads a header up to the given closing brackets. -/
def header (closing : Text) : Recognizer (List Text × Text) := fun t => do
  let (k, t) ← key t
  let t ← after? closing (skipSpace t)
  some (k, t)

/-- Reads a line that is not blank. -/
def statement : Recognizer Statement := fun t =>
  match t with
  | '[' :: '[' :: t =>
    (header [']', ']'] t).map fun ((path, name), rest) => (.listed path name, rest)
  | '[' :: t => (header [']'] t).map fun ((path, name), rest) => (.table path name, rest)
  | t => (pair (value nestingLimit) t).map
      fun ((path, name, v), rest) => (.pair path name v, rest)

/-- Reads a document of at most `n` lines. -/
def statements : (n : Nat) → Text → Option (List Statement)
  | 0, _ => none
  | n + 1, t =>
    match skipLayout (t.length + 1) t with
    | [] => some []
    | t => do
      let (s, t) ← statement t
      let t ← afterLine? t
      (statements n t).map (s :: ·)

/-- A document under construction: its entries, and where the table begun last is. -/
structure Draft where
  entries : Entries := []
  current : List Text := []

/-- Carries out one line. -/
def Draft.add (d : Draft) : Statement → Option Draft
  | .table path name => do
    let es ← within false (fun _ => addTable name) path .headed d.entries
    some ⟨es, path ++ [name]⟩
  | .listed path name => do
    let es ← within false (fun _ => appendTable name) path .headed d.entries
    some ⟨es, path ++ [name]⟩
  | .pair path name v => do
    let es ← within false (addPair path name v) d.current .headed d.entries
    some { d with entries := es }

/-- Reads a document, which may begin with a byte-order mark. -/
def parse (t : Text) : Option Entries := do
  let t := match t with
    | '\uFEFF' :: t => t
    | t => t
  let lines ← statements (t.length + 1) t
  let d ← lines.foldlM Draft.add {}
  some d.entries

end Mender.Toml
