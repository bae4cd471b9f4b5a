import Mender.Text.Scan

/-!
# Strings, numbers and dates

The readers of this module follow the grammar of TOML 1.0 for everything that is written without
brackets or braces. Each one reads at the front of a text and gives what follows.
-/

namespace Mender.Toml

open Mender.Text (Recognizer after?)

/-- Whether a character is a blank within a line. -/
def isSpace (c : Char) : Bool := c == ' ' || c == '\t'

/-- What follows the blanks at the front. -/
def skipSpace (t : Text) : Text := t.dropWhile isSpace

/-- Whether a character may stand in a comment: all but control characters, and the tab. -/
def isPrintable (c : Char) : Bool := c == '\t' || (0x20 ≤ c.toNat && c.toNat ≠ 0x7F)

/-- What follows a newline, with or without carriage return. -/
def afterNewline? : Text → Option Text
  | '\n' :: t => some t
  | '\r' :: '\n' :: t => some t
  | _ => none

/-- What follows a comment, up to the end of its line. -/
def skipComment : Text → Text
  | '#' :: t => t.dropWhile isPrintable
  | t => t

/-- What follows the rest of a line that holds at most a comment. -/
def afterLine? (t : Text) : Option Text :=
  match skipComment (skipSpace t) with
  | [] => some []
  | t => afterNewline? t

/-- What follows blanks, comments and newlines, at most `n` of them. -/
def skipLayout : (n : Nat) → Text → Text
  | 0, t => t
  | n + 1, t =>
    let u := skipComment (skipSpace t)
    match afterNewline? u with
    | some v => skipLayout n v
    | none => u

/-- The value of a hexadecimal digit. -/
def hexDigit? (c : Char) : Option Nat :=
  if c.isDigit then some (c.toNat - '0'.toNat)
  else if 'a' ≤ c ∧ c ≤ 'f' then some (c.toNat - 'a'.toNat + 10)
  else if 'A' ≤ c ∧ c ≤ 'F' then some (c.toNat - 'A'.toNat + 10)
  else none

/-- Reads the character whose code point is written with `n` hexadecimal digits. -/
def codePoint (n : Nat) : Recognizer Char := fun t =>
  let digits := t.take n
  match digits.mapM hexDigit? with
  | none => none
  | some ds =>
    let code := ds.foldl (fun acc d => 16 * acc + d) 0
    if ds.length = n ∧ code.isValidChar then some (Char.ofNat code, t.drop n) else none

/-- Reads what stands behind a backslash. -/
def escape : Recognizer Char
  | 'b' :: t => some ('\x08', t)
  | 't' :: t => some ('\t', t)
  | 'n' :: t => some ('\n', t)
  | 'f' :: t => some ('\x0c', t)
  | 'r' :: t => some ('\r', t)
  | '"' :: t => some ('"', t)
  | '\\' :: t => some ('\\', t)
  | 'u' :: t => codePoint 4 t
  | 'U' :: t => codePoint 8 t
  | _ => none

/-- Reads the rest of a string in double quotes, of at most `n` characters. -/
def basicTail : (n : Nat) → Recognizer Text
  | 0, _ => none
  | _ + 1, [] => none
  | _ + 1, '"' :: t => some ([], t)
  | n + 1, '\\' :: t => do
    let (c, t) ← escape t
    let (cs, t) ← basicTail n t
    some (c :: cs, t)
  | n + 1, c :: t =>
    if isPrintable c then (basicTail n t).map fun (cs, t) => (c :: cs, t) else none

/-- Reads a string in double quotes. -/
def basicString : Recognizer Text
  | '"' :: t => basicTail (t.length + 1) t
  | _ => none

/-- Reads a string in single quotes. -/
def literalString : Recognizer Text
  | '\'' :: t =>
    let body := t.takeWhile fun c => isPrintable c && c ≠ '\''
    match t.drop body.length with
    | '\'' :: t => some (body, t)
    | _ => none
  | _ => none

/-- What follows blanks and newlines behind a newline. -/
def skipBlankLines : (n : Nat) → Text → Text
  | 0, t => t
  | n + 1, t => match afterNewline? (skipSpace t) with
    | some u => skipBlankLines n u
    | none => skipSpace t

/-- Reads the rest of a string in triple quotes `q`, of at most `n` characters. Up to two quotes may
stand in it, also before the closing ones. With `escapes` on, a backslash begins an escape, or joins
its line to the next text. -/
def multilineTail (q : Char) (escapes : Bool) : (n : Nat) → Recognizer Text
  | 0, _ => none
  | _ + 1, [] => none
  | n + 1, c :: t =>
    if c = q then
      let quotes := (c :: t).takeWhile (· == q)
      let rest := (c :: t).drop quotes.length
      if quotes.length < 3 then
        (multilineTail q escapes n rest).map fun (cs, t) => (quotes ++ cs, t)
      else if quotes.length ≤ 5 then some (quotes.drop 3, rest)
      else none
    else if escapes ∧ c = '\\' then
      match afterNewline? (skipSpace t) with
      | some u => multilineTail q escapes n (skipBlankLines u.length u)
      | none => do
        let (c, t) ← escape t
        let (cs, t) ← multilineTail q escapes n t
        some (c :: cs, t)
    else match afterNewline? (c :: t) with
      | some u => (multilineTail q escapes n u).map fun (cs, t) => ('\n' :: cs, t)
      | none =>
        if isPrintable c then (multilineTail q escapes n t).map fun (cs, t) => (c :: cs, t)
        else none

/-- Reads a string in triple quotes `q`; a newline right behind the opening quotes is no part of
it. -/
def multilineString (q : Char) (escapes : Bool) : Recognizer Text := fun t => do
  let t ← after? [q, q, q] t
  multilineTail q escapes (t.length + 1) ((afterNewline? t).getD t)

/-- Reads a string of any of the four kinds. -/
def string : Recognizer Text := fun t =>
  if (['"', '"', '"'] : Text).isPrefixOf t then multilineString '"' true t
  else if (['\'', '\'', '\''] : Text).isPrefixOf t then multilineString '\'' false t
  else (basicString t).or (literalString t)

/-- Reads digits with single underscores between them; gives the digits. -/
def digitRun (isDigit : Char → Bool) : Recognizer Text
  | [] => none
  | c :: t =>
    if isDigit c then
      match digitRun isDigit t with
      | some (ds, rest) => some (c :: ds, rest)
      | none => match t with
        | '_' :: u => (digitRun isDigit u).map fun (ds, rest) => (c :: ds, rest)
        | _ => some ([c], t)
    else none

/-- Reads an optional sign; says whether it is a minus. -/
def sign : Text → Bool × Text
  | '+' :: t => (false, t)
  | '-' :: t => (true, t)
  | t => (false, t)

/-- Reads decimal digits that have no leading zero, unless zero is all they are. -/
def wholeDigits : Recognizer Text
  | '0' :: t => some (['0'], t)
  | t => digitRun Char.isDigit t

/-- The number that digits of a base spell. -/
def numberOf (base : Nat) (ds : Text) : Nat :=
  ds.foldl (fun acc c => base * acc + (hexDigit? c).getD 0) 0

/-- The least number that is too large for a signed word of 64 bits. -/
def wordLimit : Nat := 0x8000000000000000

/-- Reads a whole number that fits a signed word of 64 bits, and says whether it is below zero. -/
def integer : Recognizer (Bool × Nat) := fun t =>
  let based (base : Nat) (isDigit : Char → Bool) (u : Text) : Option ((Bool × Nat) × Text) := do
    let (ds, rest) ← digitRun isDigit u
    if numberOf base ds < wordLimit then some ((false, numberOf base ds), rest) else none
  match t with
  | '0' :: 'x' :: u => based 16 (fun c => (hexDigit? c).isSome) u
  | '0' :: 'o' :: u => based 8 (fun c => '0' ≤ c && c ≤ '7') u
  | '0' :: 'b' :: u => based 2 (fun c => c == '0' || c == '1') u
  | _ => do
    let (minus, u) := sign t
    let (ds, rest) ← wholeDigits u
    let n := numberOf 10 ds
    if n < wordLimit ∨ (minus ∧ n = wordLimit) then some ((minus, n), rest) else none

/-- Whether `digits` times ten to the power `exponent` is too large for a double: at least half a
unit above the largest one. -/
def overflows (digits : Text) (exponent : Int) : Bool :=
  let m := numberOf 10 digits
  let magnitude : Int := (Nat.toDigits 10 m).length + exponent
  let bound := Nat.pow 2 1024 - Nat.pow 2 970
  if m = 0 ∨ magnitude < 308 then false
  else if 310 < magnitude then true
  else if 0 ≤ exponent then bound ≤ m * Nat.pow 10 exponent.toNat
  else bound * Nat.pow 10 (-exponent).toNat ≤ m

/-- Reads an exponent. -/
def exponent : Recognizer Int
  | c :: t =>
    if c = 'e' ∨ c = 'E' then do
      let (minus, t) := sign t
      let (ds, rest) ← digitRun Char.isDigit t
      let n : Int := numberOf 10 ds
      some (if minus then -n else n, rest)
    else none
  | [] => none

/-- Reads a number with a fraction, an exponent or both, or one of the special numbers. A number
above all doubles is refused. -/
def float : Recognizer Unit := fun t => do
  let (minus, u) := sign t
  match (after? "inf" u).or (after? "nan" u) with
  | some rest => some ((), rest)
  | none =>
    let (whole, u) ← wholeDigits u
    let (fraction, u) ← match u with
      | '.' :: v => (digitRun Char.isDigit v).map fun (ds, rest) => (some ds, rest)
      | _ => some (none, u)
    let (power, rest) := match exponent u with
      | some (e, rest) => (some e, rest)
      | none => (none, u)
    if fraction.isNone ∧ power.isNone then none
    let ds := fraction.getD []
    if !minus && overflows (whole ++ ds) (power.getD 0 - ds.length) then none
    else some ((), rest)

/-- Reads a number of exactly `n` digits between two bounds. -/
def fixedDigits (n lo hi : Nat) : Recognizer Nat := fun t =>
  let ds := t.take n
  if ds.length = n ∧ ds.all Char.isDigit ∧ lo ≤ numberOf 10 ds ∧ numberOf 10 ds ≤ hi then
    some (numberOf 10 ds, t.drop n)
  else none

/-- How many days a month has. -/
def daysIn (year month : Nat) : Nat :=
  if month = 2 then
    if year % 4 = 0 ∧ (year % 100 ≠ 0 ∨ year % 400 = 0) then 29 else 28
  else if [4, 6, 9, 11].contains month then 30 else 31

/-- Reads a date. -/
def date : Recognizer Unit := fun t => do
  let (year, t) ← fixedDigits 4 0 9999 t
  let t ← after? ['-'] t
  let (month, t) ← fixedDigits 2 1 12 t
  let t ← after? ['-'] t
  let (_, t) ← fixedDigits 2 1 (daysIn year month) t
  some ((), t)

/-- Reads a time of day. -/
def time : Recognizer Unit := fun t => do
  let (_, t) ← fixedDigits 2 0 23 t
  let t ← after? [':'] t
  let (_, t) ← fixedDigits 2 0 59 t
  let t ← after? [':'] t
  let (_, t) ← fixedDigits 2 0 60 t
  match t with
  | '.' :: u =>
    let rest := u.dropWhile Char.isDigit
    if rest.length < u.length then some ((), rest) else none
  | _ => some ((), t)

/-- Reads the distance of a time zone. -/
def zone : Recognizer Unit
  | 'Z' :: t => some ((), t)
  | 'z' :: t => some ((), t)
  | c :: t =>
    if c = '+' ∨ c = '-' then do
      let (_, t) ← fixedDigits 2 0 23 t
      let t ← after? [':'] t
      let (_, t) ← fixedDigits 2 0 59 t
      some ((), t)
    else none
  | [] => none

/-- Reads a time that follows a date, with its time zone if there is one. -/
def timeOfDate : Recognizer Unit
  | c :: t =>
    if c = 'T' ∨ c = 't' ∨ c = ' ' then do
      let (_, t) ← time t
      some ((zone t).getD ((), t))
    else none
  | [] => none

/-- Reads a date, a time of day, or both together. -/
def datetime : Recognizer Unit := fun t =>
  match date t with
  | some (_, u) => some ((timeOfDate u).getD ((), u))
  | none => time t

/-- Whether a character may stand in a key without quotes. -/
def isBareKey (c : Char) : Bool := c.isAlphanum || c == '_' || c == '-'

/-- Reads one part of a key. -/
def keyPart : Recognizer Text := fun t =>
  match t with
  | '"' :: _ => basicString t
  | '\'' :: _ => literalString t
  | _ =>
    let bare := t.takeWhile isBareKey
    if bare = [] then none else some (bare, t.drop bare.length)

/-- Reads a dotted key of at most `n` parts, with the blanks around its parts. -/
def keyParts : (n : Nat) → Recognizer (List Text)
  | 0, _ => none
  | n + 1, t => do
    let (part, t) ← keyPart (skipSpace t)
    match skipSpace t with
    | '.' :: t => (keyParts n t).map fun (parts, t) => (part :: parts, t)
    | t => some ([part], t)

/-- How deep keys and values may be nested. -/
def nestingLimit : Nat := 79

/-- Reads a dotted key: the tables that it goes through, and the name in the last one. -/
def key : Recognizer (List Text × Text) := fun t =>
  match keyParts nestingLimit t with
  | some (parts, rest) => parts.getLast?.map fun last => ((parts.dropLast, last), rest)
  | none => none

end Mender.Toml
