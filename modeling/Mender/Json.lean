import Mender.Text.Basic

/-!
# JSON values

The values that machine-readable reports are made of, and their text: two blanks of indentation a
level, one item or member a line, and nothing between the brackets of an empty array or object.
-/

namespace Mender

/-- A JSON value with whole numbers. -/
inductive Json where
  | null
  | bool (b : Bool)
  | number (n : Nat)
  | string (t : Text)
  | array (items : List Json)
  | object (members : List (Text × Json))

namespace Json

/-- A hexadecimal digit in lower case. -/
def hexDigit (n : Nat) : Char := Nat.digitChar n

/-- A character inside quotes. Quotes, backslashes and control characters are escaped, and nothing
else is. -/
def escapeChar (c : Char) : Text :=
  if c = '"' then ['\\', '"']
  else if c = '\\' then ['\\', '\\']
  else if c = '\x08' then ['\\', 'b']
  else if c = '\t' then ['\\', 't']
  else if c = '\n' then ['\\', 'n']
  else if c = '\x0c' then ['\\', 'f']
  else if c = '\r' then ['\\', 'r']
  else if c.toNat < 0x20 then
    ['\\', 'u', '0', '0', hexDigit (c.toNat / 16), hexDigit (c.toNat % 16)]
  else [c]

/-- A text in quotes. -/
def quote (t : Text) : Text := '"' :: t.flatMap escapeChar ++ ['"']

/-- A new line at an indentation level. -/
def newLine (level : Nat) : Text := '\n' :: List.replicate (2 * level) ' '

mutual

/-- The text of a value at an indentation level. -/
def render (level : Nat) : Json → Text
  | .null => "null"
  | .bool true => "true"
  | .bool false => "false"
  | .number n => Text.ofNat n
  | .string t => quote t
  | .array [] => "[]"
  | .array (j :: js) =>
    ['['] ++ newLine (level + 1) ++ render (level + 1) j ++ renderItems (level + 1) js ++
      newLine level ++ [']']
  | .object [] => "\x7b\x7d"
  | .object ((k, j) :: ms) =>
    ['\x7b'] ++ newLine (level + 1) ++ quote k ++ ": " ++ render (level + 1) j ++
      renderMembers (level + 1) ms ++ newLine level ++ ['\x7d']

/-- The text of the items of an array behind the first one. -/
def renderItems (level : Nat) : List Json → Text
  | [] => []
  | j :: js => [','] ++ newLine level ++ render level j ++ renderItems level js

/-- The text of the members of an object behind the first one. -/
def renderMembers (level : Nat) : List (Text × Json) → Text
  | [] => []
  | (k, j) :: ms =>
    [','] ++ newLine level ++ quote k ++ ": " ++ render level j ++ renderMembers level ms

end

/-- The text of a value on lines of its own. -/
def pretty (j : Json) : Text := render 0 j

end Json

end Mender
