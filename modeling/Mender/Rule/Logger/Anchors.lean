import Mender.Text.Scan
import Mender.Text.Word

/-!
# Anchors in a class

The places of a source text that a logger is attached to are found by their shape: the header of a
class, the brace that closes its body, import directives, read-only fields and constructors.
-/

namespace Mender.Rule.Logger

/-- The character that opens a block. -/
def openBrace : Char := '\x7b'

/-- The character that closes a block. -/
def closeBrace : Char := '\x7d'

/-- The offset of the brace that closes a block, at a place inside it with `depth` inner blocks
open. -/
def closingBrace? : (depth : Nat) → Text → Option Nat
  | _, [] => none
  | depth, c :: t =>
    if c = openBrace then (closingBrace? (depth + 1) t).map (· + 1)
    else if c = closeBrace then
      match depth with
      | 0 => some 0
      | depth + 1 => (closingBrace? depth t).map (· + 1)
    else (closingBrace? depth t).map (· + 1)

/-- What the header of a class says: its name, and all that stands between the name and the
brace. -/
structure ClassHeader where
  name : Text
  bases : Text
deriving DecidableEq, Repr

/-- Whether a class is a controller, by its own name or by what it is derived from. -/
def ClassHeader.isController (h : ClassHeader) : Bool :=
  ("Controller" : Text).isSuffixOf h.name || Text.occurs "Controller" h.bases

/-- The words that may stand between `public` and `class`. -/
def modifiers : List Text := ["sealed", "partial", "abstract"]

/-- What follows one modifier and the blanks behind it. -/
def afterModifier? (t : Text) : Option Text :=
  modifiers.findSome? fun m => (Text.after? m t).bind Text.afterBlanks?

/-- What follows at most `n` modifiers. -/
def skipModifiers : (n : Nat) → Text → Text
  | 0, t => t
  | n + 1, t => match afterModifier? t with
    | none => t
    | some rest => skipModifiers n rest

/-- Reads the header of a public class, through the brace that opens its body. -/
def classHeader : Text.Recognizer ClassHeader := fun t => do
  let t ← (Text.after? "public" t).bind Text.afterBlanks?
  let t ← (Text.after? "class" (skipModifiers t.length t)).bind Text.afterBlanks?
  match t.takeWhile Text.isWord with
  | [] => none
  | name =>
    let (bases, rest) ← Text.splitAt? openBrace (t.dropWhile Text.isWord)
    some (⟨name, bases⟩, rest)

/-- Whether a character can be part of an imported name. -/
def isNamePart (c : Char) : Bool := Text.isWord c || c == '.'

/-- Reads an import directive through its semicolon. -/
def importDirective : Text.Recognizer Unit := fun t => do
  let t ← (Text.after? "using" t).bind Text.afterBlanks?
  let rest ← Text.after? [';'] (Text.trimStart (t.dropWhile isNamePart))
  if t.takeWhile isNamePart = [] then none else some ((), rest)

/-- Whether a character indents a line. -/
def isIndent (c : Char) : Bool := c == ' ' || c == '\t'

/-- Whether a character can be part of a field's type and name. -/
def isDeclarator (c : Char) : Bool :=
  !([';', '=', '(', ')', openBrace, closeBrace, '\n'] : Text).contains c

/-- Reads a read-only field without initial value through its semicolon, and gives its indentation.
A declarator that is blank still needs a blank of its own on the line of the semicolon. -/
def fieldDeclaration : Text.Recognizer Text := fun t => do
  let u ← (Text.after? "private" (t.dropWhile isIndent)).bind Text.afterBlanks?
  let u ← Text.after? "readonly" u
  let blanks := u.takeWhile Text.isBlank
  let declarator := (u.dropWhile Text.isBlank).takeWhile isDeclarator
  let rest ← Text.after? [';'] ((u.dropWhile Text.isBlank).dropWhile isDeclarator)
  let complete :=
    if declarator = [] then 2 ≤ blanks.length ∧ blanks.getLast? ≠ some '\n' else blanks ≠ []
  if complete then some (t.takeWhile isIndent, rest) else none

/-- The head of a constructor: its indentation, the length of all that stands before its parameters,
and the parameters. -/
structure ConstructorHead where
  indent : Text
  lead : Nat
  params : Text
deriving DecidableEq, Repr

/-- Reads the head of a public constructor of the class `name`, through the brace of its body. -/
def constructorHead (name : Text) : Text.Recognizer ConstructorHead := fun t => do
  let u ← (Text.after? "public" (t.dropWhile isIndent)).bind Text.afterBlanks?
  let u ← Text.after? name u
  let u ← Text.after? ['('] (Text.trimStart u)
  let (params, v) ← Text.splitAt? ')' u
  let rest ← Text.after? [openBrace] (Text.trimStart v)
  some (⟨t.takeWhile isIndent, t.length - u.length, params⟩, rest)

end Mender.Rule.Logger
