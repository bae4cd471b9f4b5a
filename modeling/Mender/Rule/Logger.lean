import Mender.Rule.Basic
import Mender.Rule.Logger.Anchors

/-!
# Logger injection

A controller that prints to the console receives a logger: an import, a field, a constructor
parameter and the assignment of the one to the other. All places are located in the text as it
stands before anything is inserted; if one of them is missing or ambiguous, nothing is.
-/

namespace Mender.Rule.Logger

/-- The import that the logger's type needs. -/
def importLine : Text := "using Microsoft.Extensions.Logging;"

/-- A text to insert at a character offset. -/
structure Splice where
  offset : Nat
  text : Text
deriving DecidableEq, Repr

/-- Inserts all texts at their offsets in the given text, the last offset first, so that no
insertion moves the place of another; of two with the same offset, the later of the list comes out
in front. -/
def Splice.applyAll (places : List Splice) (t : Text) : Text :=
  (places.mergeSort fun a b => b.offset ≤ a.offset).foldl
    (fun t s => Text.insertAt s.offset s.text t) t

/-- A controller: its name, and the offset just behind the brace that opens its body. -/
structure Controller where
  name : Text
  inside : Nat
deriving DecidableEq, Repr

/-- The first controller that a text declares. -/
def firstController? (t : Text) : Option Controller :=
  ((Text.scan .anywhere classHeader t).find? (·.value.isController)).map
    fun o => ⟨o.value.name, o.stop⟩

/-- A place that a logger cannot be attached to. -/
inductive MissingPlace where
  | closingBrace (name : Text)
  | field
  | constructor (name : Text)
  | singleConstructor (name : Text)
deriving DecidableEq, Repr

/-- Names a missing place in a report. -/
def MissingPlace.describe : MissingPlace → Text
  | .closingBrace name => "closing brace of " ++ name
  | .field => "private readonly field"
  | .constructor name => "constructor of " ++ name
  | .singleConstructor name => "single constructor of " ++ name

/-- The type of the logger of a class. -/
def loggerType (name : Text) : Text := "ILogger<" ++ name ++ ['>']

/-- The text between the braces of a controller. -/
def body (t : Text) (c : Controller) : Except MissingPlace Text :=
  let rest := t.drop c.inside
  match closingBrace? 0 rest with
  | none => .error (.closingBrace c.name)
  | some stop => .ok (rest.take stop)

/-- The import goes behind the last import directive, or to the top of a text that has none; a text
that has the import already gets none. -/
def importSplice (t : Text) : List Splice :=
  if Text.occurs importLine t then []
  else match (Text.scan .lineStart importDirective t).getLast? with
    | some last => [⟨last.stop, Text.newline t ++ importLine⟩]
    | none => [⟨0, importLine ++ Text.newline t⟩]

/-- The field goes on a line of its own behind the last read-only field of the body. -/
def fieldSplice (nl name body : Text) : Except MissingPlace Splice :=
  match (Text.scan .lineStart fieldDeclaration body).getLast? with
  | none => .error .field
  | some last =>
    .ok ⟨last.stop, nl ++ last.value ++ "private readonly " ++ loggerType name ++ " _logger;"⟩

/-- The one constructor of the body. -/
def soleConstructor (name body : Text) :
    Except MissingPlace (Text.Occurrence ConstructorHead) :=
  match Text.scan .lineStart (constructorHead name) body with
  | [] => .error (.constructor name)
  | [only] => .ok only
  | _ => .error (.singleConstructor name)

/-- The parameter goes behind the last parameter, or into the empty list. -/
def parameterSplice (name : Text) (c : Text.Occurrence ConstructorHead) : Splice :=
  let start := c.start + c.value.lead
  match Text.trimEnd c.value.params with
  | [] => ⟨start, loggerType name ++ " logger"⟩
  | params => ⟨start + params.length, ", " ++ loggerType name ++ " logger"⟩

/-- The assignment becomes the first statement of the constructor. -/
def assignmentSplice (nl : Text) (c : Text.Occurrence ConstructorHead) : Splice :=
  ⟨c.stop, nl ++ c.value.indent ++ "    _logger = logger;"⟩

/-- An insertion into the body of a controller as one into the whole text. -/
def Splice.inBodyOf (c : Controller) (s : Splice) : Splice :=
  { s with offset := c.inside + s.offset }

/-- Locates every place that the logger of a controller is attached to. -/
def splices (t : Text) (c : Controller) : Except MissingPlace (List Splice) := do
  let nl := Text.newline t
  let b ← body t c
  let field ← fieldSplice nl c.name b
  let ctor ← soleConstructor c.name b
  return importSplice t ++
    [field, parameterSplice c.name ctor, assignmentSplice nl ctor].map (·.inBodyOf c)

/-- Gives the first controller of a text a logger, if the text prints to the console and has
none. -/
def apply (t : Text) : Outcome :=
  if !Text.occurs "Console.WriteLine" t then .abstained .nothingToDo
  else if Text.occurs "_logger" t || Text.occurs "ILogger" t then .abstained .alreadyDone
  else match firstController? t with
    | none => .abstained (.notApplicable "no controller class")
    | some c => match splices t c with
      | .error missing => .abstained (.noPlace missing.describe)
      | .ok places => .edited (Splice.applyAll places t) 1

end Mender.Rule.Logger
