import Mender.Rule.Basic
import Mender.Path

/-!
# Invocations

What the arguments of the program ask for. Options may stand before and after the command. A long
option takes its value from the next argument or behind an equals sign; short options may be written
together, and the last of them may have its value attached. Behind two dashes nothing is an option.
-/

namespace Mender.Command

/-- How reports are written. -/
inductive Format where
  | text
  | json
  | markdown
deriving DecidableEq, Repr

/-- The format with a given name. -/
def Format.ofName? (n : Text) : Option Format :=
  ([("text", .text), ("json", .json), ("markdown", .markdown)] : List (Text × Format)).lookup n

/-- The options of the program. -/
inductive Opt where
  | verbose
  | format
  | config
  | version
  | dryRun
  | recursive
  | enable
  | disable
  | yes
  | force
deriving DecidableEq, Repr

namespace Opt

/-- The long name of an option, behind two dashes. -/
def long : Opt → Text
  | .verbose => "verbose"
  | .format => "format"
  | .config => "config"
  | .version => "version"
  | .dryRun => "dry-run"
  | .recursive => "recursive"
  | .enable => "enable"
  | .disable => "disable"
  | .yes => "yes"
  | .force => "force"

/-- The letter of an option, behind one dash. -/
def short? : Opt → Option Char
  | .verbose => some 'v'
  | .format => some 'f'
  | .config => some 'c'
  | .version => some 'V'
  | .dryRun => some 'n'
  | .recursive => some 'r'
  | .enable => some 'e'
  | .disable => some 'd'
  | .yes => none
  | .force => none

/-- Whether an option may be given more than once. -/
def isRepeatable : Opt → Bool
  | .enable => true
  | .disable => true
  | _ => false

/-- Which values an option takes, if it takes one. -/
def accepts? : Opt → Option (Text → Bool)
  | .format => some fun v => (Format.ofName? v).isSome
  | .config => some fun v => !v.isEmpty
  | .enable => some fun v => (Rule.ofName? v).isSome
  | .disable => some fun v => (Rule.ofName? v).isSome
  | _ => none

/-- The options that may stand with every command. -/
def shared : List Opt := [.verbose, .format, .config]

end Opt

/-- The commands of the program. -/
inductive Verb where
  | run
  | restore
  | init
deriving DecidableEq, Repr

namespace Verb

/-- The command with a given name. -/
def ofName? (n : Text) : Option Verb :=
  ([("run", .run), ("restore", .restore), ("init", .init)] : List (Text × Verb)).lookup n

/-- The options of a command. -/
def options : Verb → List Opt
  | .run => [.dryRun, .recursive, .enable, .disable] ++ Opt.shared
  | .restore => [.recursive, .yes] ++ Opt.shared
  | .init => [.force] ++ Opt.shared

end Verb

/-- Why arguments do not come to a command. -/
inductive Halt where
  /-- They make no sense. -/
  | usage
  /-- They ask for the version. -/
  | version
deriving DecidableEq, Repr

/-- The options given so far, the latest first, each with its value. -/
abbrev Given := List (Opt × Text)

namespace Given

/-- Whether an option was given. -/
def has (g : Given) (o : Opt) : Bool := g.any (·.1 = o)

/-- The values of an option, the earliest first. -/
def values (g : Given) (o : Opt) : List Text := ((g.filter (·.1 = o)).map (·.2)).reverse

/-- Adds an option without value. -/
def addFlag (g : Given) (o : Opt) : Except Halt Given :=
  if o = .version then .error .version
  else if g.has o then .error .usage
  else .ok ((o, []) :: g)

/-- Adds an option with its value. -/
def addValue (g : Given) (o : Opt) (accepts : Text → Bool) (v : Text) : Except Halt Given :=
  if !accepts v ∨ (g.has o ∧ !o.isRepeatable) then .error .usage else .ok ((o, v) :: g)

end Given

/-- What an argument is, by its spelling. -/
inductive Argument where
  /-- Two dashes. -/
  | separator
  /-- A long option, with the value behind an equals sign. -/
  | long (name : Text) (value : Option Text)
  /-- The letters behind one dash. -/
  | shorts (letters : Text)
  /-- Anything else. -/
  | plain (t : Text)

/-- Tells what an argument is. -/
def Argument.ofText : Text → Argument
  | ['-', '-'] => .separator
  | '-' :: '-' :: t =>
    .long (t.takeWhile (· ≠ '=')) ((t.dropWhile (· ≠ '=')).tail?)
  | ['-'] => .plain ['-']
  | '-' :: t => .shorts t
  | t => .plain t

/-- An option that still waits for its value. -/
structure Awaiting where
  option : Opt
  accepts : Text → Bool

/-- Reads letters behind one dash: options without value, and at the end perhaps one with its value
or without it yet. -/
def readShorts (allowed : List Opt) : Given → Text → Except Halt (Given × Option Awaiting)
  | g, [] => .ok (g, none)
  | g, c :: cs =>
    match allowed.find? (·.short? = some c) with
    | none => .error .usage
    | some o => match o.accepts? with
      | none => do readShorts allowed (← g.addFlag o) cs
      | some accepts => match cs with
        | [] => .ok (g, some ⟨o, accepts⟩)
        | '=' :: v => return (← g.addValue o accepts v, none)
        | v => return (← g.addValue o accepts v, none)

/-- Reads one argument that is an option. -/
def readLong (allowed : List Opt) (g : Given) (name : Text) (value : Option Text) :
    Except Halt (Given × Option Awaiting) :=
  match allowed.find? (·.long = name) with
  | none => .error .usage
  | some o => match o.accepts?, value with
    | none, none => return (← g.addFlag o, none)
    | none, some _ => .error .usage
    | some accepts, none => .ok (g, some ⟨o, accepts⟩)
    | some accepts, some v => return (← g.addValue o accepts v, none)

/-- What was read of a sequence of arguments: the options, the plain arguments, and what is left to
read behind the first plain one, if reading stopped there. -/
structure Reading where
  given : Given
  plain : List Text
  rest : List Text := []

/-- Reads arguments in order. With `stopAtPlain` the first plain argument ends the reading. -/
def readArguments (allowed : List Opt) (stopAtPlain : Bool) :
    Option Awaiting → Given → (plain : List Text) → List Text → Except Halt Reading
  | none, g, plain, [] => .ok ⟨g, plain, []⟩
  | some _, _, _, [] => .error .usage
  | waiting, g, plain, a :: as =>
    match waiting, Argument.ofText a with
    | some w, .plain v => do
      readArguments allowed stopAtPlain none (← g.addValue w.option w.accepts v) plain as
    | some _, _ => .error .usage
    | none, .plain v =>
      if stopAtPlain then .ok ⟨g, plain ++ [v], as⟩
      else readArguments allowed stopAtPlain none g (plain ++ [v]) as
    | none, .separator =>
      if stopAtPlain then .error .usage else .ok ⟨g, plain ++ as, []⟩
    | none, .long name value => do
      let (g, waiting) ← readLong allowed g name value
      readArguments allowed stopAtPlain waiting g plain as
    | none, .shorts letters => do
      let (g, waiting) ← readShorts allowed g letters
      readArguments allowed stopAtPlain waiting g plain as

/-- What a run is asked to do. -/
structure RunRequest where
  path : Path
  dryRun : Bool
  recursive : Bool
  enable : List Rule
  disable : List Rule
deriving DecidableEq, Repr

/-- What a restore is asked to do. -/
structure RestoreRequest where
  path : Path
  recursive : Bool
  yes : Bool
deriving DecidableEq, Repr

/-- What the program is asked to do. -/
inductive Request where
  | run (r : RunRequest)
  | restore (r : RestoreRequest)
  | init (path : Path) (force : Bool)
deriving DecidableEq, Repr

/-- A request with the options that stand with every command. -/
structure Invocation where
  request : Request
  format : Format
  config : Option Path
deriving DecidableEq, Repr

/-- The one plain argument of a command, which is a path and not empty. -/
def onePath : List Text → Except Halt Path
  | [p] => if p = [] then .error .usage else .ok ⟨p⟩
  | _ => .error .usage

/-- Reads the arguments of the program. An option given behind the command wins over the same one
before it. -/
def Invocation.parse (args : List Text) : Except Halt Invocation := do
  let outer ← readArguments (.version :: Opt.shared) true none [] [] args
  match outer.plain with
  | [name] =>
    match Verb.ofName? name with
    | none => throw .usage
    | some verb =>
      let inner ← readArguments verb.options false none [] [] outer.rest
      let g := inner.given
      let shared := g ++ outer.given
      let request ← match verb with
        | .run => do
          pure (.run {
            path := ← onePath inner.plain
            dryRun := g.has .dryRun
            recursive := g.has .recursive
            enable := (g.values .enable).filterMap Rule.ofName?
            disable := (g.values .disable).filterMap Rule.ofName? })
        | .restore => do
          pure (.restore {
            path := ← onePath inner.plain
            recursive := g.has .recursive
            yes := g.has .yes })
        | .init => do
          let path ← if inner.plain = [] then pure ⟨"critfix.toml".toList⟩ else onePath inner.plain
          pure (.init path (g.has .force))
      return {
        request
        format := ((shared.lookup .format).bind Format.ofName?).getD .text
        config := (shared.lookup .config).map Path.mk }
  | _ => throw .usage

end Mender.Command
