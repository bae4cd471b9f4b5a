import Mender.Failure
import Mender.FileTree.Access
import Mender.Settings.Decode

/-!
# Configuration files

Where settings are read from: a file that is named, the file of the project, or the file of the
user, whichever comes first; without any of them the defaults hold.
-/

namespace Mender.Settings

/-- Why a configuration file could not be used or made. -/
inductive FileFault where
  | unreadable (path : Path) (cause : Cause)
  | malformed (path : Path)
  | noDirectory (path : Path) (e : FileError)
  | unwritable (path : Path) (e : FileError)
deriving DecidableEq, Repr

namespace FileFault

/-- What failed. -/
def message : FileFault → Text
  | .unreadable path _ => "Failed to read config file: " ++ path.text
  | .malformed path => "Failed to parse config file: " ++ path.text
  | .noDirectory path _ => "Failed to create directory: " ++ path.text
  | .unwritable path _ => "Failed to write config file: " ++ path.text

/-- What lies behind it. -/
def causes : FileFault → List Text
  | .unreadable _ c => c.chain
  | .malformed _ => []
  | .noDirectory _ e => [e.message]
  | .unwritable _ e => [e.message]

end FileFault

/-- Reads settings from a file. -/
def read (tree : FileTree) (p : Path) : Except FileFault Settings :=
  match tree.read p with
  | .error e => .error (.unreadable p (.refused e))
  | .ok bytes => match Text.ofBytes? bytes with
    | none => .error (.unreadable p .notText)
    | some t => match parse? t with
      | none => .error (.malformed p)
      | some s => .ok s

/-- The configuration file of a project, in its working directory. -/
def projectFile : Path := "critfix.toml"

/-- The configuration file of a user, by the home directory. -/
def userFile (home : Path) : Path := ((home.join ".config").join "critfix").join "config.toml"

/-- The settings of a run: from the file that is named, else from the first configuration file there
is, else the defaults. -/
def inForce (tree : FileTree) (home : Option Path) (named : Option Path) :
    Except FileFault Settings :=
  match named with
  | some p => read tree p
  | none =>
    match (projectFile :: (home.map userFile).toList).find? tree.pathExists with
    | some p => read tree p
    | none => .ok {}

/-- Makes the directory that a configuration file goes to. -/
def makeParent (tree : FileTree) (p : Path) : FileTree × Except FileFault Unit :=
  match p.parent? with
  | none => (tree, .ok ())
  | some dir =>
    let (tree, made) := tree.createDirectories dir
    (tree, made.mapError (.noDirectory dir))

/-- Writes a configuration file with the default settings, and makes the directories on the way. -/
def writeDefault (tree : FileTree) (p : Path) : FileTree × Except FileFault Unit :=
  match makeParent tree p with
  | (tree, .error f) => (tree, .error f)
  | (tree, .ok ()) => match tree.write p defaultFile.toBytes with
    | .ok tree => (tree, .ok ())
    | .error e => (tree, .error (.unwritable p e))

end Mender.Settings
