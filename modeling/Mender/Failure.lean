import Mender.FileTree.Basic
import Mender.Settings.Basic

/-!
# Failures

What can go wrong with a file or with a whole run, as causes. The wording of each is given once.
-/

namespace Mender

/-- What lies behind a failure. -/
inductive Cause where
  /-- An operation on the file tree was refused. -/
  | refused (e : FileError)
  /-- A file that should hold text does not. -/
  | notText
  /-- Something other than a regular file is where a backup should be. -/
  | notRegular
  /-- A directory could not be listed. -/
  | scan (path : Path) (e : FileError)
deriving DecidableEq, Repr

namespace Cause

/-- The text of a cause. -/
def message : Cause → Text
  | .refused e => e.message
  | .notText => "stream did not contain valid UTF-8"
  | .notRegular => "backup path is not a regular file"
  | .scan path e => "IO error for operation on " ++ path.text ++ ": " ++ e.message

/-- The texts of a cause and of what lies behind it in turn. -/
def chain : Cause → List Text
  | .scan path e => [(Cause.scan path e).message, e.message]
  | c => [c.message]

end Cause

/-- What can go wrong. -/
inductive Failure where
  /-- A file could not be read or written, or a root not be searched. -/
  | filesystem (path : Path) (cause : Cause)
  /-- A backup could not be made. -/
  | backup (path : Path) (cause : Cause)
  /-- The settings are refused. -/
  | settings (e : SettingsFault)
deriving DecidableEq, Repr

namespace Failure

/-- The text of a failure. -/
def message : Failure → Text
  | .filesystem path c => "Filesystem error on " ++ path.text ++ ": " ++ c.message
  | .backup path c => "Backup failed for " ++ path.text ++ ": " ++ c.message
  | .settings e => "Configuration error: " ++ e.message

/-- Whether a failure is that of a backup. -/
def isBackup : Failure → Bool
  | .backup _ _ => true
  | _ => false

/-- The texts of a failure and of what lies behind it in turn. -/
def chain : Failure → List Text
  | .filesystem path c => (Failure.filesystem path c).message :: c.chain
  | .backup path c => (Failure.backup path c).message :: c.chain
  | .settings e => [(Failure.settings e).message]

end Failure

end Mender
