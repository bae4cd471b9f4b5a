import Mender.Rule.Pipeline

/-!
# Settings

The settings of a run: which rules are on, which files they are for, and how backups are named and
when they are taken. Settings under which a backup could land on its own source are refused.
-/

namespace Mender

/-- When a source file is backed up. -/
inductive BackupTiming where
  /-- Before any rule is applied, even if nothing ends up changing. -/
  | always
  /-- Only if its text is about to change. -/
  | onChange
deriving DecidableEq, Repr

/-- The name of a backup timing in configuration files. -/
def BackupTiming.key : BackupTiming → Text
  | .always => "always"
  | .onChange => "on_change"

/-- The backup timing with a given name. -/
def BackupTiming.ofKey? (k : Text) : Option BackupTiming :=
  [BackupTiming.always, .onChange].find? (·.key = k)

/-- What a backup adds to the name of its source unless settings say otherwise. -/
def defaultBackupSuffix : Text := ".backup_critical"

/-- Which files a run is about, and how they are backed up. -/
structure BatchSettings where
  /-- The extensions of source files, without the dot. -/
  extensions : List Text := ["cs"]
  /-- The endings of file names that are never sources. -/
  excludedSuffixes : List Text := [defaultBackupSuffix, ".backup", ".bak", ".disabled"]
  backupSuffix : Text := defaultBackupSuffix
  backupTiming : BackupTiming := .always
  /-- Whether directories inside the root are searched too. -/
  recursive : Bool := false
deriving DecidableEq, Repr

/-- All settings. -/
structure Settings where
  rules : RuleSwitches := {}
  batch : BatchSettings := {}
deriving DecidableEq, Repr

/-- Why settings are refused. -/
inductive SettingsFault where
  | emptySuffix
  | separatorInSuffix (suffix : Text)
  | noExtensions
deriving DecidableEq, Repr

/-- What is wrong with refused settings. -/
def SettingsFault.message : SettingsFault → Text
  | .emptySuffix => "backup_suffix must not be empty"
  | .separatorInSuffix s => "backup_suffix must not contain a path separator: " ++ s
  | .noExtensions => "extensions must list at least one extension"

namespace BatchSettings

/-- All endings of file names that are never sources: the excluded ones and that of backups. -/
def nonSourceSuffixes (b : BatchSettings) : List Text :=
  if b.backupSuffix ∈ b.excludedSuffixes then b.excludedSuffixes
  else b.excludedSuffixes ++ [b.backupSuffix]

/-- Checks that backups get names of their own beside their sources, and that some extension is
listed. -/
def check (b : BatchSettings) : Except SettingsFault Unit :=
  if b.backupSuffix = [] then .error .emptySuffix
  else if '/' ∈ b.backupSuffix ∨ '\\' ∈ b.backupSuffix then
    .error (.separatorInSuffix b.backupSuffix)
  else if b.extensions = [] then .error .noExtensions
  else .ok ()

/-- The ending of backups is never that of a source. -/
theorem backupSuffix_mem_nonSourceSuffixes (b : BatchSettings) :
    b.backupSuffix ∈ b.nonSourceSuffixes := by
  unfold nonSourceSuffixes
  split <;> simp_all

end BatchSettings

end Mender
