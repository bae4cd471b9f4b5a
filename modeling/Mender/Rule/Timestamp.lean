import Mender.Rule.Basic

/-!
# Universal timestamps

Reading the local clock becomes reading the universal clock, wherever it is written.
-/

namespace Mender.Rule.Timestamp

/-- The property that reads the local clock. -/
def localClock : Text := "DateTime.Now"

/-- The property that reads the universal clock. -/
def universalClock : Text := "DateTime.UtcNow"

/-- Replaces each reading of the local clock. -/
def apply (t : Text) : Outcome :=
  match Text.count localClock t with
  | 0 => .abstained .nothingToDo
  | n + 1 => .edited (Text.replace localClock universalClock t) (n + 1)

end Mender.Rule.Timestamp
