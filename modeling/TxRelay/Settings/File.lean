import TxRelay.Settings.Basic
import TxRelay.Settings.Log

/-!
# The settings file

A settings file holds the settings of the relay and, as one more member, those of the log. It is an
object. Its members are gone through once: the log settings are read where they stand, and any other
member must be a value; the settings of the relay are then read from those other members.
-/

namespace TxRelay

open Json (Codec Members Origin)

/-- What a settings file holds (`AppConfig`). -/
structure SettingsFile where
  settings : Settings
  log : LogSettings
  deriving DecidableEq, Repr

namespace SettingsFile

/-- The contents where there is no file. -/
def default : SettingsFile := ⟨.default, .default⟩

/-- The name of the log settings. -/
def logName : String := "log"

/-- Takes the log settings out of members; those that are left have been checked to be values. -/
def takeLog (origin : Origin) (depth : Nat) (log : Option LogSettings) :
    Members → Except Json.Error (Option LogSettings × Members)
  | .close => .ok (log, .close)
  | .stop f => .error (.fault f)
  | .noName used _ => .error (.fault used)
  | .more none _ _ => .error (.fault .malformed)
  | .more (some name) tree rest =>
    if name = logName then
      match log with
      | some _ => .error (.duplicateField logName)
      | none => do
        let log ← LogSettings.codec.decode origin depth tree
        takeLog origin depth (some log) rest
    else do
      let _ ← tree.free depth
      let (log, others) ← takeLog origin depth log rest
      return (log, .more (some name) tree others)

/-- Reads the members of a settings file. -/
def ofMembers (origin : Origin) (depth : Nat) (members : Members) :
    Except Json.Error SettingsFile := do
  let (log, others) ← takeLog origin depth none members
  let parts ← Settings.fields.ofMembers origin depth Settings.fields.noSlots others
  return ⟨Settings.ofParts parts, log.getD .default⟩

/-- The codec of settings files. -/
def codec : Codec SettingsFile where
  decode origin depth tree :=
    match tree with
    | .object members => Json.descend depth fun depth => ofMembers origin depth members
    | tree => .error (tree.mismatch "struct AppConfig")
  encode f :=
    .object (Settings.fields.members f.settings.parts ++ [(logName, LogSettings.codec.encode f.log)])

end SettingsFile

end TxRelay
