import TxRelay.Text.Utf8

/-!
# Files

What a path leads to, and the reasons for which it cannot be read.
-/

namespace TxRelay.Files

open TxRelay.Text

/-- What a path leads to. -/
inductive Found where
  /-- Nothing that can be opened, for a reason. -/
  | refused (reason : String)
  | directory
  | bytes (content : List UInt8)
  deriving DecidableEq, Repr

/-- A path that leads nowhere. -/
def Found.missing : Found := .refused "No such file or directory (os error 2)"

/-- A path that leads on from a file. -/
def Found.beyondFile : Found := .refused "Not a directory (os error 20)"

/-- A path that must not be read. -/
def Found.forbidden : Found := .refused "Permission denied (os error 13)"

/-- Why a directory cannot be read. -/
def directoryReason : String := "Is a directory (os error 21)"

/-- The text that is found (`read_to_string`), or the reason why there is none. -/
def Found.text : Found → Except String String
  | refused reason => .error reason
  | directory => .error directoryReason
  | bytes content =>
    match Utf8.decode content with
    | .ok cs => .ok (String.ofList cs)
    | .error _ => .error "stream did not contain valid UTF-8"

end TxRelay.Files
