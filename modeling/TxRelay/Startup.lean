import TxRelay.Endpoint
import TxRelay.Files
import TxRelay.Settings.File

/-!
# Startup

What has to succeed before the relay runs: settings are read from a file, every address is an
endpoint, and every endpoint can be reached. The first failure in the order of the addresses is the
one reported.

Results:
* `endpoint_eq_ok_iff`: an address has the endpoint that it is parsed to, and no other.
-/

namespace TxRelay

/-- Why the relay cannot start (`StartupError`). -/
inductive StartupError where
  | address (text reason : String)
  | connect (url reason : String)
  | settings (error : SettingsError)
  deriving DecidableEq, Repr

/-- The text of an error. -/
def StartupError.message : StartupError → String
  | address text reason => s!"Invalid agent address '{text}': {reason}"
  | connect url reason => s!"Could not connect to agent {url}: {reason}"
  | settings error => s!"Configuration error: {error.message}"

namespace Startup

/-- The endpoint of an address, or the error that `parse` reports. -/
def endpoint (address : String) : Except StartupError Endpoint :=
  match Endpoint.parse address with
  | .ok e => .ok e
  | .error fault => .error (.address address fault.message)

/-- The endpoints of addresses (`endpoints`). -/
def endpoints (addresses : List String) : Except StartupError (List Endpoint) :=
  addresses.mapM endpoint

/-- Connects to endpoints in their order, up to the first that cannot be reached (`connect_all`): the
connections that were made, and why that one was not. `connect` says what it is to connect to one. -/
def connectAll {m : Type → Type} [Monad m] {α : Type} (connect : Endpoint → m (Except String α)) :
    List Endpoint → m (List (Endpoint × α) × Option StartupError)
  | [] => pure ([], none)
  | e :: rest => do
    match ← connect e with
    | .error reason => return ([], some (.connect e.url reason))
    | .ok connection =>
      let (connected, fault) ← connectAll connect rest
      return ((e, connection) :: connected, fault)

/-- Reaches endpoints in their order, each of which may fail for a reason. -/
def reachAll (probe : Endpoint → Except String Unit) (es : List Endpoint) :
    Except StartupError (List Endpoint) :=
  match Id.run (connectAll (fun e => pure (probe e)) es) with
  | (connected, none) => .ok (connected.map Prod.fst)
  | (_, some fault) => .error fault

/-- Reads settings from a file (`from_file`). -/
def settings (file : Files.Found) : Except SettingsError Settings :=
  match file.text with
  | .ok text => Settings.read text
  | .error reason => .error (.io reason)

theorem endpoint_eq_ok_iff {address : String} {e : Endpoint} :
    endpoint address = .ok e ↔ Endpoint.parse address = .ok e := by
  rw [endpoint]
  cases Endpoint.parse address <;> simp

end Startup

end TxRelay
