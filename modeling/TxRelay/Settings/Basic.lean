import TxRelay.Json.Record

/-!
# Settings

Which agents are called and how hard they are pushed. Every setting may be left out of a settings
text; whether the values make sense is checked apart from reading them.

Results:
* `validate_eq_ok_iff`: settings are valid when there is an agent and neither limit is zero.
-/

namespace TxRelay

open Json (Codec Field Fields)

/-- The settings of a relay (`FanoutConfig`). -/
structure Settings where
  /-- The addresses of the agents, in the order in which they are served. -/
  agents : List String
  /-- How many requests may wait for an agent. -/
  queueCapacity : UInt64
  /-- How long a call may take, in milliseconds. -/
  callTimeout : UInt64
  deriving DecidableEq, Repr

/-- Why there are no settings to work with (`ConfigError`). -/
inductive SettingsError where
  | io (reason : String)
  | parse (error : Json.Error)
  | invalid (reason : String)
  deriving DecidableEq, Repr

/-- The text of an error. -/
def SettingsError.message : SettingsError → String
  | io reason => s!"IO error reading config: {reason}"
  | parse error => s!"Config parse error: {error.message}"
  | invalid reason => s!"Invalid config: {reason}"

namespace Settings

/-- The settings that hold where none are given (`default`). -/
def default : Settings := ⟨[], 100, 5000⟩

/-- The fields of settings; each may be left out. -/
def fields :=
  Fields.cons (.defaulted "agents" (.list .text) default.agents) <|
    .cons (.defaulted "queue_capacity" .size default.queueCapacity) <|
    .cons (.defaulted "call_timeout_ms" .word default.callTimeout) .nil

/-- Settings of their fields. -/
def ofParts : List String × UInt64 × UInt64 × Unit → Settings
  | (agents, queueCapacity, callTimeout, _) => ⟨agents, queueCapacity, callTimeout⟩

/-- The fields of settings. -/
def parts (s : Settings) : List String × UInt64 × UInt64 × Unit :=
  (s.agents, s.queueCapacity, s.callTimeout, ())

/-- The codec of settings. -/
def codec : Codec Settings :=
  .record "FanoutConfig" fields ofParts parts

/-- Reads settings from a text (`from_json`). -/
def read (text : String) : Except SettingsError Settings :=
  match codec.read text with
  | .ok s => .ok s
  | .error e => .error (.parse e)

/-- Checks that settings can be worked with (`validate`). -/
def validate (s : Settings) : Except SettingsError Unit :=
  if s.agents.isEmpty then .error (.invalid "at least one agent address is required")
  else if s.queueCapacity = 0 then
    .error (.invalid "queue_capacity must be greater than zero")
  else if s.callTimeout = 0 then
    .error (.invalid "call_timeout_ms must be greater than zero")
  else .ok ()

theorem validate_eq_ok_iff (s : Settings) :
    s.validate = .ok () ↔ s.agents ≠ [] ∧ s.queueCapacity ≠ 0 ∧ s.callTimeout ≠ 0 := by
  rw [validate]
  split
  next h => simp_all
  next h =>
    split
    next hq => simp [hq]
    next hq =>
      split
      next ht => simp [ht]
      next ht => simp_all

end Settings

end TxRelay
