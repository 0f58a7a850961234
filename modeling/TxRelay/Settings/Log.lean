import TxRelay.Json.Record

/-!
# Log settings

How much is logged and in which form. The level is a filter of its own; components add levels by
name, and a hyphen in a component's name stands for an underscore.
-/

namespace TxRelay

open Json (Codec Field Fields)

/-- The settings of the log (`LogConfig`). -/
structure LogSettings where
  /-- The level, or a filter. -/
  level : String
  /-- The levels of components, sorted by name. -/
  components : List (String × String)
  /-- Whether records are written as JSON. -/
  json : Bool
  deriving DecidableEq, Repr

namespace LogSettings

/-- The settings that hold where none are given. -/
def default : LogSettings := ⟨"info", [], false⟩

/-- The codec of log settings; each may be left out. -/
def codec : Codec LogSettings :=
  .record "LogConfig"
    (.cons (.defaulted "level" .text default.level) <|
      .cons (.defaulted "components" (.map .text) default.components) <|
      .cons (.defaulted "json" .flag default.json) .nil)
    (fun (level, components, json, _) => ⟨level, components, json⟩)
    (fun s => (s.level, s.components, s.json, ()))

/-- The name of a component in a filter. -/
def target (component : String) : String :=
  component.map fun c => if c = '-' then '_' else c

/-- The directives of the filter (`directives`): the level and then the components. -/
def directives (s : LogSettings) : String :=
  s.components.foldl (fun text (component, level) => s!"{text},{target component}={level}") s.level

end LogSettings

end TxRelay
