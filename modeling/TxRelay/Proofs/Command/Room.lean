import TxRelay.Proofs.Command.Startup
import TxRelay.Proofs.Settings.Agreement
import TxRelay.Proofs.Wire.RoundTrip

/-!
# Room for the queues

Settings are checked for a queue capacity of zero, which the relay would not mind, as it makes room
for one request at least. They are not checked for a capacity that is too great: no queue has more
room than an eighth of what a word can count, and a relay that asks for more breaks down when it
makes its queues. The seven capacities in eight above that bound can be written into a settings file
and given as an argument like any other.

Results:
* `SettingsFile.read_write`: all settings can be written into a text.
* `Starts.breaksDown`, `Starts.ends`: how a run ends whose stages all succeed.
* `room_decides`: valid settings are carried out if there is that much room, and else break the run.
* `valid_without_room`: valid settings that no relay is started with.
-/

namespace TxRelay

/-! ## The settings -/

/-- A settings file can say all settings there are, and is a text of these settings. -/
theorem SettingsFile.read_write (s : Settings) :
    let text := SettingsFile.codec.write ⟨s, .default⟩
    Settings.read text = .ok s ∧ SettingsFile.codec.read text = .ok ⟨s, .default⟩ := by
  intro text
  have read : SettingsFile.codec.read text = .ok ⟨s, .default⟩ :=
    (SettingsFile.keeps (f := ⟨s, .default⟩) .nil).recovers
  obtain ⟨ms, object⟩ := SettingsFile.exists_object read
  exact ⟨((SettingsFile.read_eq_ok_iff object).1 read).2.2, read⟩

namespace Command.Run

variable {w : World} {options : RunOptions} {s : Settings} {es : List Endpoint}
  {numbered : List Feed.Lines.Numbered}

/-- A valid capacity is greater than zero. -/
theorem capacity_pos (valid : s.validate = .ok ()) : 0 < s.queueCapacity.toNat := by
  have nonzero := ((Settings.validate_eq_ok_iff s).1 valid).2.1
  exact Nat.pos_of_ne_zero fun zero => nonzero (UInt64.toNat_inj.1 zero)

/-! ## The run -/

/-- Whether the relay of a run is started is decided by the capacity. -/
theorem Starts.launch_eq (starts : Starts w options s es numbered) :
    Relay.launch (setup w s es numbered) false =
      if Relay.greatestRoom < s.queueCapacity.toNat then .error .noRoom
      else .ok (.start (setup w s es numbered) false) := by
  have served := endpoints_ne_nil starts.valid starts.endpoints_eq
  exact Relay.launch_of_agents (mt List.map_eq_nil_iff.1 served) false

theorem Starts.breaksDown (starts : Starts w options s es numbered)
    (noRoom : Relay.greatestRoom < s.queueCapacity.toNat) (level : Option String) (json : Bool) :
    BrokenDown (run w options level json) := by
  cases starts.relayed level json with
  | ended launched =>
    cases launched.symm.trans (starts.launch_eq.trans (if_pos noRoom))
  | brokenDown _ report => exact report

theorem code_relayEnding (result : Except RunError Relay.Summary) :
    (relayEnding result).code = 0 ∨ (relayEnding result).code = 1 := by
  unfold relayEnding
  split
  · exact .inl rfl
  · exact .inl rfl
  · exact .inr rfl

theorem Starts.ends (starts : Starts w options s es numbered)
    (room : s.queueCapacity.toNat ≤ Relay.greatestRoom) (level : Option String) (json : Bool) :
    (run w options level json).code = 0 ∨ (run w options level json).code = 1 := by
  cases starts.relayed level json with
  | ended _ _ _ _ _ _ reports =>
    rw [reports.code]
    exact code_relayEnding _
  | brokenDown refused =>
    cases refused.symm.trans (starts.launch_eq.trans (if_neg (not_lt.2 room)))

/-- Whether settings that were found valid, with what the arguments say in place of what a text
says, can be carried out depends on their queue capacity. Up to the greatest room of a queue a relay
with any agents is started with just that room, and a run that gets there ends well or names its
failure. Above it no relay with agents is started, and a run that gets there breaks down. -/
theorem room_decides {s : Settings} {options : RunOptions}
    (valid : (merge s options).validate = .ok ()) :
    let capacity := (merge s options).queueCapacity.toNat
    (∀ (setup : Relay.Setup) (signal : Bool), setup.capacity = capacity → setup.agents ≠ [] →
      setup.room = capacity ∧ Relay.launch setup signal =
        if capacity ≤ Relay.greatestRoom then .ok (.start setup signal) else .error .noRoom) ∧
    ∀ w es numbered level json, Starts w options (merge s options) es numbered →
      (capacity ≤ Relay.greatestRoom →
        (run w options level json).code = 0 ∨ (run w options level json).code = 1) ∧
      (Relay.greatestRoom < capacity → BrokenDown (run w options level json)) := by
  intro capacity
  have pos : 0 < capacity := capacity_pos valid
  refine ⟨fun setup signal same agents => ⟨?_, ?_⟩, fun w es numbered level json starts => ?_⟩
  · rw [Relay.Setup.room, same]
    exact max_eq_left pos
  · rw [Relay.launch_of_agents agents, same]
    split_ifs <;> first | rfl | omega
  · exact ⟨fun room => starts.ends room level json,
      fun noRoom => starts.breaksDown noRoom level json⟩

/-- A run in a world whose agents are all reached, with one agent and a queue capacity from the command line. -/
def spaciousOptions (capacity : UInt64) : RunOptions :=
  ⟨none, ["scanner-1"], some capacity, none, defaultConnectTimeout, "-"⟩

theorem starts_spacious (capacity : UInt64) (pos : capacity ≠ 0) :
    Starts openWorld (spaciousOptions capacity) (merge .default (spaciousOptions capacity))
      [⟨.http, "scanner-1", 50051, ""⟩] [] where
  merged := ⟨.default, .default rfl, rfl⟩
  valid :=
    have timely : (5000 : UInt64) ≠ 0 := by decide
    (Settings.validate_eq_ok_iff _).2 ⟨List.cons_ne_nil _ _, pos, timely⟩
  addresses := by
    have parsed : Endpoint.parse "scanner-1" = .ok ⟨.http, "scanner-1", 50051, ""⟩ := by
      decide +kernel
    exact .cons parsed .nil
  reachable _ _ := rfl
  opened := rfl

/-- The greatest capacity that can be carried out, and the next one. -/
theorem room_decides_openWorld :
    let least := spaciousOptions 2305843009213693951
    let great := spaciousOptions 2305843009213693952
    (merge .default least).validate = .ok () ∧ (merge .default great).validate = .ok () ∧
      ((run openWorld least none false).code = 0 ∨ (run openWorld least none false).code = 1) ∧
      BrokenDown (run openWorld great none false) := by
  intro least great
  have within := starts_spacious 2305843009213693951 (by decide)
  have beyond := starts_spacious 2305843009213693952 (by decide)
  refine ⟨within.valid, beyond.valid, ?_, ?_⟩
  · exact ((room_decides within.valid).2 openWorld _ _ none false within).1 (by decide)
  · exact ((room_decides beyond.valid).2 openWorld _ _ none false beyond).2 (by decide)

/-- Settings that ask for one more than that. -/
def greedy : Settings := ⟨["scanner-1"], 2305843009213693952, 5000⟩

/-- A settings file that says so. -/
def greedyText : String :=
  "\x7b\"agents\":[\"scanner-1\"],\"queue_capacity\":2305843009213693952," ++
    "\"call_timeout_ms\":5000,\"log\":\x7b\"level\":\"info\",\"components\":\x7b\x7d," ++
    "\"json\":false\x7d\x7d"

theorem write_greedy : SettingsFile.codec.write ⟨greedy, .default⟩ = greedyText := by
  cbv

/-- These settings can be read from a text in both ways and are valid, but no relay with agents is
started with them. -/
theorem valid_without_room :
    Settings.read greedyText = .ok greedy ∧
      SettingsFile.codec.read greedyText = .ok ⟨greedy, .default⟩ ∧
      greedy.validate = .ok () ∧ ∀ (setup : Relay.Setup) (signal : Bool),
        setup.capacity = greedy.queueCapacity.toNat → setup.agents ≠ [] →
          Relay.launch setup signal = .error .noRoom := by
  obtain ⟨settings, file⟩ := SettingsFile.read_write greedy
  rw [write_greedy] at settings file
  refine ⟨settings, file, by decide +kernel, fun setup signal same agents => ?_⟩
  have noRoom : Relay.greatestRoom < setup.capacity := by
    rw [same]
    decide
  rw [Relay.launch_of_agents agents, if_pos noRoom]

end Command.Run

end TxRelay
