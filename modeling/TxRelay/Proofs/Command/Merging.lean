import TxRelay.Proofs.Command.Startup
import TxRelay.Proofs.Text.Utf8
import TxRelay.Proofs.Wire.RoundTrip
import TxRelay.Proofs.Wire.Tolerance

/-!
# Arguments in place of a settings file

What the arguments of a run, or its environment, say of the settings replaces what the settings
file says, setting by setting. The file could as well have said it: a run with a file that holds the
outcome, and without these arguments and without the environment, leaves the same report. What the
file said of a setting that is replaced does not count, whether it makes sense or not.

Results:
* `SettingsFile.ascending_of_read`: the components of a settings file that was read are sorted.
* `merge_merged`: the settings and the log settings of a run are those of the merged file.
* `withSettings_withFile`: what a run does with its settings has nothing to do with other files.
* `run_as_merged`: a run with arguments is a run with the merged file.
-/

namespace TxRelay

open TxRelay.Except

/-! ## A settings file that was read can be written -/

namespace Json

theorem ascending_of_decodeEntries {α : Type} {value : Tree → Except Error α}
    {entries : List (String × α)} :
    ∀ {members : Members} {done : List (String × α)}, Ascending done →
      Codec.decodeEntries value done members = .ok entries → Ascending entries
  | .close, _, sorted, read => by
    cases read
    exact sorted
  | .stop _, _, _, read | .noName _ _, _, _, read | .more none _ _, _, _, read => by cases read
  | .more (some name) tree rest, done, sorted, read => by
    obtain ⟨a, -, others⟩ := bind_eq_ok_iff.1 read
    exact ascending_of_decodeEntries (ascending_insertSorted sorted) others

end Json

open Json (Ascending Members Origin Tree)

theorem LogSettings.ascending_of_decode {origin : Origin} {depth : ℕ} {tree : Tree}
    {log : LogSettings} (read : LogSettings.codec.decode origin depth tree = .ok log) :
    Ascending log.components := by
  obtain ⟨inner, ⟨level, components, json, _⟩, -, rfl, -, reads, -⟩ :=
    Json.reads_of_decode (by decide) read
  generalize tree.place _ _ = place at reads
  match place, reads with
  | [], reads =>
    cases reads
    exact .nil
  | [value], reads =>
    cases value with
    | object members =>
      obtain ⟨_, -, opened⟩ := Json.descend_eq_ok reads
      exact Json.ascending_of_decodeEntries .nil opened
    | null | bool | number | string | array | broken => cases reads

namespace SettingsFile

/-- The log settings that are taken out were decoded. -/
theorem decode_of_takeLog {origin : Origin} {depth : ℕ} {log : LogSettings} :
    ∀ {members others : Members} {before : Option LogSettings},
      takeLog origin depth before members = .ok (some log, others) →
        before = some log ∨ ∃ tree, LogSettings.codec.decode origin depth tree = .ok log
  | .close, _, _, taken => by
    cases taken
    exact .inl rfl
  | .stop _, _, _, taken | .noName _ _, _, _, taken | .more none _ _, _, _, taken => by cases taken
  | .more (some name) tree rest, others, before, taken => by
    by_cases isLog : name = logName
    · subst isLog
      obtain ⟨l, -, decoded, rest⟩ := takeLog_log.1 taken
      rcases decode_of_takeLog rest with same | decodes
      · cases same
        exact .inr ⟨tree, decoded⟩
      · exact .inr decodes
    · obtain ⟨-, left, rest, -⟩ := (takeLog_other isLog).1 taken
      exact decode_of_takeLog rest

/-- The components of a settings file that was read are sorted. -/
theorem ascending_of_read {text : String} {file : SettingsFile}
    (read : SettingsFile.codec.read text = .ok file) : Ascending file.log.components := by
  have decoded := Json.decode_of_read read
  generalize (Json.Document.read text.toList).tree = tree at decoded
  cases tree with
  | object members =>
    have decoded : Json.descend Json.maxDepth (fun depth => ofMembers .text depth members) =
        .ok file := decoded
    obtain ⟨inner, -, opened⟩ := Json.descend_eq_ok decoded
    simp only [ofMembers, bind_eq_ok_iff] at opened
    obtain ⟨⟨found, others⟩, taken, parts, -, made⟩ := opened
    cases made
    cases found with
    | none => exact .nil
    | some log =>
      obtain ⟨tree, decodes⟩ := (decode_of_takeLog taken).resolve_left nofun
      exact LogSettings.ascending_of_decode decodes
  | null | bool | number | string | array | broken => cases decoded

end SettingsFile

/-! ## What the arguments say -/

namespace Command

/-- A text that is cut has a part. -/
theorem splitOn_ne_nil (text separator : String) : text.splitOn separator ≠ [] := by
  have parts (b i j : String.Pos.Raw) (done : List String) :
      text.splitOnAux separator b i j done ≠ [] := by
    fun_induction String.splitOnAux text separator b i j done <;> simp_all
  rw [String.splitOn]
  split
  · exact List.cons_ne_nil _ _
  · exact parts 0 0 0 []

/-- What the arguments of a run say of settings that a settings file may hold as well. -/
structure Flags where
  agents : Option (List String)
  queueCapacity : Option UInt64
  callTimeout : Option UInt64
  logLevel : Option String
  jsonLogs : Bool

/-- What is said by the arguments before and after the name of the command. -/
def Flags.of (before after : List Given) : Flags where
  agents := if after.any (·.name = "agent") then some (listed after "agent") else none
  queueCapacity := (value? after "queue-capacity").bind number?
  callTimeout := (value? after "call-timeout-ms").bind number?
  logLevel := (value? after "log-level").or (value? before "log-level")
  jsonLogs := (before ++ after).any (·.name = "json-logs")

end Command

/-- A settings file with what arguments say, or else the environment, in place of what it says. -/
def SettingsFile.merged (file : SettingsFile) (environment : Option String)
    (flags : Command.Flags) : SettingsFile where
  settings :=
    { agents := (flags.agents.or (environment.map (·.splitOn ","))).getD file.settings.agents
      queueCapacity := flags.queueCapacity.getD file.settings.queueCapacity
      callTimeout := flags.callTimeout.getD file.settings.callTimeout }
  log :=
    { level := flags.logLevel.getD file.log.level
      components := file.log.components
      json := flags.jsonLogs || file.log.json }

namespace Command

/-- Agents that are listed in arguments are some. -/
theorem listed_ne_nil {given : List Given} {name : String} (any : given.any (·.name = name)) :
    listed given name ≠ [] := by
  obtain ⟨g, mem, named⟩ := List.any_eq_true.1 any
  intro none
  rw [listed, List.flatMap_eq_nil_iff] at none
  exact splitOn_ne_nil _ _ (none g (List.mem_filter.2 ⟨mem, named⟩))

/-- The settings of a run are those of the merged file. -/
theorem merge_merged (file : SettingsFile) (environment : Option String)
    (before after : List Given) :
    Run.merge file.settings (runOptions environment after) =
      (file.merged environment (.of before after)).settings := by
  have replaces {agents : List String} (some : agents ≠ []) :
      (if agents.isEmpty then file.settings.agents else agents) = agents :=
    if_neg (by simpa using some)
  simp only [Run.merge, runOptions, SettingsFile.merged, Flags.of, Settings.mk.injEq, and_true]
  by_cases any : after.any (·.name = "agent")
  case pos => simp only [if_pos any, replaces (listed_ne_nil any), Option.some_or, Option.getD_some]
  case neg =>
    simp only [if_neg any, Option.none_or]
    cases environment with
    | none => rfl
    | some text => exact replaces (splitOn_ne_nil text ",")

/-- The log settings of a run are those of the merged file. -/
theorem logSettings_merged (file : SettingsFile) (environment : Option String)
    (before after : List Given) (action : Action) :
    logSettings file.log (invocation before after action).logLevel
        (invocation before after action).jsonLogs =
      (file.merged environment (.of before after)).log := rfl

/-! ## The world with the merged file -/

/-- A world in which a path leads to a text. -/
def World.withFile (w : World) (path text : String) : World :=
  { w with files := Function.update w.files path (.bytes (Text.Utf8.encode text.toList)) }

/-- A world whose environment does not list agents. -/
def World.withoutAgents (w : World) : World :=
  { w with agents := none }

theorem text_withFile (w : World) (path text : String) :
    ((w.withFile path text).files path).text = .ok text := by
  have found : (w.withFile path text).files path = .bytes (Text.Utf8.encode text.toList) :=
    Function.update_self _ _ _
  rw [found, Files.Found.text, Text.Utf8.decode_eq_ok_iff.2 rfl]
  exact congrArg Except.ok (String.ofList_toList)

/-- A path does not lead to the input. -/
def Apart (path input : String) : Prop :=
  input = standardInput ∨ path ≠ input

theorem open_withFile {path input : String} (apart : Apart path input) (w : World)
    (text : String) : (w.withFile path text).open input = w.open input := by
  rw [World.open, World.open]
  rcases apart with rfl | other
  · rfl
  · have found : (w.withFile path text).files input = w.files input :=
      Function.update_of_ne (Ne.symm other) _ _
    rw [found]
    rfl

/-- What a run does with its settings does not depend on the other files. -/
theorem withSettings_withFile {path input : String} (apart : Apart path input) (w : World)
    (text : String) (s : Settings) :
    Run.withSettings (w.withFile path text) s input = Run.withSettings w s input := by
  have opened : (w.withFile path text).outside.openInput input = w.outside.openInput input :=
    open_withFile apart w text
  simp only [Run.withSettings, Run.stages, Run.serve, opened]
  rfl

theorem withSettings_withoutAgents (w : World) (s : Settings) (input : String) :
    Run.withSettings w.withoutAgents s input = Run.withSettings w s input := rfl

/-! ## Arguments that say nothing of these settings -/

/-- The argument by which a parameter is given a value. -/
def attached (name value : String) : String :=
  "--" ++ name ++ "=" ++ value

theorem toList_attached (name value : String) :
    (attached name value).toList = '-' :: '-' :: (name.toList ++ '=' :: value.toList) := by
  simp [attached]

/-- A parameter that takes a value, and may be given one. -/
structure Takes (parameters : List Parameter) (given : List Given) (p : Parameter)
    (value : String) : Prop where
  found : parameters.find? (fun q => q.name = p.name) = some p
  named : '=' ∉ p.name.toList
  fresh : given.any (·.name = p.name) = false
  accepts : p.kind.accepts value = true

theorem readLong_attached {parameters : List Parameter} {given : List Given} {p : Parameter}
    {value : String} (takes : Takes parameters given p value) :
    readLong parameters given (p.name.toList ++ '=' :: value.toList) =
      .ok (.done (given ++ [⟨p.name, value⟩])) := by
  have plain : ∀ c ∈ p.name.toList, decide (c ≠ '=') = true := fun c mem =>
    decide_eq_true fun same => takes.named (same ▸ mem)
  have name : (p.name.toList ++ '=' :: value.toList).takeWhile (· ≠ '=') = p.name.toList := by
    rw [List.takeWhile_append_of_pos plain, List.takeWhile_cons_of_neg (by simp), List.append_nil]
  have after :
      (p.name.toList ++ '=' :: value.toList).dropWhile (· ≠ '=') = '=' :: value.toList := by
    rw [List.dropWhile_append_of_pos plain, List.dropWhile_cons_of_neg (by simp)]
  have gives : giveValue given p value = .ok (given ++ [⟨p.name, value⟩]) := by
    rw [giveValue, if_pos takes.accepts, give, takes.fresh, Bool.and_false,
      if_neg Bool.false_ne_true]
  have accepts := takes.accepts
  rw [readLong, name, after]
  simp only [String.ofList_toList, takes.found]
  cases kind : p.kind with
  | switch | help =>
    rw [kind] at accepts
    cases accepts
  | text | path | number =>
    simp only [gives]
    rfl

theorem readParameters_attached {parameters : List Parameter} {given : List Given} {p : Parameter}
    {value : String} (takes : Takes parameters given p value) (rest : List String) :
    readParameters parameters given (attached p.name value :: rest) =
      readParameters parameters (given ++ [⟨p.name, value⟩]) rest := by
  have chars := toList_attached p.name value
  have more : attached p.name value ≠ "--" := by
    intro same
    rw [same] at chars
    simp at chars
  have hyphen : canFollow (attached p.name value) = false := by
    have single : attached p.name value ≠ "-" := by
      intro same
      rw [same] at chars
      simp at chars
    have starts : (attached p.name value).startsWith "-" = true := by
      rw [String.startsWith_string_iff, chars]
      exact ⟨_, rfl⟩
    simp [canFollow, single, starts]
  have reads : readArgument parameters given (attached p.name value) =
      .ok (.done (given ++ [⟨p.name, value⟩])) := by
    simp only [readArgument, chars]
    exact readLong_attached takes
  rw [readParameters, if_neg more, if_neg (by simp [hyphen]), reads]

/-- The parameter of a run that names the settings file. -/
def configParameter : Parameter :=
  ⟨"config", some 'c', .path, false⟩

/-- The parameter of a run that says how long connecting may take. -/
def connectTimeoutParameter : Parameter :=
  ⟨"connect-timeout-ms", none, .number, false⟩

/-- A number in digits, without a sign. -/
theorem number?_of_digits {text : String} {c : Char} {rest : List Char} {n : UInt64}
    (chars : text.toList = c :: rest) (digit : ∀ d ∈ c :: rest, d.isDigit = true)
    (value : Nat.ofDigitChars 10 (c :: rest) 0 = n.toNat) : number? text = some n := by
  have unsigned : c ≠ '+' := by
    rintro rfl
    exact absurd (digit _ List.mem_cons_self) (by decide)
  have small : n.toNat < Nat.pow 2 64 := n.toNat_lt
  have all : (c :: rest).all Char.isDigit = true := List.all_eq_true.2 digit
  rw [number?, chars]
  split
  case h_1 signed =>
    cases signed
    exact absurd rfl unsigned
  case h_2 =>
    rw [all, value, if_pos small, UInt64.ofNat_toNat]
    rfl

/-- A number is read back from its digits. -/
theorem number?_toString (n : UInt64) : number? (toString n.toNat) = some n := by
  have chars : (toString n.toNat).toList = Nat.toDigits 10 n.toNat := Nat.toList_repr
  have digit (c : Char) (mem : c ∈ Nat.toDigits 10 n.toNat) : c.isDigit = true :=
    Nat.isDigit_of_mem_toDigits (by decide) (by decide) mem
  have value : Nat.ofDigitChars 10 (Nat.toDigits 10 n.toNat) 0 = n.toNat :=
    Nat.ofDigitChars_ten_toDigits
  cases digits : Nat.toDigits 10 n.toNat with
  | nil => exact absurd digits Nat.toDigits_ne_nil
  | cons c rest =>
    rw [digits] at chars digit value
    exact number?_of_digits chars digit value

/-- What a run is asked for that is told nothing but its settings file, its input and how long
connecting may take. -/
def RunOptions.bare (options : RunOptions) (path : String) : RunOptions :=
  ⟨some path, [], none, none, options.connectTimeout, options.input⟩

/-- There are arguments for that. -/
theorem exists_bare (options : RunOptions) {path : String} (named : path ≠ "") :
    ∃ args, parse none args = .ok ⟨none, false, .run (options.bare path)⟩ := by
  let digits := toString options.connectTimeout.toNat
  let given : List Given :=
    [⟨"config", path⟩, ⟨"connect-timeout-ms", digits⟩, ⟨"input", options.input⟩]
  let rest := [attached configParameter.name path, attached connectTimeoutParameter.name digits,
    attached inputParameter.name options.input]
  have config : Takes runParameters [] configParameter path :=
    ⟨by decide, by decide, rfl, by simpa [ValueKind.accepts, configParameter] using named⟩
  have timeout : Takes runParameters [⟨"config", path⟩] connectTimeoutParameter digits :=
    ⟨by decide, by decide, rfl, Option.isSome_iff_exists.2 ⟨_, number?_toString _⟩⟩
  have input : Takes runParameters [⟨"config", path⟩, ⟨"connect-timeout-ms", digits⟩] inputParameter
      options.input := ⟨by decide, by decide, rfl, rfl⟩
  have read : readParameters runParameters [] rest = .ok (given, []) := by
    calc readParameters runParameters [] rest
        = readParameters runParameters [⟨"config", path⟩] rest.tail :=
          readParameters_attached config _
      _ = readParameters runParameters [⟨"config", path⟩, ⟨"connect-timeout-ms", digits⟩]
            rest.tail.tail := readParameters_attached timeout _
      _ = .ok (given, []) := readParameters_attached input []
  have top : readParameters topParameters [] ("run" :: rest) = .ok ([], "run" :: rest) := by
    have name : canFollow "run" = true := by decide +kernel
    rw [readParameters, if_neg (by decide), if_pos name]
  have asked : runOptions none given = options.bare path := by
    have number : number? digits = some options.connectTimeout := number?_toString _
    simp [runOptions, RunOptions.bare, given, value?, number]
  refine ⟨"run" :: rest, ?_⟩
  rw [parse, top]
  simp only [bind, Except.bind, readRest, read, asked]
  rfl

/-! ## A run with the merged file -/

section Merged

variable {w : World} {args rest : List String} {before given : List Given} {file : SettingsFile}
  {options : RunOptions} {path text : String}

/-- A run with arguments does what the merged file says. -/
theorem execute_of_loads (top : readParameters topParameters [] args = .ok (before, "run" :: rest))
    (read : readRest runParameters rest = .ok given)
    (loads : Run.Loads w (runOptions w.agents given) file) :
    let merged := file.merged w.agents (.of before given)
    execute w args =
      (Run.withSettings w merged.settings (runOptions w.agents given).input).report merged.log := by
  intro merged
  have accepted : parse w.agents args =
      .ok (invocation before given (.run (runOptions w.agents given))) := by
    rw [parse, top]
    simp only [bind, Except.bind, read]
    rfl
  rw [Run.execute_eq accepted, loads.run_eq, merge_merged file w.agents before given,
    ← logSettings_merged file w.agents before given (.run (runOptions w.agents given))]
  rfl

/-- A run that is told nothing else does what its settings file says. -/
theorem execute_bare (apart : Apart path options.input)
    (good : SettingsFile.codec.read text = .ok file)
    (told : parse none args = .ok ⟨none, false, .run (options.bare path)⟩) :
    execute (w.withFile path text).withoutAgents args =
      (Run.withSettings w file.settings options.input).report file.log := by
  have loads : Run.Loads (w.withFile path text).withoutAgents (options.bare path) file :=
    .file rfl (text_withFile w path text) good
  calc execute (w.withFile path text).withoutAgents args
      = (Run.withSettings (w.withFile path text).withoutAgents file.settings
          options.input).report file.log := by
        rw [Run.execute_eq told, loads.run_eq]
        rfl
    _ = (Run.withSettings w file.settings options.input).report file.log := by
        rw [withSettings_withoutAgents, withSettings_withFile apart]

/-- What arguments, or else the environment, say of settings counts as if the settings file said it
in place of what it says. The merged file can be written, and a run that is told nothing of these
settings but such a file leaves the same report. So does a run with the same arguments and another
settings file that makes the same merged file: what is replaced does not count. -/
theorem run_as_merged (top : readParameters topParameters [] args = .ok (before, "run" :: rest))
    (read : readRest runParameters rest = .ok given)
    (loads : Run.Loads w (runOptions w.agents given) file) :
    let options := runOptions w.agents given
    let flags := Flags.of before given
    let merged := file.merged w.agents flags
    SettingsFile.codec.read (SettingsFile.codec.write merged) = .ok merged ∧
      (∀ path ≠ "", ∃ args', parse none args' = .ok ⟨none, false, .run (options.bare path)⟩) ∧
      (∀ path text args', Apart path options.input → SettingsFile.codec.read text = .ok merged →
        parse none args' = .ok ⟨none, false, .run (options.bare path)⟩ →
        execute (w.withFile path text).withoutAgents args' = execute w args) ∧
      ∀ path text other, options.config = some path → Apart path options.input →
        SettingsFile.codec.read text = .ok other → other.merged w.agents flags = merged →
        execute (w.withFile path text) args = execute w args := by
  intro options flags merged
  have here := execute_of_loads top read loads
  refine ⟨?_, fun path named => exists_bare options named, ?_, ?_⟩
  · have sorted : Json.Ascending file.log.components := by
      cases loads with
      | default => exact .nil
      | file _ _ good => exact SettingsFile.ascending_of_read good
    exact (SettingsFile.keeps (f := merged) sorted).recovers
  · intro path text args' apart good told
    rw [execute_bare apart good told, here]
  · intro path text other config apart good same
    have loads' : Run.Loads (w.withFile path text) (runOptions w.agents given) other :=
      .file config (text_withFile w path text) good
    have there := execute_of_loads (w := w.withFile path text) top read loads'
    have same : other.merged (w.withFile path text).agents (.of before given) = merged := same
    rw [there, here, same]
    exact congrArg (·.report merged.log) (withSettings_withFile apart w text merged.settings)

end Merged

/-- A settings file whose agent has no address, and whose queues have no room. -/
def misguidedFile : SettingsFile :=
  ⟨⟨["http://"], 0, 5000⟩, ⟨"off", [("relay", "warn")], false⟩⟩

/-- A settings file in which that is put right. -/
def guidedFile : SettingsFile :=
  ⟨⟨["c"], 5, 5000⟩, ⟨"debug", [("relay", "warn")], true⟩⟩

/-- A world with the first of them. -/
def misguidedWorld : World :=
  Run.brokenWorld.withFile "relay.json" (SettingsFile.codec.write misguidedFile)

/-- What is given behind the name of the command to put that right. -/
def guidance : List Given :=
  [⟨"config", "relay.json"⟩, ⟨"agent", "c"⟩, ⟨"queue-capacity", "5"⟩, ⟨"log-level", "debug"⟩]

theorem loads_misguidedWorld :
    Run.Loads misguidedWorld (runOptions misguidedWorld.agents guidance) misguidedFile := by
  have sorted : Json.Ascending misguidedFile.log.components := List.pairwise_singleton _ _
  exact .file rfl (text_withFile _ _ _) (SettingsFile.keeps sorted).recovers

theorem merged_misguidedFile :
    misguidedFile.merged misguidedWorld.agents (.of [⟨"json-logs", ""⟩] guidance) = guidedFile := by
  have single : "c".splitOn "," = ["c"] := by
    simp +decide [String.splitOn, String.splitOnAux]
  have agents : listed guidance "agent" = ["c"] := by
    rw [← single]
    exact List.append_nil _
  have flags : Flags.of [⟨"json-logs", ""⟩] guidance =
      ⟨some ["c"], some 5, none, some "debug", true⟩ := by
    rw [Flags.of, agents, Flags.mk.injEq]
    decide +kernel
  rw [flags]
  rfl

theorem run_as_merged_misguidedWorld :
    let args := ["--json-logs", "run", "--config", "relay.json", "--agent", "c", "--queue-capacity",
      "5", "--log-level", "debug"]
    let plain := ["run", "--config", "good.json"]
    let good := misguidedWorld.withFile "good.json" (SettingsFile.codec.write guidedFile)
    (∃ e, misguidedFile.settings.validate = .error e) ∧ (∃ e, Endpoint.parse "http://" = .error e) ∧
      execute good.withoutAgents plain = execute misguidedWorld args := by
  intro args plain good
  have top : readParameters topParameters [] args =
      .ok ([⟨"json-logs", ""⟩], "run" :: args.drop 2) := by decide +kernel
  have read : readRest runParameters (args.drop 2) = .ok guidance := by decide +kernel
  have told : parse none plain =
      .ok ⟨none, false, .run ((runOptions misguidedWorld.agents guidance).bare "good.json")⟩ := by
    decide +kernel
  obtain ⟨written, -, replaces, -⟩ := run_as_merged top read loads_misguidedWorld
  rw [merged_misguidedFile] at written replaces
  exact ⟨⟨_, rfl⟩, ⟨_, rfl⟩, replaces "good.json" _ plain (.inl rfl) written told⟩

end Command

end TxRelay
