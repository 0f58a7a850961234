import Mathlib.Tactic
import TxRelay.Relay.Basic
import TxRelay.Settings.File
import TxRelay.Proofs.Wire.Calls

/-!
# Every type on the wire

The settings are the last types to be kept. A settings file is no record: the log settings stand among
the members of the relay's, and are taken out before those are read.

Results:
* `SettingsFile.keeps`: a settings file is kept.
* `written_recovers`: whatever is written, of every type, is read back as it was.
-/

namespace TxRelay

open Json (Arrangement Ascending Codec Number Origin Value arrangement_asWritten asWritten
  keeps_choice keeps_flag keeps_list keeps_natural keeps_record keeps_size keeps_text keeps_word
  membersTree negativeBound read_text unsignedBound)

variable {arrange : Value → Value} {depth : ℕ}

/-! ## Settings -/

theorem Settings.keeps_fields (order : Arrangement arrange) (s : Settings) :
    Settings.fields.Keeps arrange (depth + 1) s.parts :=
  .cons (.shown (keeps_texts order s.agents) rfl) <|
    .cons (.shown (keeps_size order s.queueCapacity) rfl) <|
    .cons (.shown (keeps_word order s.callTimeout) rfl) .nil

theorem Settings.keeps (order : Arrangement arrange) (s : Settings) :
    Settings.codec.Keeps arrange (depth + 2) s :=
  keeps_record order (by decide) (s.keeps_fields order) rfl

theorem LogSettings.keeps (order : Arrangement arrange) {s : LogSettings}
    (sorted : Ascending s.components) : LogSettings.codec.Keeps arrange (depth + 2) s :=
  keeps_record order (by decide)
    (.cons (.shown (keeps_text order s.level) rfl) <|
      .cons (.shown (keeps_entries order sorted) rfl) <|
      .cons (.shown (keeps_flag order s.json) rfl) .nil) rfl

namespace SettingsFile

/-- The log settings are taken out of the members that they stand behind. -/
theorem takeLog_membersTree {origin : Origin} {log : LogSettings} {ms : List (String × Value)}
    (kept : LogSettings.codec.Keeps asWritten depth log)
    (others : ∀ m ∈ ms, m.1 ≠ logName ∧ m.2.Shallow depth) :
    takeLog origin depth none
        (membersTree (ms ++ [(logName, LogSettings.codec.encode log)])) =
      .ok (some log, membersTree ms) := by
  induction ms with
  | nil =>
    have decoded : LogSettings.codec.decode origin depth (LogSettings.codec.encode log).tree =
        .ok log := kept.decodes origin
    simp only [List.nil_append, membersTree, takeLog, if_pos, decoded]
    rfl
  | cons m ms ih =>
    obtain ⟨⟨other, shallow⟩, rest⟩ := List.forall_mem_cons.1 others
    simp only [List.cons_append, membersTree, takeLog, if_neg other, Json.free_tree shallow, ih rest]
    rfl

theorem keeps {f : SettingsFile} (sorted : Ascending f.log.components) :
    SettingsFile.codec.Keeps asWritten (depth + 3) f := by
  have fields : Settings.fields.Keeps asWritten (depth + 2) f.settings.parts :=
    f.settings.keeps_fields arrangement_asWritten
  have log : LogSettings.codec.Keeps asWritten (depth + 2) f.log :=
    LogSettings.keeps arrangement_asWritten sorted
  have distinct : Settings.fields.names.Nodup := by decide
  have others : ∀ m ∈ Settings.fields.members f.settings.parts,
      m.1 ≠ logName ∧ m.2.Shallow (depth + 2) := fun m hm => by
    have isField : m.1 ∈ Settings.fields.names :=
      (Json.Fields.names_members_sublist _ _).subset (List.mem_map_of_mem hm)
    refine ⟨fun isLog => ?_, (fields.members m hm).2⟩
    rw [isLog] at isField
    exact absurd isField (by decide)
  refine ⟨.object ?_, .object trivial ?_, fun origin => ?_⟩
  · rintro m hm
    rcases List.mem_append.1 hm with hm | hm
    · exact (fields.members m hm).1
    · rw [List.mem_singleton.1 hm]
      exact log.exactly
  · rintro m hm
    rcases List.mem_append.1 hm with hm | hm
    · exact (fields.members m hm).2
    · rw [List.mem_singleton.1 hm]
      exact log.shallow
  · have parts : Settings.fields.ofMembers origin (depth + 2) Settings.fields.noSlots
        (membersTree (Settings.fields.members f.settings.parts)) = .ok f.settings.parts :=
      fields.ofMembers distinct (by simp)
    have decoded : ofMembers origin (depth + 2) (membersTree
        (Settings.fields.members f.settings.parts ++
          [(logName, LogSettings.codec.encode f.log)])) = .ok f := by
      rw [ofMembers, takeLog_membersTree log others]
      simp only [bind, Except.bind, parts]
      rfl
    exact decoded

end SettingsFile

/-! ## Counts -/

theorem Worker.Stage.keeps (order : Arrangement arrange) (s : Worker.Stage) :
    Worker.Stage.codec.Keeps arrange depth s :=
  keeps_choice order (by cases s <;> decide)

/-- Every count fits in 64 bits. -/
structure Worker.Counts.Fits (c : Worker.Counts) : Prop where
  received : c.received < unsignedBound
  succeeded : c.succeeded < unsignedBound
  failed : c.failed < unsignedBound
  rejected : c.rejected < unsignedBound
  timedOut : c.timedOut < unsignedBound

theorem Worker.Stats.keeps (order : Arrangement arrange) {s : Worker.Stats}
    (fits : s.counts.Fits) : Worker.Stats.codec.Keeps arrange (depth + 1) s :=
  keeps_record order (by decide)
    (.cons (.shown (keeps_text order s.agent) rfl) <|
      .cons (.shown (keeps_natural order fits.received) rfl) <|
      .cons (.shown (keeps_natural order fits.succeeded) rfl) <|
      .cons (.shown (keeps_natural order fits.failed) rfl) <|
      .cons (.shown (keeps_natural order fits.rejected) rfl) <|
      .cons (.shown (keeps_natural order fits.timedOut) rfl) .nil) rfl

/-- Every count of a summary fits in 64 bits. -/
structure Relay.Summary.Fits (s : Relay.Summary) : Prop where
  received : s.totals.received < unsignedBound
  unconverted : s.totals.unconverted < unsignedBound
  dispatched : s.totals.dispatched < unsignedBound
  workers : ∀ w ∈ s.workers, w.counts.Fits

theorem Relay.Summary.keeps (order : Arrangement arrange) {s : Relay.Summary} (fits : s.Fits) :
    Relay.Summary.codec.Keeps arrange (depth + 3) s :=
  keeps_record order (by decide)
    (.cons (.shown (keeps_natural order fits.received) rfl) <|
      .cons (.shown (keeps_natural order fits.unconverted) rfl) <|
      .cons (.shown (keeps_natural order fits.dispatched) rfl) <|
      .cons (.shown (keeps_list order fun w hw =>
        Worker.Stats.keeps order (fits.workers w hw)) rfl) .nil) rfl

/-! ## Every type -/

/-- Whatever is written is read back as it was. The maps of a value are sorted by name and its counts
fit in 64 bits, as they do in memory. A call, an answer or an error object holds free values: it is
one that came from a text, and no real number is among them. -/
theorem written_recovers :
    ((∀ e : Event, Event.codec.Recovers e) ∧
      (∀ m : Message, Message.codec.Recovers m) ∧
      (∀ r : Request, Request.codec.Recovers r) ∧
      (∀ id : String, Codec.text.Recovers id) ∧
      (∀ v : Verdict, v.Sorted → Verdict.codec.Recovers v) ∧
      (∀ p : Verdict.Problem, Verdict.Problem.codec.Recovers p) ∧
      (∀ f : Verdict.Finding, Ascending f.metadata → Verdict.Finding.codec.Recovers f) ∧
      (∀ s : Verdict.Severity, Verdict.Severity.codec.Recovers s) ∧
      (∀ s : Verdict.Status, Verdict.Status.codec.Recovers s)) ∧
    ((∀ s : Settings, Settings.codec.Recovers s) ∧
      (∀ s : LogSettings, Ascending s.components → LogSettings.codec.Recovers s) ∧
      (∀ f : SettingsFile, Ascending f.log.components → SettingsFile.codec.Recovers f) ∧
      (∀ s : Worker.Stage, Worker.Stage.codec.Recovers s) ∧
      (∀ s : Worker.Stats, s.counts.Fits → Worker.Stats.codec.Recovers s) ∧
      ∀ s : Relay.Summary, s.Fits → Relay.Summary.codec.Recovers s) ∧
    (∀ id : Rpc.Id, Rpc.Id.codec.Recovers id) ∧
    (∀ (text : String) (c : Rpc.Call),
      Rpc.Call.codec.read text = .ok c → c.Integral → Rpc.Call.codec.Recovers c) ∧
    (∀ (text : String) (a : Rpc.Answer),
      Rpc.Answer.codec.read text = .ok a → a.Integral → Rpc.Answer.codec.Recovers a) ∧
    ∀ (text : String) (e : Rpc.ErrorObject),
      Rpc.ErrorObject.codec.read text = .ok e → e.Integral → Rpc.ErrorObject.codec.Recovers e := by
  have order := arrangement_asWritten
  refine ⟨⟨?_, ?_, ?_, ?_, ?_, ?_, ?_, ?_, ?_⟩, ⟨?_, ?_, ?_, ?_, ?_, ?_⟩, ?_, ?_, ?_, ?_⟩
  · exact fun e => (e.keeps order).recovers
  · exact fun m => (m.keeps order).recovers
  · exact fun r => (r.keeps order).recovers
  · exact fun id => (keeps_text order id).recovers
  · exact fun v sorted => (Verdict.keeps order sorted).recovers
  · exact fun p => (p.keeps order).recovers
  · exact fun f sorted => (Verdict.Finding.keeps order sorted).recovers
  · exact fun s => (s.keeps order).recovers
  · exact fun s => (s.keeps order).recovers
  · exact fun s => (s.keeps order).recovers
  · exact fun s sorted => (LogSettings.keeps order sorted).recovers
  · exact fun f sorted => (SettingsFile.keeps sorted).recovers
  · exact fun s => (s.keeps order).recovers
  · exact fun s fits => (Worker.Stats.keeps order fits).recovers
  · exact fun s fits => (Relay.Summary.keeps order fits).recovers
  · exact fun id => (id.keeps order).recovers
  · intro text c read integral
    exact (Rpc.keeps_call_of_read (Json.decode_of_read read) (Json.numbers_read _) integral).recovers
  · intro text a read integral
    exact (Rpc.keeps_answer_of_read (Json.decode_of_read read) (Json.numbers_read _)
      integral).recovers
  · intro text e read integral
    exact (Rpc.keeps_errorObject_of_read (Json.decode_of_read read) (Json.numbers_read _)
      integral).recovers

/-- Maps with entries, counts at their bound, and calls and answers from texts that are not spelled as
they would be written. -/
theorem written_recovers_samples :
    (let entries := [("\"", "\n"), ("a", "é")]
      let finding : Verdict.Finding := ⟨"x", "", "", .critical, "", "\\", entries⟩
      let verdict : Verdict := ⟨.error, [⟨"\t"⟩], [finding], entries, some ""⟩
      (verdict.Sorted ∧ Verdict.codec.Recovers verdict) ∧
      (Ascending finding.metadata ∧ Verdict.Finding.codec.Recovers finding)) ∧
    (let log : LogSettings := ⟨"info", [("a-b", "off"), ("c", "trace")], true⟩
      let file : SettingsFile := ⟨⟨["a", "b:9000"], 0, 0xffffffffffffffff⟩, log⟩
      Ascending log.components ∧ LogSettings.codec.Recovers log ∧ SettingsFile.codec.Recovers file) ∧
    (let stats : Worker.Stats := ⟨"a", ⟨2 ^ 64 - 1, 0, 1, 2, 3⟩⟩
      let summary : Relay.Summary := ⟨⟨2 ^ 64 - 1, 4, 5⟩, [stats, stats]⟩
      (stats.counts.Fits ∧ Worker.Stats.codec.Recovers stats) ∧
      (summary.Fits ∧ Relay.Summary.codec.Recovers summary)) ∧
    (let text := (Value.object [("id", .number (.natural 7)),
        ("params", .array [.object [("b", .null), ("a", .number (.negative 2))]]),
        ("method", .string "m"), ("jsonrpc", .string "2.0")]).text
      let call : Rpc.Call :=
        ⟨"2.0", "m", [.object [("a", .number (.negative 2)), ("b", .null)]], .number 7⟩
      Rpc.Call.codec.read text = .ok call ∧ call.Integral ∧ Rpc.Call.codec.Recovers call) ∧
    (let error := Value.object [("message", .string "no"), ("more", .bool true),
        ("data", .array [.number (.natural 1)]), ("code", .number (.negative 32000))]
      let text := (Value.object [("result", .null), ("error", error), ("id", .null),
        ("jsonrpc", .string "2.0")]).text
      let object : Rpc.ErrorObject := ⟨-32000, "no", some (.array [.number (.natural 1)])⟩
      let answer : Rpc.Answer := ⟨"2.0", .null, none, some object⟩
      (Rpc.Answer.codec.read text = .ok answer ∧ answer.Integral ∧
        Rpc.Answer.codec.Recovers answer) ∧
      (Rpc.ErrorObject.codec.read error.text = .ok object ∧ object.Integral ∧
        Rpc.ErrorObject.codec.Recovers object)) := by
  obtain ⟨⟨-, -, -, -, verdict, -, finding, -, -⟩, ⟨-, log, file, -, stats, summary⟩, -, call,
    answer, object⟩ := written_recovers
  have entries : Ascending [("\"", "\n"), ("a", "é")] := by
    simp only [Ascending, List.pairwise_pair]
    decide
  have components : Ascending [("a-b", "off"), ("c", "trace")] := by
    simp only [Ascending, List.pairwise_pair]
    decide
  have counts : Worker.Counts.Fits ⟨2 ^ 64 - 1, 0, 1, 2, 3⟩ := by
    constructor <;> simp [unsignedBound]
  refine ⟨⟨⟨⟨entries, ?_⟩, verdict _ ⟨entries, ?_⟩⟩, entries, finding _ entries⟩,
    ⟨components, log _ components, file _ components⟩,
    ⟨⟨counts, stats _ counts⟩, ?_⟩, ?_, ?_⟩
  · exact List.forall_mem_singleton.2 entries
  · exact List.forall_mem_singleton.2 entries
  · have fits : Relay.Summary.Fits ⟨⟨2 ^ 64 - 1, 4, 5⟩, [⟨"a", ⟨2 ^ 64 - 1, 0, 1, 2, 3⟩⟩,
        ⟨"a", ⟨2 ^ 64 - 1, 0, 1, 2, 3⟩⟩]⟩ := by
      refine ⟨?_, ?_, ?_, ?_⟩
      · simp [unsignedBound]
      · simp [unsignedBound]
      · simp [unsignedBound]
      · simpa using counts
    exact ⟨fits, summary _ fits⟩
  · intro text callRead
    have read : Rpc.Call.codec.read text = .ok callRead :=
      read_text (by simp [Number.Exact, unsignedBound, negativeBound]) rfl
    have integral : callRead.Integral := by simp [callRead, Rpc.Call.Integral, Number.Integral]
    exact ⟨read, integral, call text callRead read integral⟩
  · intro error text objectRead answerRead
    have read : Rpc.Answer.codec.read text = .ok answerRead :=
      read_text (by simp [error, Number.Exact, unsignedBound, negativeBound]) rfl
    have readError : Rpc.ErrorObject.codec.read error.text = .ok objectRead :=
      read_text (by simp [error, Number.Exact, unsignedBound, negativeBound]) rfl
    have integralError : objectRead.Integral := by
      simp [objectRead, Rpc.ErrorObject.Integral, Number.Integral]
    have integral : answerRead.Integral := by simp [answerRead, Rpc.Answer.Integral, integralError]
    exact ⟨⟨read, integral, answer text answerRead read integral⟩, readError, integralError,
      object error.text objectRead readError integralError⟩

end TxRelay
