import Mathlib
import TxRelay.Proofs.Json.Extension
import TxRelay.Proofs.Wire.Shapes

/-!
# What the wire does not look at

Every type on the wire is read from a text whatever the order of members in it, whatever its layout and
whatever members it has that are no fields. A settings file is no record, but it is read as if it were
one with one more field, if its other members can be read freely.

Results:
* `SettingsFile.decode_eq_ok`: the members of a settings file are read as those of a record.
* `wire_tolerates`: what no type looks at in its texts.
-/

namespace TxRelay

open Json (Codec Error Field Fields Members Origin Tree Value maxDepth)
open Json.Fields (Change)
open TxRelay.Except

variable {origin origin' : Origin} {depth : ℕ}

namespace SettingsFile

/-! ## A settings file as a record -/

/-- The fields of a settings file, as if it were a record. -/
def fields :=
  Fields.cons (.defaulted logName LogSettings.codec .default) Settings.fields

/-- Their shapes. -/
def fieldsShape : fields.Shape :=
  .cons LogSettings.shape Settings.fieldsShape

/-- A member other than the log settings can be read freely. -/
def Free (depth : ℕ) (m : Option String × Tree) : Prop :=
  m.1 ≠ some logName → ∃ v, m.2.free depth = .ok v

theorem store_log {t : Tree} {log : Option LogSettings} {slots found} :
    fields.store origin depth logName t (log, slots) = .ok found ↔
      ∃ l, log = none ∧ LogSettings.codec.decode origin depth t = .ok l ∧
        found = (some l, slots) := by
  cases log with
  | some => simp [fields, Json.Fields.store, Field.defaulted]
  | none =>
    have stores : fields.store origin depth logName t (none, slots) =
        (LogSettings.codec.decode origin depth t).map fun l => (some l, slots) := if_pos rfl
    rw [stores, map_eq_ok_iff]
    exact exists_congr fun l => ⟨fun ⟨read, made⟩ => ⟨rfl, read, made.symm⟩,
      fun ⟨_, read, made⟩ => ⟨read, made.symm⟩⟩

theorem store_setting {name : String} {t : Tree} {log : Option LogSettings} {slots found}
    (other : name ≠ logName) :
    fields.store origin depth name t (log, slots) = .ok found ↔
      ∃ others, Settings.fields.store origin depth name t slots = .ok others ∧
        found = (log, others) := by
  have stores : fields.store origin depth name t (log, slots) =
      (Settings.fields.store origin depth name t slots).map fun others => (log, others) := if_neg other
  rw [stores, map_eq_ok_iff]
  simp [eq_comm]

theorem takeLog_log {t : Tree} {rest : Members} {log found : Option LogSettings} {others : Members} :
    takeLog origin depth log (.more (some logName) t rest) = .ok (found, others) ↔
      ∃ l, log = none ∧ LogSettings.codec.decode origin depth t = .ok l ∧
        takeLog origin depth (some l) rest = .ok (found, others) := by
  simp only [takeLog, if_true]
  cases log with
  | some => simp
  | none => simp [bind_eq_ok_iff]

theorem takeLog_other {name : String} {t : Tree} {rest : Members} {log found : Option LogSettings}
    {others : Members} (other : name ≠ logName) :
    takeLog origin depth log (.more (some name) t rest) = .ok (found, others) ↔
      (∃ v, t.free depth = .ok v) ∧ ∃ left, takeLog origin depth log rest = .ok (found, left) ∧
        others = .more (some name) t left := by
  simp only [takeLog, if_neg other, bind_eq_ok_iff]
  constructor
  · rintro ⟨v, free, ⟨_, left⟩, taken, made⟩
    cases made
    exact ⟨⟨v, free⟩, left, taken, rfl⟩
  · rintro ⟨⟨v, free⟩, left, taken, rfl⟩
    exact ⟨v, free, _, taken, rfl⟩

/-- The members of a settings file are read as those of a record, where all but the log settings can be
read freely. -/
theorem takeLog_eq_ok {ms : List (Option String × Tree)} {log : Option LogSettings} {slots}
    {all : LogSettings} {b} :
    (∃ found others, takeLog origin depth log (.of ms) = .ok (found, others) ∧
        Settings.fields.ofMembers origin depth slots others = .ok b ∧ found.getD .default = all) ↔
      (∀ m ∈ ms, Free depth m) ∧
        fields.ofMembers origin depth (log, slots) (.of ms) = .ok (all, b) := by
  induction ms generalizing log slots with
  | nil =>
    have ended : fields.ofMembers origin depth (log, slots) .close =
        (Settings.fields.ofMembers origin depth slots .close).map fun b => (log.getD .default, b) := by
      cases log <;> rfl
    simp only [Members.of, takeLog, ended, map_eq_ok_iff, Except.ok.injEq, Prod.mk.injEq]
    constructor
    · rintro ⟨_, _, ⟨rfl, rfl⟩, others, rfl⟩
      exact ⟨List.forall_mem_nil _, b, others, rfl, rfl⟩
    · rintro ⟨-, _, others, rfl, rfl⟩
      exact ⟨log, .close, ⟨rfl, rfl⟩, others, rfl⟩
  | cons m ms ih =>
    obtain ⟨name, t⟩ := m
    cases name with
    | none => simp [Members.of, takeLog, Json.Fields.ofMembers]
    | some name =>
      simp only [List.forall_mem_cons, Members.of, Json.Fields.ofMembers_more]
      by_cases isLog : name = logName
      · subst isLog
        simp only [takeLog_log, store_log]
        constructor
        · rintro ⟨found, others, ⟨l, rfl, decoded, taken⟩, read, made⟩
          obtain ⟨free, members⟩ := ih.1 ⟨found, others, taken, read, made⟩
          exact ⟨⟨absurd rfl, free⟩, _, ⟨l, rfl, decoded, rfl⟩, members⟩
        · rintro ⟨⟨-, free⟩, _, ⟨l, rfl, decoded, rfl⟩, members⟩
          obtain ⟨found, others, taken, read, made⟩ := ih.2 ⟨free, members⟩
          exact ⟨found, others, ⟨l, rfl, decoded, taken⟩, read, made⟩
      · simp only [takeLog_other isLog, store_setting isLog]
        constructor
        · rintro ⟨found, _, ⟨isFree, left, taken, rfl⟩, read, made⟩
          obtain ⟨others, stored, read⟩ := Json.Fields.ofMembers_more.1 read
          obtain ⟨free, members⟩ := ih.1 ⟨found, left, taken, read, made⟩
          exact ⟨⟨fun _ => isFree, free⟩, _, ⟨others, stored, rfl⟩, members⟩
        · rintro ⟨⟨isFree, free⟩, _, ⟨others, stored, rfl⟩, members⟩
          obtain ⟨found, left, taken, read, made⟩ := ih.2 ⟨free, members⟩
          exact ⟨found, _, ⟨isFree fun same => isLog (Option.some.inj same), left, taken, rfl⟩,
            Json.Fields.ofMembers_more.2 ⟨others, stored, read⟩, made⟩

/-- A settings file is decoded as a record is whose members but the log settings can be read freely. -/
theorem decode_eq_ok {ms : List (Option String × Tree)} {f : SettingsFile} :
    codec.decode origin (depth + 1) (.object (.of ms)) = .ok f ↔
      (∀ m ∈ ms, Free depth m) ∧
        fields.ofMembers origin depth fields.noSlots (.of ms) = .ok (f.log, f.settings.parts) := by
  show ofMembers origin depth (.of ms) = .ok f ↔ _
  rw [show fields.noSlots = (none, Settings.fields.noSlots) from rfl, ← takeLog_eq_ok]
  simp only [ofMembers, bind_eq_ok_iff]
  constructor
  · rintro ⟨⟨found, others⟩, taken, parts, read, made⟩
    cases made
    exact ⟨found, others, taken, read, rfl⟩
  · rintro ⟨found, others, taken, read, log⟩
    refine ⟨_, taken, _, read, ?_⟩
    rw [log]
    rfl

/-! ## What a settings file tolerates -/

theorem carries_reordered {t t' : Tree} (reordered : t.Reordered t') (distinct : t.Distinct) :
    codec.Carries origin origin' depth t t' := by
  intro f read
  cases reordered with
  | null | bool | number | string | array => cases read
  | object ms ms' each perm =>
    cases depth with
    | zero => cases read
    | succ depth =>
      rw [Tree.Distinct, Json.names_of, Json.distinct_members_of, List.forall_mem_map] at distinct
      obtain ⟨free, members⟩ := decode_eq_ok.1 read
      refine decode_eq_ok.2 ⟨?_, Json.ofMembers_reordered perm distinct.1 ?_ members⟩
      · refine List.forall_mem_map.2 fun m hm other => ?_
        have before := perm.symm.subset hm
        obtain ⟨v, read⟩ := free _ (List.mem_map_of_mem before) other
        exact ⟨v, Json.free_reordered (each m before) (distinct.2 m before) read⟩
      · intro m hm name
        exact fieldsShape.carries_reordered name (each m hm) (distinct.2 m hm)

/-- The second file is the first with more members, or with more members in the log settings. A member
that is put into the file must be one that can be read freely where it stands. -/
def Extends (t t' : Tree) : Prop :=
  ∃ changes : List Change, t = .object (.of (changes.filterMap Change.before)) ∧
    t' = .object (.of (changes.map Change.after)) ∧ ∀ c ∈ changes,
      match c.old with
      | some old =>
        if c.name = some logName then LogSettings.shape.Extends old c.new else c.new = old
      | none => c.Fresh fields.names ∧ ∃ v, c.new.free (maxDepth - 1) = .ok v

theorem carries_extends {t t' : Tree} (more : Extends t t') (whole : t'.skip = .ok ()) :
    codec.Carries origin origin maxDepth t t' := by
  obtain ⟨changes, rfl, rfl, each⟩ := more
  intro f read
  rw [Tree.skip] at whole
  have values := List.forall_mem_map.1 (Json.skip_of_mem_members whole)
  obtain ⟨free, members⟩ := decode_eq_ok.1 read
  refine decode_eq_ok.2 ⟨?_, Json.Fields.ofMembers_of_changes ?_ ?_ members⟩
  · refine List.forall_mem_map.2 ?_
    rintro ⟨name, old, new⟩ hc other
    have change := each _ hc
    cases old with
    | none => exact change.2
    | some old =>
      have other : name ≠ some logName := other
      obtain rfl : new = old := by simpa only [if_neg other] using change
      exact free (name, new) (List.mem_filterMap.2 ⟨_, hc, rfl⟩) other
  · rintro ⟨name, old, new⟩ hc n ⟨⟩
    have change := each _ hc
    refine ⟨?_, ?_⟩
    · rintro old ⟨⟩
      by_cases isLog : n = logName
      · subst isLog
        have log : LogSettings.shape.Extends old new := by simpa using change
        rw [fields, Json.Fields.Carries]
        exact (if_pos rfl).mpr (LogSettings.shape.carries_extends log (values _ hc))
      · have same : new = old := by simpa [isLog] using change
        rw [same]
        exact Json.Fields.carries_refl
    · rintro ⟨⟩
      obtain ⟨⟨_, ⟨⟩, fresh⟩, -⟩ := change
      exact ⟨fresh, values _ hc⟩
  · rintro ⟨name, old, new⟩ hc ⟨⟩ ⟨⟩
    obtain ⟨⟨_, ⟨⟩, -⟩, -⟩ := each _ hc

theorem tolerates : codec.Tolerates Extends :=
  Json.tolerates_of_carries carries_reordered carries_extends

end SettingsFile

/-! ## Every type -/

/-- A text that is read as a value is still read as that value after members of its objects were put
in another order, members of other names were put into its records, and it was laid out anew. No
object of the first text repeats a name. -/
theorem wire_tolerates :
    (Event.codec.Tolerates Event.shape.Extends ∧
      Event.Block.codec.Tolerates Event.Block.shape.Extends ∧
      Event.Transaction.codec.Tolerates Event.Transaction.shape.Extends ∧
      Event.Log.codec.Tolerates Event.Log.shape.Extends ∧
      Event.Receipt.codec.Tolerates Event.Receipt.shape.Extends) ∧
    (Message.codec.Tolerates Message.shape.Extends ∧
      Message.Block.codec.Tolerates Message.Block.shape.Extends ∧
      Message.Transaction.codec.Tolerates Message.Transaction.shape.Extends ∧
      Message.Log.codec.Tolerates Message.Log.shape.Extends ∧
      Message.Receipt.codec.Tolerates Message.Receipt.shape.Extends) ∧
    (Request.codec.Tolerates Request.shape.Extends ∧
      Verdict.codec.Tolerates Verdict.shape.Extends ∧
      Verdict.Problem.codec.Tolerates Verdict.Problem.shape.Extends ∧
      Verdict.Finding.codec.Tolerates Verdict.Finding.shape.Extends) ∧
    (Settings.codec.Tolerates Settings.shape.Extends ∧
      LogSettings.codec.Tolerates LogSettings.shape.Extends ∧
      SettingsFile.codec.Tolerates SettingsFile.Extends ∧
      Worker.Stats.codec.Tolerates Worker.Stats.shape.Extends ∧
      Relay.Summary.codec.Tolerates Relay.Summary.shape.Extends) ∧
    Rpc.Call.codec.Tolerates Rpc.Call.shape.Extends ∧
    Rpc.Answer.codec.Tolerates Rpc.Answer.shape.Extends ∧
    Rpc.ErrorObject.codec.Tolerates Rpc.ErrorObject.shape.Extends := by
  refine ⟨⟨?_, ?_, ?_, ?_, ?_⟩, ⟨?_, ?_, ?_, ?_, ?_⟩, ⟨?_, ?_, ?_, ?_⟩, ⟨?_, ?_, ?_, ?_, ?_⟩,
    ?_, ?_, ?_⟩
  · exact Event.shape.tolerates
  · exact Event.Block.shape.tolerates
  · exact Event.Transaction.shape.tolerates
  · exact Event.Log.shape.tolerates
  · exact Event.Receipt.shape.tolerates
  · exact Message.shape.tolerates
  · exact Message.Block.shape.tolerates
  · exact Message.Transaction.shape.tolerates
  · exact Message.Log.shape.tolerates
  · exact Message.Receipt.shape.tolerates
  · exact Request.shape.tolerates
  · exact Verdict.shape.tolerates
  · exact Verdict.Problem.shape.tolerates
  · exact Verdict.Finding.shape.tolerates
  · exact Settings.shape.tolerates
  · exact LogSettings.shape.tolerates
  · exact SettingsFile.tolerates
  · exact Worker.Stats.shape.tolerates
  · exact Relay.Summary.shape.tolerates
  · exact Rpc.Call.shape.tolerates
  · exact Rpc.Answer.shape.tolerates
  · exact Rpc.ErrorObject.shape.tolerates

/-- A settings file whose log settings come first and hold a member that is none, with blanks and with
another member before. -/
theorem wire_tolerates_settings :
    let compact := "\x7b\"agents\":[\"a\"],\"log\":\x7b\"level\":\"off\"\x7d\x7d"
    let spread :=
      " \x7b\"x\" : null ,\"log\":\x7b\"more\":[ ],\"level\":\"off\"\x7d,\n\"agents\":[\"a\"] \x7d"
    let file : SettingsFile := ⟨⟨["a"], 100, 5000⟩, ⟨"off", [], false⟩⟩
    SettingsFile.codec.read compact = .ok file ∧ SettingsFile.codec.read spread = .ok file := by
  intro compact spread file
  let agents := Tree.array (.of [.string (some "a")])
  let log := Tree.object (.of [(some "level", .string (some "off"))])
  let longer := Tree.object (.of [(some "more", .array .close), (some "level", .string (some "off"))])
  let tree := Tree.object (.of [(some "agents", agents), (some "log", log)])
  let moved := Tree.object (.of [(some "log", log), (some "agents", agents)])
  let more := Tree.object (.of [(some "x", .null), (some "log", longer), (some "agents", agents)])
  have first : Json.Document.read compact.toList = ⟨tree, true⟩ := by cbv
  have second : Json.Document.read spread.toList = ⟨more, true⟩ := by cbv
  have read : SettingsFile.codec.read compact = .ok file :=
    Json.read_eq_ok_iff_laidOut.2 ⟨tree, Json.read_iff_laidOut.1 first, rfl⟩
  obtain ⟨t, laidOut, tolerates⟩ := wire_tolerates.2.2.2.1.2.2.1 compact file read
  have same : t = tree := by
    have whole := Json.read_iff_laidOut.2 laidOut
    rw [first] at whole
    exact (congrArg Json.Document.tree whole).symm
  subst same
  refine ⟨read, tolerates ?_ moved more spread ?_ ?_ (Json.read_iff_laidOut.1 second)⟩
  · simp [tree, agents, log, Tree.Distinct, Members.of, Json.Elements.of, Json.Members.names,
      Json.Members.Distinct, Json.Elements.Distinct]
  · have sameAgents : agents.Reordered agents :=
      .array [(.string (some "a"), .string (some "a"))]
        (List.forall_mem_singleton.2 (.string _))
    have sameLog : log.Reordered log :=
      .object [(some "level", .string (some "off"), .string (some "off"))] _
        (List.forall_mem_singleton.2 (.string _)) (.refl _)
    exact .object [(some "agents", agents, agents), (some "log", log, log)] _
      (by simp [sameAgents, sameLog]) (.swap _ _ [])
  · have extended : LogSettings.shape.Extends log longer := by
      refine .inr (.inr ⟨[⟨some "more", none, .array .close⟩,
        ⟨some "level", some (.string (some "off")), .string (some "off")⟩], rfl, rfl, ?_⟩)
      rintro c (_ | ⟨_, _ | ⟨_, ⟨⟩⟩⟩)
      · exact ⟨"more", rfl, by decide⟩
      · rintro _ ⟨⟩
        rfl
    refine ⟨[⟨some "x", none, .null⟩, ⟨some "log", some log, longer⟩,
      ⟨some "agents", some agents, agents⟩], rfl, rfl, ?_⟩
    rintro c (_ | ⟨_, _ | ⟨_, _ | ⟨_, ⟨⟩⟩⟩⟩)
    · exact ⟨⟨"x", rfl, by decide⟩, .null, rfl⟩
    · exact extended
    · rfl

end TxRelay
