import TxRelay.Proofs.Wire.Tolerance

/-!
# The two readings of settings

The settings of a relay are read from a text of their own or as a part of a settings file. A text of
their own may be a settings file, since a member that is no field is passed over, and what it says is
then what the file says. A settings file asks for more: it is an object, its log settings can be read,
and all its other members can be read freely.

Results:
* `Fields.ofMembers_cons_iff`: a record with one more field is read as the record without it, and that
  field besides.
* `Codec.Within.record`: how many levels a record opens.
* `SettingsFile.read_agrees`: which settings files say what a text of settings says.
-/

namespace TxRelay

open TxRelay.Except

namespace Json

variable {origin : Origin} {depth levels : ℕ} {α β σ : Type}

/-! ## One more field -/

/-- An object that can be passed over has an end. -/
theorem Members.exists_of : ∀ {members : Members}, members.skip = .ok () → ∃ ms, members = .of ms
  | .close, _ => ⟨[], rfl⟩
  | .stop _, whole | .noName _ _, whole => by cases whole
  | .more name t rest, whole => by
    obtain ⟨ms, rfl⟩ := exists_of (skip_more_eq_ok.1 whole).2
    exact ⟨(name, t) :: ms, rfl⟩

namespace Fields

variable {f : Field α} {rest : Fields β σ} {slots : σ} {a : α} {b : β}

/-- The value of a field whose slot may have been filled before. -/
def Fills (f : Field α) (origin : Origin) (depth : ℕ) (place : List Tree) (a : α) : Option α → Prop
  | none => f.Reads origin depth place a
  | some found => place = [] ∧ a = found

/-- An empty slot is filled by one member only. -/
theorem Fills.single {t : Tree} {place : List Tree} (h : Fills f origin depth (t :: place) a none) :
    place = [] ∧ f.codec.decode origin depth t = .ok a := by
  cases place with
  | nil => exact ⟨rfl, h⟩
  | cons => exact h.elim

theorem finish_cons_iff {slot : Option α} :
    (Fields.cons f rest).finish (slot, slots) = .ok (a, b) ↔
      Fills f origin depth [] a slot ∧ rest.finish slots = .ok b := by
  cases value : slot.or f.presence.inObject with
  | none =>
    obtain ⟨rfl, absent⟩ := Option.or_eq_none_iff.1 value
    simp [finish, Fills, Field.Reads, absent, bind, Except.bind]
  | some given =>
    have filled : Fills f origin depth [] a slot ↔ given = a := by
      cases slot with
      | none =>
        have absent : f.presence.inObject = some given := value
        simp [Fills, Field.Reads, absent]
      | some found =>
        obtain rfl : found = given := Option.some.inj value
        simp [Fills, eq_comm]
    simp only [finish, value, bind_eq_ok_iff, filled, Except.ok.injEq, pure, Except.pure,
      Prod.mk.injEq]
    constructor
    · rintro ⟨_, rfl, others, ended, rfl, rfl⟩
      exact ⟨rfl, ended⟩
    · rintro ⟨rfl, ended⟩
      exact ⟨_, rfl, b, ended, rfl, rfl⟩

/-- A record with one more field is read as the record without it, which passes over the member of that
field, and as the field. -/
theorem ofMembers_cons_iff {ms : List (Option String × Tree)} {slot : Option α}
    (other : f.name ∉ rest.names) (whole : (Members.of ms).skip = .ok ()) :
    (Fields.cons f rest).ofMembers origin depth (slot, slots) (.of ms) = .ok (a, b) ↔
      Fills f origin depth ((Members.of ms).named f.name) a slot ∧
        rest.ofMembers origin depth slots (.of ms) = .ok b := by
  induction ms generalizing slot slots with
  | nil => exact finish_cons_iff
  | cons m ms ih =>
    obtain ⟨name, t⟩ := m
    obtain ⟨passed, sound⟩ := skip_more_eq_ok.1 whole
    cases name with
    | none => simp [Members.of, ofMembers]
    | some name =>
      simp only [Members.of, ofMembers_more, store, Members.named]
      split_ifs with isName
      · subst isName
        simp only [store_other other passed, Except.ok.injEq, exists_eq_left']
        cases slot with
        | some found => simp [Fills]
        | none =>
          simp only [map_eq_ok_iff]
          constructor
          · rintro ⟨_, ⟨value, decoded, rfl⟩, members⟩
            obtain ⟨⟨single, rfl⟩, others⟩ := (ih sound).1 members
            refine ⟨?_, others⟩
            rw [single]
            exact decoded
          · rintro ⟨filled, others⟩
            obtain ⟨single, decoded⟩ := filled.single
            exact ⟨_, ⟨a, decoded, rfl⟩, (ih sound).2 ⟨⟨single, rfl⟩, others⟩⟩
      · simp only [map_eq_ok_iff]
        constructor
        · rintro ⟨_, ⟨others, stored, rfl⟩, members⟩
          obtain ⟨filled, left⟩ := (ih sound).1 members
          exact ⟨filled, others, stored, left⟩
        · rintro ⟨filled, others, stored, left⟩
          exact ⟨_, ⟨others, stored, rfl⟩, (ih sound).2 ⟨filled, left⟩⟩

end Fields

/-! ## Levels -/

/-- Where so many levels may be opened, a codec decodes whatever it decodes where more or fewer may
be. -/
def Codec.Within (c : Codec α) (levels : ℕ) : Prop :=
  ∀ ⦃origin depth t a⦄, c.decode origin depth t = .ok a → ∀ depth', levels ≤ depth' →
    c.decode origin depth' t = .ok a

/-- The same of all fields. -/
def Fields.Within (levels : ℕ) : {β σ : Type} → Fields β σ → Prop
  | _, _, nil => True
  | _, _, cons f rest => f.codec.Within levels ∧ rest.Within levels

theorem Codec.Scalar.within {c : Codec α} (h : c.Scalar) (levels : ℕ) : c.Within levels :=
  fun _ _ _ _ read depth' _ => h.anywhere read _ depth'

theorem decodeEntries_mono {value value' : Tree → Except Error α}
    (h : ∀ t a, value t = .ok a → value' t = .ok a) :
    ∀ {members : Members} {done entries : List (String × α)},
      Codec.decodeEntries value done members = .ok entries →
        Codec.decodeEntries value' done members = .ok entries
  | .close, _, _, read => read
  | .stop _, _, _, read | .noName _ _, _, _, read | .more none _ _, _, _, read => by cases read
  | .more (some _) t _, _, _, read => by
    rw [Codec.decodeEntries, bind_eq_ok_iff] at read ⊢
    obtain ⟨a, first, others⟩ := read
    exact ⟨a, h t a first, decodeEntries_mono h others⟩

/-- A map opens one level more than its values. -/
theorem Codec.Within.map {c : Codec α} (h : c.Within levels) : c.map.Within (levels + 1) := by
  intro origin depth t entries read depth' enough
  obtain ⟨inner, rfl⟩ := Nat.exists_eq_add_of_le' enough
  cases t with
  | object members =>
    obtain ⟨_, -, opened⟩ := descend_eq_ok read
    exact decodeEntries_mono (fun t a first => h first _ (Nat.le_add_left levels inner)) opened
  | null | bool | number | string | array | broken => cases read

namespace Fields

variable {fields : Fields β σ} {depth' : ℕ}

theorem store_of_within (within : fields.Within levels) (enough : levels ≤ depth') {name : String}
    {t : Tree} {slots found : σ} (h : fields.store origin depth name t slots = .ok found) :
    fields.store origin depth' name t slots = .ok found := by
  induction fields with
  | nil => exact h
  | cons f rest ih =>
    obtain ⟨slot, slots⟩ := slots
    simp only [store] at h ⊢
    split_ifs at h ⊢ with isName
    · cases slot with
      | some => cases h
      | none =>
        obtain ⟨a, decoded, stored⟩ := map_eq_ok_iff.1 h
        exact map_eq_ok_iff.2 ⟨a, within.1 decoded depth' enough, stored⟩
    · obtain ⟨others, inner, stored⟩ := map_eq_ok_iff.1 h
      exact map_eq_ok_iff.2 ⟨others, ih within.2 inner, stored⟩

theorem ofMembers_of_within (within : fields.Within levels) (enough : levels ≤ depth') :
    ∀ {members : Members} {slots : σ} {b : β},
      fields.ofMembers origin depth slots members = .ok b →
        fields.ofMembers origin depth' slots members = .ok b
  | .close, _, _, h => h
  | .stop _, _, _, h | .noName _ _, _, _, h | .more none _ _, _, _, h => by cases h
  | .more (some _) _ _, _, _, h => by
    obtain ⟨found, stored, others⟩ := ofMembers_more.1 h
    exact ofMembers_more.2
      ⟨found, store_of_within within enough stored, ofMembers_of_within within enough others⟩

theorem ofElements_of_within (within : fields.Within levels) (enough : levels ≤ depth')
    {expected : String} {index : ℕ} {items rest : Elements} {b : β}
    (h : fields.ofElements origin depth expected index items = .ok (b, rest)) :
    fields.ofElements origin depth' expected index items = .ok (b, rest) := by
  induction fields generalizing index items with
  | nil => exact h
  | cons f fields ih =>
    cases items with
    | stop => cases h
    | close =>
      simp only [ofElements] at h ⊢
      split at h
      · cases h
      · obtain ⟨⟨others, left⟩, inner, made⟩ := map_eq_ok_iff.1 h
        cases made
        exact map_eq_ok_iff.2 ⟨_, ih within.2 inner, rfl⟩
    | more head tail =>
      simp only [ofElements, bind_eq_ok_iff] at h ⊢
      obtain ⟨a, first, ⟨others, left⟩, inner, made⟩ := h
      cases made
      exact ⟨a, within.1 first depth' enough, _, ih within.2 inner, rfl⟩

end Fields

/-- A record opens one level more than its fields. -/
theorem Codec.Within.record {name : String} {fields : Fields β σ} {make : β → α} {parts : α → β}
    (h : fields.Within levels) : (Codec.record name fields make parts).Within (levels + 1) := by
  intro origin depth t a read depth' enough
  obtain ⟨inner, rfl⟩ := Nat.exists_eq_add_of_le' enough
  have left : levels ≤ inner + levels := Nat.le_add_left levels inner
  cases depth with
  | zero => cases t <;> cases read
  | succ depth =>
    cases t with
    | array items =>
      obtain ⟨b, elements, made⟩ := decode_record_array.1 read
      exact decode_record_array.2 ⟨b, Fields.ofElements_of_within h left elements, made⟩
    | object members =>
      obtain ⟨b, found, made⟩ := decode_record_object.1 read
      exact decode_record_object.2 ⟨b, Fields.ofMembers_of_within h left found, made⟩
    | null | bool | number | string | broken => cases read

end Json

open Json (Codec Document Members Tree Value maxDepth)
open Json.Fields (Fills)

theorem LogSettings.within : LogSettings.codec.Within 2 :=
  .record ⟨Json.scalar_text.within 1, .map (Json.scalar_text.within 0), Json.scalar_flag.within 1,
    trivial⟩

theorem Settings.read_eq_ok_iff {text : String} {s : Settings} :
    Settings.read text = .ok s ↔ Settings.codec.read text = .ok s := by
  rw [Settings.read]
  cases Settings.codec.read text <;> simp

namespace SettingsFile

/-! ## The file and the text -/

/-- The log settings of an object: those of its one member of that name, or the default ones if it has
no such member. -/
inductive HoldsLog (members : Members) : LogSettings → Prop
  | absent (none : members.named logName = []) : HoldsLog members .default
  | present {t log} (single : members.named logName = [t])
      (read : LogSettings.codec.decode .text maxDepth t = .ok log) : HoldsLog members log

/-- The levels that are left inside the object are enough for log settings. -/
theorem holdsLog_iff {members : Members} {log : LogSettings} :
    HoldsLog members log ↔ Fills (.defaulted logName LogSettings.codec .default) .text (maxDepth - 1)
      (members.named logName) log none := by
  constructor
  · rintro (none | ⟨single, read⟩)
    · rw [none]
      rfl
    · rw [single]
      exact LogSettings.within read _ (by decide)
  · intro filled
    cases place : members.named logName with
    | nil =>
      rw [place] at filled
      obtain rfl : LogSettings.default = log := Option.some.inj filled
      exact .absent place
    | cons t rest =>
      rw [place] at filled
      obtain ⟨rfl, read⟩ := filled.single
      exact .present place (LogSettings.within read _ (by decide))

theorem skip_of_read {text : List Char} {t : Tree} (h : Document.read text = ⟨t, true⟩) :
    t.skip = .ok () := by
  obtain ⟨front, ws, -, spelled, -⟩ := Json.read_iff_laidOut.1 h
  exact spelled.skip

/-- A settings file holds log settings and is a text of settings, its other members being free. -/
theorem read_eq_ok_iff {text : String} {ms : List (Option String × Tree)} {file : SettingsFile}
    (object : Document.read text.toList = ⟨.object (.of ms), true⟩) :
    codec.read text = .ok file ↔
      (∀ m ∈ ms, Free (maxDepth - 1) m) ∧ HoldsLog (.of ms) file.log ∧
        Settings.read text = .ok file.settings := by
  have whole : (Members.of ms).skip = .ok () := skip_of_read object
  have apart : logName ∉ Settings.fields.names := by decide
  rw [Settings.read_eq_ok_iff, Json.read_eq_ok, Json.read_eq_ok, object, holdsLog_iff]
  simp only [and_true]
  refine decode_eq_ok.trans <| and_congr_right fun _ =>
    (Json.Fields.ofMembers_cons_iff apart whole).trans <| and_congr_right fun _ =>
      Iff.trans ⟨fun read => ⟨_, read, rfl⟩, ?_⟩ Json.decode_record_object.symm
  rintro ⟨parts, read, made⟩
  rw [← made]
  exact read

/-- Only an object is a settings file. -/
theorem exists_object {text : String} {file : SettingsFile} (h : codec.read text = .ok file) :
    ∃ ms, Document.read text.toList = ⟨.object (.of ms), true⟩ := by
  obtain ⟨decoded, complete⟩ := Json.read_eq_ok.1 h
  cases document : Document.read text.toList with
  | mk t whole =>
    rw [document] at decoded complete
    obtain rfl : whole = true := complete
    cases t with
    | object members =>
      obtain ⟨ms, rfl⟩ := Members.exists_of (skip_of_read document)
      exact ⟨ms, rfl⟩
    | null | bool | number | string | array | broken => cases decoded

/-- The members of an object that can be read freely can be so one by one. -/
theorem free_of_members {depth : ℕ} {ms : List (Option String × Tree)}
    {done entries : List (String × Value)} (h : (Members.of ms).free depth done = .ok entries) :
    ∀ m ∈ ms, Free depth m := by
  induction ms generalizing done with
  | nil => exact nofun
  | cons m ms ih =>
    obtain ⟨name, t⟩ := m
    cases name with
    | none => cases h
    | some name =>
      rw [Members.of, Members.free, bind_eq_ok_iff] at h
      obtain ⟨v, first, others⟩ := h
      exact List.forall_mem_cons.2 ⟨fun _ => ⟨v, first⟩, ih others⟩

theorem free_of_read {text : String} {ms : List (Option String × Tree)} {v : Value}
    (object : Document.read text.toList = ⟨.object (.of ms), true⟩)
    (free : Codec.free.read text = .ok v) : ∀ m ∈ ms, Free (maxDepth - 1) m := by
  have decoded := Json.decode_of_read free
  rw [object] at decoded
  obtain ⟨entries, members, -⟩ := map_eq_ok_iff.1 decoded
  exact free_of_members members

/-- What a settings file says about the relay is what its text says that is read as settings. A text
of settings that is an object and can be read freely is a settings file with the log settings that it
holds. -/
theorem read_agrees (text : String) :
    (∀ file, codec.read text = .ok file → Settings.read text = .ok file.settings) ∧
      ∀ members v, Document.read text.toList = ⟨.object members, true⟩ →
        Codec.free.read text = .ok v → ∀ file, codec.read text = .ok file ↔
          Settings.read text = .ok file.settings ∧ HoldsLog members file.log := by
  constructor
  · intro file read
    obtain ⟨ms, object⟩ := exists_object read
    exact ((read_eq_ok_iff object).1 read).2.2
  · intro members v object free file
    obtain ⟨ms, rfl⟩ := Members.exists_of (skip_of_read object)
    rw [read_eq_ok_iff object, and_iff_right (free_of_read object free), and_comm]

/-- A file with two members of one name that is no field, and with one of that kind in its log
settings. -/
theorem read_agrees_cluttered :
    let text := "\x7b\"x\":[],\"log\":\x7b\"level\":\"off\",\"x\":null\x7d,\"agents\":[\"a\"],\"x\":true\x7d"
    let file : SettingsFile := ⟨⟨["a"], 100, 5000⟩, ⟨"off", [], false⟩⟩
    Settings.read text = .ok file.settings ∧ codec.read text = .ok file := by
  intro text file
  let log := Tree.object (.of [(some "level", .string (some "off")), (some "x", .null)])
  let members := Members.of [(some "x", .array .close), (some "log", log),
    (some "agents", .array (.of [.string (some "a")])), (some "x", .bool true)]
  let v := Value.object [("agents", .array [.string "a"]),
    ("log", .object [("level", .string "off"), ("x", .null)]), ("x", .bool true)]
  have object : Document.read text.toList = ⟨.object members, true⟩ := by cbv
  have laidOut := Json.read_iff_laidOut.1 object
  have free : Codec.free.read text = .ok v := Json.read_eq_ok_iff_laidOut.2 ⟨_, laidOut, rfl⟩
  have settings : Settings.read text = .ok file.settings :=
    Settings.read_eq_ok_iff.2 (Json.read_eq_ok_iff_laidOut.2 ⟨_, laidOut, rfl⟩)
  have holds : HoldsLog members file.log := .present (t := log) rfl rfl
  have read := ((read_agrees text).2 members v object free file).2 ⟨settings, holds⟩
  exact ⟨(read_agrees text).1 file read, read⟩

end SettingsFile

end TxRelay
