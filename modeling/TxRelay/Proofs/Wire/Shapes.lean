import Mathlib.Tactic
import TxRelay.Rpc
import TxRelay.Relay.Basic
import TxRelay.Settings.File
import TxRelay.Proofs.Json.Reordering
import TxRelay.Proofs.Json.RoundTrip

/-!
# The shapes of the wire

Every type on the wire but the settings file is a record of scalars, choices, lists, maps and further
records, and some hold free values.

Results:
* `Verdict.routes_agree`: a verdict is read from a text as it is from the free value of the text.
-/

namespace TxRelay

open Json (Codec Fields Number Tree Value maxDepth)

/-! ## Events and requests -/

namespace Event

/-- The shape of blocks. -/
def Block.shape : Block.codec.Shape :=
  .record (by decide) (.cons .textOrNull <| .cons .textOrNull <| .cons .textOrNull .nil)

/-- The shape of transactions. -/
def Transaction.shape : Transaction.codec.Shape :=
  .record (by decide)
    (.cons .textOrNull <| .cons .textOrNull <| .cons .textOrNull <| .cons .textOrNull <|
      .cons .textOrNull <| .cons .textOrNull <| .cons .textOrNull <| .cons .textOrNull .nil)

/-- The shape of log entries. -/
def Log.shape : Log.codec.Shape :=
  .record (by decide)
    (.cons .textOrNull <| .cons .texts <| .cons .textOrNull <| .cons .textOrNull .nil)

/-- The shape of receipts. -/
def Receipt.shape : Receipt.codec.Shape :=
  .record (by decide)
    (.cons .textOrNull <| .cons .textOrNull <| .cons .textOrNull <| .cons (.list Log.shape) .nil)

/-- The shape of events. -/
def shape : codec.Shape :=
  .record (by decide)
    (.cons .textOrNull <| .cons (.optional Block.shape) <| .cons (.optional Transaction.shape) <|
      .cons (.optional Receipt.shape) .nil)

end Event

namespace Message

/-- The shape of blocks. -/
def Block.shape : Block.codec.Shape :=
  .record (by decide) (.cons .word <| .cons .text <| .cons .word .nil)

/-- The shape of transactions. -/
def Transaction.shape : Transaction.codec.Shape :=
  .record (by decide)
    (.cons .text <| .cons .text <| .cons .textOrNull <| .cons .word <| .cons .word <| .cons .text <|
      .cons .text <| .cons .text .nil)

/-- The shape of log entries. -/
def Log.shape : Log.codec.Shape :=
  .record (by decide) (.cons .text <| .cons .texts <| .cons .text <| .cons .word .nil)

/-- The shape of receipts. -/
def Receipt.shape : Receipt.codec.Shape :=
  .record (by decide)
    (.cons .flag <| .cons .word <| .cons .textOrNull <| .cons (.list Log.shape) .nil)

/-- The shape of messages. -/
def shape : codec.Shape :=
  .record (by decide)
    (.cons .word <| .cons Block.shape <| .cons Transaction.shape <|
      .cons (.optional Receipt.shape) .nil)

end Message

/-- The shape of requests. -/
def Request.shape : Request.codec.Shape :=
  .record (by decide) (.cons .text <| .cons Message.shape .nil)

/-! ## Settings and counts -/

/-- The shapes of the fields of settings. -/
def Settings.fieldsShape : Settings.fields.Shape :=
  .cons .texts <| .cons .size <| .cons .word .nil

/-- The shape of settings. -/
def Settings.shape : Settings.codec.Shape :=
  .record (by decide) Settings.fieldsShape

/-- The shape of log settings. -/
def LogSettings.shape : LogSettings.codec.Shape :=
  .record (by decide) (.cons .text <| .cons (.map Json.scalar_text) <| .cons .flag .nil)

/-- The shape of the counts of a worker. -/
def Worker.Stats.shape : Worker.Stats.codec.Shape :=
  .record (by decide)
    (.cons .text <| .cons (.natural "u64") <| .cons (.natural "u64") <| .cons (.natural "u64") <|
      .cons (.natural "u64") <| .cons (.natural "u64") .nil)

/-- The shape of summaries. -/
def Relay.Summary.shape : Relay.Summary.codec.Shape :=
  .record (by decide)
    (.cons (.natural "u64") <| .cons (.natural "u64") <| .cons (.natural "u64") <|
      .cons (.list Worker.Stats.shape) .nil)

/-! ## Remote calls -/

namespace Rpc

/-- An identifier is a scalar, although it is read as a free value. -/
theorem scalar_id : Id.codec.Scalar where
  leaf {origin depth t id} h := by
    obtain ⟨v, free, made⟩ := Except.bind_eq_ok_iff.1 h
    cases t with
    | array | object =>
      cases depth with
      | zero => cases free
      | succ depth =>
        obtain ⟨_, -, rfl⟩ := Except.map_eq_ok_iff.1 free
        cases made
    | null | bool | number | string | broken => trivial
  anywhere {origin depth t id} h origin' depth' := by
    obtain ⟨v, free, made⟩ := Except.bind_eq_ok_iff.1 h
    refine Except.bind_eq_ok_iff.2 ⟨v, ?_, made⟩
    cases t with
    | array | object =>
      cases depth with
      | zero => cases free
      | succ depth =>
        obtain ⟨_, -, rfl⟩ := Except.map_eq_ok_iff.1 free
        cases made
    | null | bool | broken => exact free
    | number n => cases n <;> exact free
    | string s => cases s <;> exact free

/-- The shape of calls. -/
def Call.shape : Call.codec.Shape :=
  .record (by decide)
    (.cons .text <| .cons .text <| .cons (.list .free) <| .cons (.scalar scalar_id) .nil)

/-- The shape of error objects. -/
def ErrorObject.shape : ErrorObject.codec.Shape :=
  .record (by decide) (.cons .integer <| .cons .text <| .cons (.optional .free) .nil)

/-- The shape of answers. -/
def Answer.shape : Answer.codec.Shape :=
  .record (by decide)
    (.cons .text <| .cons (.scalar scalar_id) <| .cons (.optional .free) <|
      .cons (.optional ErrorObject.shape) .nil)

end Rpc

theorem Json.distinct_text {v : Value} (exactly : v.Exact) (distinct : v.tree.Distinct) :
    (Json.Document.read v.text.toList).tree.Distinct := by
  rw [Value.text, String.toList_ofList, Json.read_chars exactly]
  exact distinct

/-! ## Verdicts -/

namespace Verdict

/-- The shape of problems. -/
def Problem.shape : Problem.codec.Shape :=
  .record (by decide) (.cons .text .nil)

/-- The shape of findings. -/
def Finding.shape : Finding.codec.Shape :=
  .record (by decide)
    (.cons .text <| .cons .text <| .cons .text <| .cons (.choice _ _) <| .cons .text <| .cons .text <|
      .cons (.map Json.scalar_text) .nil)

/-- The shape of verdicts. -/
def shape : codec.Shape :=
  .record (by decide)
    (.cons (.choice _ _) <| .cons (.list Problem.shape) <| .cons (.list Finding.shape) <|
      .cons (.map Json.scalar_text) <| .cons .textOrNull .nil)

/-- A verdict is read from a text exactly if it is read from the free value of the text, as the relay
does with the result of an answer. No object of the text repeats a name. -/
theorem routes_agree {text : String} {v : Value} (free : Codec.free.read text = .ok v)
    (distinct : (Json.Document.read text.toList).tree.Distinct) (r : Verdict) :
    codec.read text = .ok r ↔ codec.ofValue v = .ok r :=
  shape.read_iff_ofValue free distinct r

/-- A verdict with positional parts, a status and a grade as objects, null members and unknown ones, in
an order that is not that of the names. -/
theorem routes_agree_positional :
    let finding := Value.array [.string "a", .string "b", .string "",
      .object [("HIGH", .null)], .string "t"]
    let parts := [("timestamp", Value.null), ("more", .array [.object [("x", .bool true)]]),
      ("errors", .array [.array [.string "e"]]), ("status", .object [("ERROR", .null)]),
      ("findings", .array [finding])]
    let text := (Value.object parts).text
    let v := Value.object [("errors", .array [.array [.string "e"]]), ("findings", .array [finding]),
      ("more", .array [.object [("x", .bool true)]]), ("status", .object [("ERROR", .null)]),
      ("timestamp", .null)]
    let r : Verdict := ⟨.error, [⟨"e"⟩], [⟨"a", "b", "", .high, "t", "", []⟩], [], .none⟩
    Codec.free.read text = .ok v ∧ (Json.Document.read text.toList).tree.Distinct ∧
      (codec.read text = .ok r ↔ codec.ofValue v = .ok r) ∧ codec.ofValue v = .ok r := by
  intro finding parts text v r
  have exactly : (Value.object parts).Exact := by simp [parts, finding]
  have free : Codec.free.read text = .ok v := Json.read_text exactly rfl
  have tree : (Value.object parts).tree.Distinct := by
    simp [parts, finding, Value.tree, Json.itemsTree, Json.membersTree, Tree.Distinct,
      Json.Elements.Distinct, Json.Members.Distinct, Json.Members.names]
  have distinct := Json.distinct_text exactly tree
  exact ⟨free, distinct, routes_agree free distinct r, rfl⟩

end Verdict

end TxRelay
