import Mathlib.Tactic
import TxRelay.Proofs.Json.Forms
import TxRelay.Proofs.Wire.RoundTrip
import TxRelay.Proofs.Wire.Shapes

/-!
# Object and positional form on the wire

Every type on the wire that is a record without free values is read from its positional form as it is
from its object form, and each record in it from either. A positional record may be shorter by elements
that have a default. A missing value is written as null at the end of a positional record if the field
has no default, although an object may leave the field out.

Results:
* `wire_forms`: the forms of every such type.
-/

namespace TxRelay

open Json (Ascending Codec Value arrangement_asWritten kept_entries kept_flag kept_natural
  kept_optional kept_size kept_text kept_textOrNull kept_texts kept_word maxDepth unsignedBound)

variable {depth : ℕ}

/-! ## Events -/

namespace Event

theorem Block.kept (b : Block) : Block.shape.Kept (depth + 1) b :=
  .record (.cons (kept_textOrNull b.number) <| .cons (kept_textOrNull b.hash) <|
    .cons (kept_textOrNull b.timestamp) .nil) rfl

theorem Transaction.kept (t : Transaction) : Transaction.shape.Kept (depth + 1) t :=
  .record (.cons (kept_textOrNull t.hash) <| .cons (kept_textOrNull t.sender) <|
    .cons (kept_textOrNull t.recipient) <| .cons (kept_textOrNull t.nonce) <|
    .cons (kept_textOrNull t.gas) <| .cons (kept_textOrNull t.gasPrice) <|
    .cons (kept_textOrNull t.value) <| .cons (kept_textOrNull t.input) .nil) rfl

theorem Log.kept (l : Log) : Log.shape.Kept (depth + 2) l :=
  .record (.cons (kept_textOrNull l.address) <| .cons (kept_texts l.topics) <|
    .cons (kept_textOrNull l.data) <| .cons (kept_textOrNull l.index) .nil) rfl

theorem Receipt.kept (r : Receipt) : Receipt.shape.Kept (depth + 4) r :=
  .record (.cons (kept_textOrNull r.status) <| .cons (kept_textOrNull r.gasUsed) <|
    .cons (kept_textOrNull r.contractAddress) <| .cons (.list fun l _ => l.kept) .nil) rfl

theorem kept (e : Event) : shape.Kept (depth + 5) e :=
  .record (.cons (kept_textOrNull e.chainId) <|
    .cons (kept_optional (fun b _ => b.kept) nofun) <|
    .cons (kept_optional (fun t _ => t.kept) nofun) <|
    .cons (kept_optional (fun r _ => r.kept) nofun) .nil) rfl

end Event

/-! ## Requests -/

namespace Message

theorem Block.kept (b : Block) : Block.shape.Kept (depth + 1) b :=
  .record (.cons (kept_word b.number) <| .cons (kept_text b.hash) <|
    .cons (kept_word b.timestamp) .nil) rfl

theorem Transaction.kept (t : Transaction) : Transaction.shape.Kept (depth + 1) t :=
  .record (.cons (kept_text t.hash) <| .cons (kept_text t.sender) <|
    .cons (kept_textOrNull t.recipient) <| .cons (kept_word t.nonce) <| .cons (kept_word t.gas) <|
    .cons (kept_text t.gasPrice) <| .cons (kept_text t.value) <| .cons (kept_text t.input) .nil) rfl

theorem Log.kept (l : Log) : Log.shape.Kept (depth + 2) l :=
  .record (.cons (kept_text l.address) <| .cons (kept_texts l.topics) <| .cons (kept_text l.data) <|
    .cons (kept_word l.index) .nil) rfl

theorem Receipt.kept (r : Receipt) : Receipt.shape.Kept (depth + 4) r :=
  .record (.cons (kept_flag r.success) <| .cons (kept_word r.gasUsed) <|
    .cons (kept_textOrNull r.contractAddress) <| .cons (.list fun l _ => l.kept) .nil) rfl

theorem kept (m : Message) : shape.Kept (depth + 5) m :=
  .record (.cons (kept_word m.chainId) <| .cons m.block.kept <| .cons m.transaction.kept <|
    .cons (kept_optional (fun r _ => r.kept) nofun) .nil) rfl

end Message

theorem Request.kept (r : Request) : Request.shape.Kept (depth + 6) r :=
  .record (.cons (kept_text r.id) <| .cons r.message.kept .nil) rfl

/-! ## Verdicts -/

namespace Verdict

theorem Problem.kept (p : Problem) : Problem.shape.Kept (depth + 1) p :=
  .record (.cons (kept_text p.message) .nil) rfl

theorem Finding.kept {f : Finding} (sorted : Ascending f.metadata) :
    Finding.shape.Kept (depth + 2) f :=
  .record (.cons (kept_text f.alertId) <| .cons (kept_text f.name) <|
    .cons (kept_text f.description) <| .cons (.choice (f.severity.keeps arrangement_asWritten)) <|
    .cons (kept_text f.kind) <| .cons (kept_text f.protocol) <| .cons (kept_entries sorted) .nil) rfl

theorem kept {v : Verdict} (sorted : v.Sorted) : shape.Kept (depth + 4) v :=
  .record (.cons (.choice (v.status.keeps arrangement_asWritten)) <|
    .cons (.list fun p _ => p.kept) <|
    .cons (.list fun f hf => Finding.kept (sorted.2 f hf)) <| .cons (kept_entries sorted.1) <|
    .cons (kept_textOrNull v.timestamp) .nil) rfl

end Verdict

/-! ## Settings and counts -/

theorem Settings.kept (s : Settings) : Settings.shape.Kept (depth + 2) s :=
  .record (.cons (kept_texts s.agents) <| .cons (kept_size s.queueCapacity) <|
    .cons (kept_word s.callTimeout) .nil) rfl

theorem LogSettings.kept {s : LogSettings} (sorted : Ascending s.components) :
    LogSettings.shape.Kept (depth + 2) s :=
  .record (.cons (kept_text s.level) <| .cons (kept_entries sorted) <|
    .cons (kept_flag s.json) .nil) rfl

theorem Worker.Stats.kept {s : Worker.Stats} (fits : s.counts.Fits) :
    Worker.Stats.shape.Kept (depth + 1) s :=
  .record (.cons (kept_text s.agent) <| .cons (kept_natural fits.received) <|
    .cons (kept_natural fits.succeeded) <| .cons (kept_natural fits.failed) <|
    .cons (kept_natural fits.rejected) <| .cons (kept_natural fits.timedOut) .nil) rfl

theorem Relay.Summary.kept {s : Relay.Summary} (fits : s.Fits) :
    Relay.Summary.shape.Kept (depth + 3) s :=
  .record (.cons (kept_natural fits.received) <| .cons (kept_natural fits.unconverted) <|
    .cons (kept_natural fits.dispatched) <|
    .cons (.list fun w hw => Worker.Stats.kept (fits.workers w hw)) .nil) rfl

/-! ## Every type -/

/-- Whatever form a value is written in, and each record inside it likewise, it is read back, and a
positional record that lacks an element without a default is of invalid length. Where the last field of
a type has no default, no positional form is shorter. The maps of a value are sorted by name and its
counts fit in 64 bits, as they do in memory. -/
theorem wire_forms :
    ((∀ e : Event, Event.shape.ReadsForms e) ∧
      (∀ b : Event.Block, Event.Block.shape.ReadsForms b ∧
        Event.Block.shape.NeedsLast "RawBlock" 2 b) ∧
      (∀ t : Event.Transaction, Event.Transaction.shape.ReadsForms t) ∧
      (∀ r : Event.Receipt, Event.Receipt.shape.ReadsForms r) ∧
      ∀ l : Event.Log, Event.Log.shape.ReadsForms l ∧ Event.Log.shape.NeedsLast "RawLog" 3 l) ∧
    ((∀ m : Message, Message.shape.ReadsForms m) ∧
      (∀ b : Message.Block, Message.Block.shape.ReadsForms b ∧
        Message.Block.shape.NeedsLast "BlockInfo" 2 b) ∧
      (∀ t : Message.Transaction, Message.Transaction.shape.ReadsForms t ∧
        Message.Transaction.shape.NeedsLast "TransactionInfo" 7 t) ∧
      (∀ r : Message.Receipt, Message.Receipt.shape.ReadsForms r ∧
        Message.Receipt.shape.NeedsLast "ReceiptInfo" 3 r) ∧
      (∀ l : Message.Log, Message.Log.shape.ReadsForms l ∧
        Message.Log.shape.NeedsLast "LogInfo" 3 l) ∧
      ∀ r : Request, Request.shape.ReadsForms r ∧ Request.shape.NeedsLast "EvaluateRequest" 1 r) ∧
    ((∀ v : Verdict, v.Sorted → Verdict.shape.ReadsForms v) ∧
      (∀ p : Verdict.Problem, Verdict.Problem.shape.ReadsForms p ∧
        Verdict.Problem.shape.NeedsLast "ResponseError" 0 p) ∧
      ∀ f : Verdict.Finding, Ascending f.metadata → Verdict.Finding.shape.ReadsForms f) ∧
    ((∀ s : Settings, Settings.shape.ReadsForms s) ∧
      ∀ s : LogSettings, Ascending s.components → LogSettings.shape.ReadsForms s) ∧
    (∀ s : Worker.Stats, s.counts.Fits →
      Worker.Stats.shape.ReadsForms s ∧ Worker.Stats.shape.NeedsLast "WorkerStats" 5 s) ∧
    ∀ s : Relay.Summary, s.Fits →
      Relay.Summary.shape.ReadsForms s ∧ Relay.Summary.shape.NeedsLast "DispatchSummary" 3 s := by
  refine ⟨⟨?_, ?_, ?_, ?_, ?_⟩, ⟨?_, ?_, ?_, ?_, ?_, ?_⟩, ⟨?_, ?_, ?_⟩, ⟨?_, ?_⟩, ?_, ?_⟩
  · exact fun e => e.kept.readsForms
  · exact fun b => b.kept.needsLast rfl rfl
  · exact fun t => t.kept.readsForms
  · exact fun r => r.kept.readsForms
  · exact fun l => l.kept.needsLast rfl rfl
  · exact fun m => m.kept.readsForms
  · exact fun b => b.kept.needsLast rfl rfl
  · exact fun t => t.kept.needsLast rfl rfl
  · exact fun r => r.kept.needsLast rfl rfl
  · exact fun l => l.kept.needsLast rfl rfl
  · exact fun r => r.kept.needsLast rfl rfl
  · exact fun v sorted => (Verdict.kept sorted).readsForms
  · exact fun p => p.kept.needsLast rfl rfl
  · exact fun f sorted => (Verdict.Finding.kept sorted).readsForms
  · exact fun s => s.kept.readsForms
  · exact fun s sorted => (LogSettings.kept sorted).readsForms
  · exact fun s fits => (Worker.Stats.kept fits).needsLast rfl rfl
  · exact fun s fits => (Relay.Summary.kept fits).needsLast rfl rfl

/-- A verdict of which every record is an array, and the same without the message of its problem; log
settings in another order and without what is default; a summary with its counts in both forms; and a
block whose time only an object may leave out. -/
theorem wire_forms_samples :
    (let finding : Verdict.Finding := ⟨"a", "b", "", .high, "t", "", []⟩
      let verdict : Verdict := ⟨.error, [⟨"e"⟩], [finding], [("k", "v")], none⟩
      let findings := [.string "a", .string "b", .string "", .string "HIGH", .string "t"]
      let written (problem : List Value) := Value.array [.string "ERROR", .array [.array problem],
        .array [.array findings], .object [("k", .string "v")]]
      (verdict.Sorted ∧ Verdict.codec.read (written [.string "e"]).text = .ok verdict ∧
        Verdict.codec.read (written []).text =
          .error (.invalidLength 0 "struct ResponseError with 1 element")) ∧
      (Ascending finding.metadata ∧
        Verdict.Finding.codec.read (Value.array findings).text = .ok finding)) ∧
    (let log : LogSettings := ⟨"off", [], true⟩
      let written := Value.object [("json", .bool true), ("level", .string "off")]
      Ascending log.components ∧ LogSettings.codec.read written.text = .ok log) ∧
    (let stats : Worker.Stats := ⟨"a", ⟨0, 0, 0, 0, 0⟩⟩
      let summary : Relay.Summary := ⟨⟨0, 0, 0⟩, [stats, stats]⟩
      let zero := Value.number (.natural 0)
      let items := [.string "a", zero, zero, zero, zero]
      let named := [("agent", .string "a"), ("received", zero), ("succeeded", zero), ("failed", zero),
        ("rejected", zero), ("timed_out", zero)]
      (stats.counts.Fits ∧ Worker.Stats.codec.read (Value.array items).text =
        .error (.invalidLength 5 "struct WorkerStats with 6 elements")) ∧
      (summary.Fits ∧ Relay.Summary.codec.read
        (Value.array [zero, zero, zero, .array [.array (items ++ [zero]), .object named]]).text =
          .ok summary)) ∧
    (let block : Event.Block := ⟨some "0x1", none, none⟩
      let number := Value.string "0x1"
      Event.Block.codec.read (Value.object [("number", number)]).text = .ok block ∧
        Event.Block.codec.read (Value.array [number, .null]).text =
          .error (.invalidLength 2 "struct RawBlock with 3 elements")) := by
  obtain ⟨⟨-, block, -, -, -⟩, -, ⟨verdict, -, finding⟩, ⟨-, log⟩, stats, summary⟩ := wire_forms
  refine ⟨?_, ?_, ?_, ?_⟩
  · intro f v items written
    have sorted : v.Sorted := ⟨List.pairwise_singleton _ _, List.forall_mem_singleton.2 .nil⟩
    have form : Verdict.Finding.shape.Forms f (.array items) :=
      .inl ⟨items, rfl, rfl, rfl, rfl, rfl, rfl, rfl, rfl, rfl⟩
    have problem : Verdict.Problem.shape.Forms ⟨"e"⟩ (.array [.string "e"]) :=
      .inl ⟨[.string "e"], rfl, rfl, rfl⟩
    have whole : Verdict.shape.Forms v (written [.string "e"]) :=
      .inl ⟨_, rfl, rfl, ⟨_, rfl, .cons problem .nil⟩, ⟨_, rfl, .cons form .nil⟩, rfl, rfl, rfl⟩
    have short : Verdict.Problem.shape.Cut (.array [.string "e"]) (.array [])
        (.invalidLength 0 "struct ResponseError with 1 element") :=
      .inl ⟨[], [.string "e"], 0, rfl, rfl, rfl, rfl⟩
    have cut : Verdict.shape.Cut (written [.string "e"]) (written [])
        (.invalidLength 0 "struct ResponseError with 1 element") :=
      .inr <| .inl ⟨[.string "ERROR"], _, _, [_, _], rfl, rfl, [], _, _, [], rfl, rfl, short⟩
    obtain ⟨reads, fails⟩ := verdict v sorted
    exact ⟨⟨sorted, reads _ whole, fails _ _ _ whole cut⟩, .nil, (finding f .nil).1 _ form⟩
  · intro l written
    have form : LogSettings.shape.Forms l written :=
      .inr ⟨[("level", .string "off"), ("json", .bool true)], _, rfl, .swap _ _ [],
        .inr ⟨_, _, rfl, rfl, .inl ⟨rfl, .inr ⟨_, _, rfl, rfl, rfl⟩⟩⟩⟩
    exact ⟨.nil, (log l .nil).1 _ form⟩
  · intro w s zero items named
    have fits : w.counts.Fits := by constructor <;> simp [w, unsignedBound]
    have form : Worker.Stats.shape.Forms w (.array (items ++ [zero])) :=
      .inl ⟨_, rfl, rfl, rfl, rfl, rfl, rfl, rfl, rfl⟩
    have formNamed : Worker.Stats.shape.Forms w (.object named) :=
      .inr ⟨_, _, rfl, .refl _, .inr ⟨_, _, rfl, rfl, .inr ⟨_, _, rfl, rfl, .inr ⟨_, _, rfl, rfl,
        .inr ⟨_, _, rfl, rfl, .inr ⟨_, _, rfl, rfl, .inr ⟨_, _, rfl, rfl, rfl⟩⟩⟩⟩⟩⟩⟩
    have whole : Relay.Summary.shape.Forms s
        (.array [zero, zero, zero, .array [.array (items ++ [zero]), .object named]]) :=
      .inl ⟨_, rfl, rfl, rfl, rfl, ⟨_, rfl, .cons form (.cons formNamed .nil)⟩, rfl⟩
    have all : s.Fits := by
      refine ⟨?_, ?_, ?_, ?_⟩
      · simp [s, unsignedBound]
      · simp [s, unsignedBound]
      · simp [s, unsignedBound]
      · simpa [s] using fits
    exact ⟨⟨fits, (stats w fits).2 items zero rfl form⟩, all, (summary s all).1.1 _ whole⟩
  · intro b number
    obtain ⟨reads, needsLast⟩ := block b
    have named : Event.Block.shape.Forms b (.object [("number", number)]) :=
      .inr ⟨_, _, rfl, .refl _, .inr ⟨_, _, rfl, rfl, .inl ⟨rfl, .inl ⟨rfl, rfl⟩⟩⟩⟩
    have form : Event.Block.shape.Forms b (.array [number, .null, .null]) :=
      .inl ⟨_, rfl, rfl, rfl, rfl, rfl⟩
    exact ⟨reads.1 _ named, needsLast [number, .null] .null rfl form⟩

end TxRelay
