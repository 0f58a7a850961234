import Mathlib.Tactic
import TxRelay.Event
import TxRelay.Request
import TxRelay.Verdict
import TxRelay.Proofs.Json.RoundTrip

/-!
# Events, requests and verdicts on the wire

Whatever an event, a message, a request or a verdict holds, its codec keeps it. The only invariant
that is needed is the one of maps: their entries are sorted by name.

Results:
* `Event.keeps`, `Request.keeps`, `Verdict.keeps`: the codecs of the texts that come in, go out to the
  agents and come back.
-/

namespace TxRelay

open Json (Arrangement Ascending Value keeps_choice keeps_flag keeps_list keeps_map keeps_optional
  keeps_record keeps_text keeps_textOrNull keeps_word)

variable {arrange : Value → Value} {depth : ℕ}

theorem keeps_texts (order : Arrangement arrange) (texts : List String) :
    (Json.Codec.list .text).Keeps arrange (depth + 1) texts :=
  keeps_list order fun s _ => keeps_text order s

/-! ## Events -/

theorem Event.Block.keeps (order : Arrangement arrange) (b : Event.Block) :
    Event.Block.codec.Keeps arrange (depth + 1) b :=
  keeps_record order (by decide)
    (.cons (.shown (keeps_textOrNull order b.number) rfl) <|
      .cons (.shown (keeps_textOrNull order b.hash) rfl) <|
      .cons (.shown (keeps_textOrNull order b.timestamp) rfl) .nil) rfl

theorem Event.Transaction.keeps (order : Arrangement arrange) (t : Event.Transaction) :
    Event.Transaction.codec.Keeps arrange (depth + 1) t :=
  keeps_record order (by decide)
    (.cons (.shown (keeps_textOrNull order t.hash) rfl) <|
      .cons (.shown (keeps_textOrNull order t.sender) rfl) <|
      .cons (.shown (keeps_textOrNull order t.recipient) rfl) <|
      .cons (.shown (keeps_textOrNull order t.nonce) rfl) <|
      .cons (.shown (keeps_textOrNull order t.gas) rfl) <|
      .cons (.shown (keeps_textOrNull order t.gasPrice) rfl) <|
      .cons (.shown (keeps_textOrNull order t.value) rfl) <|
      .cons (.shown (keeps_textOrNull order t.input) rfl) .nil) rfl

theorem Event.Log.keeps (order : Arrangement arrange) (l : Event.Log) :
    Event.Log.codec.Keeps arrange (depth + 2) l :=
  keeps_record order (by decide)
    (.cons (.shown (keeps_textOrNull order l.address) rfl) <|
      .cons (.shown (keeps_texts order l.topics) rfl) <|
      .cons (.shown (keeps_textOrNull order l.data) rfl) <|
      .cons (.shown (keeps_textOrNull order l.index) rfl) .nil) rfl

theorem Event.Receipt.keeps (order : Arrangement arrange) (r : Event.Receipt) :
    Event.Receipt.codec.Keeps arrange (depth + 4) r :=
  keeps_record order (by decide)
    (.cons (.shown (keeps_textOrNull order r.status) rfl) <|
      .cons (.shown (keeps_textOrNull order r.gasUsed) rfl) <|
      .cons (.shown (keeps_textOrNull order r.contractAddress) rfl) <|
      .cons (.shown (keeps_list order fun l _ => l.keeps order) rfl) .nil) rfl

theorem Event.keeps (order : Arrangement arrange) (e : Event) :
    Event.codec.Keeps arrange (depth + 5) e :=
  keeps_record order (by decide)
    (.cons (.shown (keeps_textOrNull order e.chainId) rfl) <|
      .cons (.shown (keeps_optional order (fun b _ => b.keeps order) nofun) rfl) <|
      .cons (.shown (keeps_optional order (fun t _ => t.keeps order) nofun) rfl) <|
      .cons (.shown (keeps_optional order (fun r _ => r.keeps order) nofun) rfl) .nil) rfl

/-! ## Requests -/

theorem Message.Block.keeps (order : Arrangement arrange) (b : Message.Block) :
    Message.Block.codec.Keeps arrange (depth + 1) b :=
  keeps_record order (by decide)
    (.cons (.shown (keeps_word order b.number) rfl) <|
      .cons (.shown (keeps_text order b.hash) rfl) <|
      .cons (.shown (keeps_word order b.timestamp) rfl) .nil) rfl

theorem Message.Transaction.keeps (order : Arrangement arrange) (t : Message.Transaction) :
    Message.Transaction.codec.Keeps arrange (depth + 1) t :=
  keeps_record order (by decide)
    (.cons (.shown (keeps_text order t.hash) rfl) <|
      .cons (.shown (keeps_text order t.sender) rfl) <|
      .cons (.hide_isNone (keeps_textOrNull order t.recipient) rfl) <|
      .cons (.shown (keeps_word order t.nonce) rfl) <|
      .cons (.shown (keeps_word order t.gas) rfl) <|
      .cons (.shown (keeps_text order t.gasPrice) rfl) <|
      .cons (.shown (keeps_text order t.value) rfl) <|
      .cons (.shown (keeps_text order t.input) rfl) .nil) rfl

theorem Message.Log.keeps (order : Arrangement arrange) (l : Message.Log) :
    Message.Log.codec.Keeps arrange (depth + 2) l :=
  keeps_record order (by decide)
    (.cons (.shown (keeps_text order l.address) rfl) <|
      .cons (.shown (keeps_texts order l.topics) rfl) <|
      .cons (.shown (keeps_text order l.data) rfl) <|
      .cons (.shown (keeps_word order l.index) rfl) .nil) rfl

theorem Message.Receipt.keeps (order : Arrangement arrange) (r : Message.Receipt) :
    Message.Receipt.codec.Keeps arrange (depth + 4) r :=
  keeps_record order (by decide)
    (.cons (.shown (keeps_flag order r.success) rfl) <|
      .cons (.shown (keeps_word order r.gasUsed) rfl) <|
      .cons (.hide_isNone (keeps_textOrNull order r.contractAddress) rfl) <|
      .cons (.shown (keeps_list order fun l _ => l.keeps order) rfl) .nil) rfl

theorem Message.keeps (order : Arrangement arrange) (m : Message) :
    Message.codec.Keeps arrange (depth + 5) m :=
  keeps_record order (by decide)
    (.cons (.shown (keeps_word order m.chainId) rfl) <|
      .cons (.shown (m.block.keeps order) rfl) <|
      .cons (.shown (m.transaction.keeps order) rfl) <|
      .cons (.hide_isNone (keeps_optional order (fun r _ => r.keeps order) nofun) rfl) .nil) rfl

theorem Request.keeps (order : Arrangement arrange) (r : Request) :
    Request.codec.Keeps arrange (depth + 6) r :=
  keeps_record order (by decide)
    (.cons (.shown (keeps_text order r.id) rfl) <|
      .cons (.shown (r.message.keeps order) rfl) .nil) rfl

/-! ## Verdicts -/

theorem keeps_entries (order : Arrangement arrange) {entries : List (String × String)}
    (sorted : Ascending entries) : (Json.Codec.map .text).Keeps arrange (depth + 1) entries :=
  keeps_map order sorted fun m _ => keeps_text order m.2

namespace Verdict

theorem Status.keeps (order : Arrangement arrange) (s : Status) :
    Status.codec.Keeps arrange depth s :=
  keeps_choice order (by cases s <;> decide)

theorem Severity.keeps (order : Arrangement arrange) (s : Severity) :
    Severity.codec.Keeps arrange depth s :=
  keeps_choice order (by cases s <;> decide)

theorem Problem.keeps (order : Arrangement arrange) (p : Problem) :
    Problem.codec.Keeps arrange (depth + 1) p :=
  keeps_record order (by decide)
    (.cons (.shown (keeps_text order p.message) rfl) .nil) rfl

theorem Finding.keeps (order : Arrangement arrange) {f : Finding} (sorted : Ascending f.metadata) :
    Finding.codec.Keeps arrange (depth + 2) f :=
  keeps_record order (by decide)
    (.cons (.shown (keeps_text order f.alertId) rfl) <|
      .cons (.shown (keeps_text order f.name) rfl) <|
      .cons (.shown (keeps_text order f.description) rfl) <|
      .cons (.shown (f.severity.keeps order) rfl) <|
      .cons (.shown (keeps_text order f.kind) rfl) <|
      .cons (.shown (keeps_text order f.protocol) rfl) <|
      .cons (.shown (keeps_entries order sorted) rfl) .nil) rfl

end Verdict

/-- The entries of a verdict and of its findings are sorted by name. -/
def Verdict.Sorted (v : Verdict) : Prop :=
  Ascending v.metadata ∧ ∀ f ∈ v.findings, Ascending f.metadata

theorem Verdict.keeps (order : Arrangement arrange) {v : Verdict} (sorted : v.Sorted) :
    Verdict.codec.Keeps arrange (depth + 4) v :=
  keeps_record order (by decide)
    (.cons (.shown (v.status.keeps order) rfl) <|
      .cons (.hide_isEmpty (keeps_list order fun p _ => p.keeps order) rfl) <|
      .cons (.shown (keeps_list order fun f hf => Finding.keeps order (sorted.2 f hf)) rfl) <|
      .cons (.hide_isEmpty (keeps_entries order sorted.1) rfl) <|
      .cons (.hide_isNone (keeps_textOrNull order v.timestamp) rfl) .nil) rfl

end TxRelay
