import TxRelay.Proofs.Conversion.Grammar

/-!
# The order in which an event is checked

An event is a number of parts, each a text of one kind that may or may not be absent. The conversion
checks them one after the other, and beside them that there is a block and a transaction and, last, that
the receipt does not contradict the transaction. Which checks there are depends on the shape of the
event only: whether it has a receipt, and how many log entries and topics.

Results:
* `checked_toMessage`: the conversion makes the checks in their order.
* `exists_offends`: the error of a refused event is that of the first check that fails.
* `exists_toMessage_iff`: an event has a message exactly if every check passes.
-/

namespace TxRelay

open Conversion

/-! ## The kinds of texts -/

namespace Conversion

/-- What a text is read as. -/
inductive Kind where
  | chain
  | word
  | wide
  | hash
  | address
  | bytes
  | status
  deriving DecidableEq, Repr

/-- The texts of a kind. -/
def Kind.Accepts : Kind → String → Prop
  | .chain => ChainText
  | .word => WordText
  | .wide => WideText
  | .hash => FixedText 32
  | .address => FixedText 20
  | .bytes => BytesText
  | .status => StatusText

/-- The error that a text which is not of a kind is refused with, as the part of a given name. -/
def Kind.Reports (part text : String) : Kind → ConversionError → Prop
  | .chain, err | .word, err | .wide, err | .status, err => err = .quantity part text
  | .hash, err => err = .hash part text
  | .address, err => err = .address part text
  | .bytes, err => ∃ fault, Quantity.bytes text.toList = .error fault ∧
      err = .bytes part fault.message

end Conversion

namespace Event

/-! ## The parts of an event -/

/-- The parts of a block. -/
inductive Block.Part where
  | number
  | hash
  | timestamp
  deriving DecidableEq, Repr

/-- The parts of a transaction. -/
inductive Transaction.Part where
  | hash
  | sender
  | recipient
  | nonce
  | gas
  | gasPrice
  | value
  | input
  deriving DecidableEq, Repr

/-- The parts of a receipt, its log entries aside. -/
inductive Receipt.Part where
  | status
  | gasUsed
  | contractAddress
  deriving DecidableEq, Repr

/-- The parts of a log entry. -/
inductive Log.Part where
  | address
  | topic (place : ℕ)
  | data
  | index
  deriving DecidableEq, Repr

/-- The parts of an event. -/
inductive Part where
  | chain
  | block (p : Block.Part)
  | transaction (p : Transaction.Part)
  | receipt (p : Receipt.Part)
  | log (entry : ℕ) (p : Log.Part)
  deriving DecidableEq, Repr

/-- The name of a part, what it is read as and whether it must be there. -/
structure Part.Rule where
  name : String
  kind : Kind
  required : Bool

/-- The rule of each part of a block. -/
def Block.Part.rule : Block.Part → Part.Rule
  | .number => ⟨"block.number", .word, true⟩
  | .hash => ⟨"block.hash", .hash, true⟩
  | .timestamp => ⟨"block.timestamp", .word, true⟩

/-- The rule of each part of a transaction. -/
def Transaction.Part.rule : Transaction.Part → Part.Rule
  | .hash => ⟨"transaction.hash", .hash, true⟩
  | .sender => ⟨"transaction.from", .address, true⟩
  | .recipient => ⟨"transaction.to", .address, false⟩
  | .nonce => ⟨"transaction.nonce", .word, true⟩
  | .gas => ⟨"transaction.gas", .word, true⟩
  | .gasPrice => ⟨"transaction.gasPrice", .wide, true⟩
  | .value => ⟨"transaction.value", .wide, true⟩
  | .input => ⟨"transaction.input", .bytes, false⟩

/-- The rule of each part of a receipt. -/
def Receipt.Part.rule : Receipt.Part → Part.Rule
  | .status => ⟨"receipt.status", .status, true⟩
  | .gasUsed => ⟨"receipt.gasUsed", .word, true⟩
  | .contractAddress => ⟨"receipt.contractAddress", .address, false⟩

/-- The rule of each part of a log entry. -/
def Log.Part.rule : Log.Part → Part.Rule
  | .address => ⟨"log.address", .address, true⟩
  | .topic _ => ⟨"log.topics", .hash, true⟩
  | .data => ⟨"log.data", .bytes, false⟩
  | .index => ⟨"log.logIndex", .word, true⟩

/-- The rule of each part of an event. -/
def Part.rule : Part → Part.Rule
  | .chain => ⟨"chainId", .chain, true⟩
  | .block p => p.rule
  | .transaction p => p.rule
  | .receipt p => p.rule
  | .log _ p => p.rule

/-- The text of each part of a block. -/
def Block.text (b : Block) : Block.Part → Option String
  | .number => b.number
  | .hash => b.hash
  | .timestamp => b.timestamp

/-- The text of each part of a transaction. -/
def Transaction.text (t : Transaction) : Transaction.Part → Option String
  | .hash => t.hash
  | .sender => t.sender
  | .recipient => t.recipient
  | .nonce => t.nonce
  | .gas => t.gas
  | .gasPrice => t.gasPrice
  | .value => t.value
  | .input => t.input

/-- The text of each part of a receipt. -/
def Receipt.text (r : Receipt) : Receipt.Part → Option String
  | .status => r.status
  | .gasUsed => r.gasUsed
  | .contractAddress => r.contractAddress

/-- The text of each part of a log entry. -/
def Log.text (l : Log) : Log.Part → Option String
  | .address => l.address
  | .topic place => l.topics[place]?
  | .data => l.data
  | .index => l.index

/-- The text of each part of an event, as far as it has that part. -/
def text (e : Event) : Part → Option String
  | .chain => e.chainId
  | .block p => e.block.bind (·.text p)
  | .transaction p => e.transaction.bind (·.text p)
  | .receipt p => e.receipt.bind (·.text p)
  | .log entry p => e.receipt.bind fun r => r.logs[entry]?.bind (·.text p)

/-! ## The checks -/

/-- What is checked of an event. -/
inductive Check where
  /-- A part is there if it must be, and is a text of its kind. -/
  | part (p : Part)
  /-- There is a block. -/
  | block
  /-- There is a transaction. -/
  | transaction
  /-- The receipt of a transaction with a recipient reports no created contract. -/
  | contract
  deriving DecidableEq, Repr

/-- The checks of a log entry. -/
def Log.checks (entry : ℕ) (l : Log) : List Check :=
  .part (.log entry .address) ::
    ((l.topics.mapIdx fun place _ => [.part (.log entry (.topic place))]).flatten ++
      [.part (.log entry .data), .part (.log entry .index)])

/-- The checks of a receipt. -/
def Receipt.checks (r : Receipt) : List Check :=
  .part (.receipt .status) :: .part (.receipt .gasUsed) :: .part (.receipt .contractAddress) ::
    (r.logs.mapIdx Log.checks).flatten

/-- The checks of a block. -/
def Block.checks : List Check :=
  [.part (.block .number), .part (.block .hash), .part (.block .timestamp)]

/-- The checks of a transaction. -/
def Transaction.checks : List Check :=
  [.part (.transaction .hash), .part (.transaction .sender), .part (.transaction .recipient),
    .part (.transaction .nonce), .part (.transaction .gas), .part (.transaction .gasPrice),
    .part (.transaction .value), .part (.transaction .input)]

/-- The checks of an event, in their order. -/
def checks (e : Event) : List Check :=
  .part .chain :: .block :: (Block.checks ++ .transaction :: (Transaction.checks ++
    (e.receipt.elim [] Receipt.checks ++ [.contract])))

namespace Check

variable {e : Event} {c : Check} {err : ConversionError}

/-- The name of what must be there. -/
def name : Check → String
  | .part p => p.rule.name
  | .block => "block"
  | .transaction => "transaction"
  | .contract => ""

/-- What a check asks of an event. -/
def Passes (e : Event) : Check → Prop
  | .part p => (p.rule.required = true → e.text p ≠ none) ∧ ∀ s ∈ e.text p, p.rule.kind.Accepts s
  | .block => e.block ≠ none
  | .transaction => e.transaction ≠ none
  | .contract => e.text (.transaction .recipient) = none ∨
      e.text (.receipt .contractAddress) = none

/-- An event lacks what a check needs to be there. -/
def Lacks (e : Event) : Check → Prop
  | .part p => p.rule.required = true ∧ e.text p = none
  | .block => e.block = none
  | .transaction => e.transaction = none
  | .contract => False

/-- An event does not pass a check, which reports an error. -/
inductive Fails (e : Event) : Check → ConversionError → Prop
  | missing {c : Check} (lacks : c.Lacks e) : Fails e c (.missing c.name)
  | malformed {p : Part} {s : String} {err : ConversionError} (text : s ∈ e.text p)
      (unfit : ¬ p.rule.kind.Accepts s) (reports : p.rule.kind.Reports p.rule.name s err) :
      Fails e (.part p) err
  | contradictory (recipient : e.text (.transaction .recipient) ≠ none)
      (contract : e.text (.receipt .contractAddress) ≠ none) : Fails e .contract contradiction

theorem not_lacks_of_passes (passes : c.Passes e) : ¬ c.Lacks e := by
  cases c with
  | part p => exact fun ⟨required, absent⟩ => passes.1 required absent
  | block => exact passes
  | transaction => exact passes
  | contract => exact not_false

theorem Fails.not_passes (fails : c.Fails e err) : ¬ c.Passes e := by
  intro passes
  cases fails with
  | missing lacks => exact not_lacks_of_passes passes lacks
  | malformed text unfit reports => exact unfit (passes.2 _ text)
  | contradictory recipient contract => exact passes.elim recipient contract

/-- No text is reported as missing. -/
theorem reports_ne_missing {k : Kind} {part text name : String}
    (h : k.Reports part text err) : err ≠ .missing name := by
  rintro rfl
  cases k <;> simp [Kind.Reports] at h

/-- Something is reported as missing exactly if it is. -/
theorem Fails.missing_iff (fails : c.Fails e err) : (∃ name, err = .missing name) ↔ c.Lacks e := by
  cases fails with
  | missing lacks => exact iff_of_true ⟨_, rfl⟩ lacks
  | malformed text unfit reports =>
    refine iff_of_false (fun ⟨_, absent⟩ => reports_ne_missing reports absent) fun lacks => ?_
    rw [lacks.2] at text
    cases text
  | contradictory => exact iff_of_false (by simp [contradiction]) not_false

end Check

/-- The check at a place of the order fails with an error, and every earlier one passes. -/
structure Offends (e : Event) (n : ℕ) (c : Check) (err : ConversionError) : Prop where
  place : e.checks[n]? = some c
  fails : c.Fails e err
  earlier : ∀ k < n, ∀ d ∈ e.checks[k]?, d.Passes e

/-! ## Computations that check -/

section Checked

variable {α β : Type} {e : Event} {cs ds : List Check} {x : Except ConversionError α}
  {f : α → Except ConversionError β}

/-- A computation makes certain checks in their order: it comes to a value if all pass, and otherwise
to the error of the first that does not. -/
structure Checked (e : Event) (cs : List Check) (x : Except ConversionError α) : Prop where
  passes : ∀ a, x = .ok a → ∀ c ∈ cs, c.Passes e
  fails : ∀ err, x = .error err →
    ∃ early c late, cs = early ++ c :: late ∧ (∀ d ∈ early, d.Passes e) ∧ c.Fails e err

namespace Checked

theorem ok (a : α) : Checked e [] (.ok a) :=
  ⟨fun _ _ _ h => absurd h List.not_mem_nil, fun _ h => nomatch h⟩

theorem one {c : Check} (passes : ∀ a, x = .ok a → c.Passes e)
    (fails : ∀ err, x = .error err → c.Fails e err) : Checked e [c] x := by
  refine ⟨fun a made d hd => ?_, fun err refused => ?_⟩
  · rw [List.mem_singleton.1 hd]
    exact passes a made
  · exact ⟨[], c, [], rfl, by simp, fails err refused⟩

theorem bind (first : Checked e cs x) (rest : ∀ a, x = .ok a → Checked e ds (f a)) :
    Checked e (cs ++ ds) (x >>= f) := by
  cases x with
  | ok a =>
    have before := first.passes a rfl
    have after := rest a rfl
    constructor
    · intro b made c hc
      exact (List.mem_append.1 hc).elim (before c) (after.passes b made c)
    · intro err refused
      obtain ⟨early, c, late, rfl, passes, fails⟩ := after.fails err refused
      refine ⟨cs ++ early, c, late, by simp, fun d hd => ?_, fails⟩
      exact (List.mem_append.1 hd).elim (before d) (passes d)
  | error err' =>
    constructor
    · intro b made
      cases made
    · rintro err ⟨⟩
      obtain ⟨early, c, late, rfl, passes, fails⟩ := first.fails err' rfl
      exact ⟨early, c, late ++ ds, by simp, passes, fails⟩

theorem map {g : α → β} (h : Checked e cs x) : Checked e cs (x.map g) := by
  cases x with
  | ok a => exact ⟨fun _ _ c hc => h.passes a rfl c hc, fun _ refused => nomatch refused⟩
  | error err =>
    refine ⟨fun _ made => (by cases made), fun err' refused => h.fails err' ?_⟩
    cases refused
    rfl

/-- The same computation for every element of a list. -/
theorem mapM {as : List α} {g : ℕ → α → List Check}
    (h : ∀ i a, as[i]? = some a → Checked e (g i a) (f a)) :
    Checked e (as.mapIdx g).flatten (as.mapM f) := by
  induction as generalizing g with
  | nil => exact .ok _
  | cons a as ih =>
    have tail : Checked e (as.mapIdx fun i => g (i + 1)).flatten (as.mapM f) :=
      ih fun i a' ha' => h (i + 1) a' (by simpa using ha')
    rw [List.mapIdx_cons, List.flatten_cons, List.mapM_cons]
    refine (h 0 a rfl).bind fun b _ => ?_
    have made := tail.bind fun bs _ => ok (b :: bs)
    rwa [List.append_nil] at made

end Checked

/-! ### One part -/

/-- A reading accepts the texts of a kind and reports the others. -/
structure Kind.ReadBy (k : Kind) (part : String) (f : String → Except ConversionError α) : Prop where
  accepts : ∀ {s a}, f s = .ok a → k.Accepts s
  reports : ∀ {s err}, f s = .error err → ¬ k.Accepts s ∧ k.Reports part s err

theorem readBy_read {k : Kind} {part : String} {read? : List Char → Option α}
    {error : String → ConversionError} (accepts : ∀ s, (∃ a, read? s.toList = some a) ↔ k.Accepts s)
    (reports : ∀ s, k.Reports part s (error s)) :
    Kind.ReadBy k part (Conversion.read read? error) := by
  constructor
  · intro s a read
    exact (accepts s).1 ⟨a, read_eq_ok_iff.1 read⟩
  · intro s err refused
    unfold Conversion.read at refused
    split at refused
    · cases refused
    · cases refused
      refine ⟨fun fit => ?_, reports s⟩
      obtain ⟨a, read⟩ := (accepts s).2 fit
      simp_all

theorem Kind.ReadBy.refuses {k : Kind} {part s : String} {f : String → Except ConversionError α}
    (reading : Kind.ReadBy k part f) (unfit : ¬ k.Accepts s) :
    ∃ err, f s = .error err ∧ k.Reports part s err := by
  cases read : f s with
  | ok a => exact absurd (reading.accepts read) unfit
  | error err => exact ⟨err, rfl, (reading.reports read).2⟩

variable {p : Part} {t : Option String} {s : String} {g : String → Except ConversionError α}

theorem checked_present {c : Check} {o : Option α} (passes : o ≠ none → c.Passes e)
    (lacks : o = none → c.Lacks e) : Checked e [c] (present c.name o) := by
  refine .one (fun a made => passes ?_) fun err refused => ?_
  · rintro rfl
    cases made
  · cases o with
    | some a => cases refused
    | none =>
      cases refused
      exact .missing (lacks rfl)

theorem checked_given (reading : Kind.ReadBy p.rule.kind p.rule.name g) (text : e.text p = some s) :
    Checked e [.part p] (g s) := by
  refine .one (fun a made => ⟨fun _ => by simp [text], fun s' hs' => ?_⟩) fun err refused => ?_
  · rw [text, Option.mem_some_iff] at hs'
    exact hs' ▸ reading.accepts made
  · obtain ⟨unfit, reports⟩ := reading.reports refused
    exact .malformed text unfit reports

theorem checked_required (reading : Kind.ReadBy p.rule.kind p.rule.name g)
    (required : p.rule.required = true) (text : e.text p = t) :
    Checked e [.part p] (present p.rule.name t >>= g) := by
  cases t with
  | some s => exact checked_given reading text
  | none =>
    refine .one (fun a made => nomatch made) ?_
    rintro err ⟨⟩
    exact .missing (c := .part p) ⟨required, text⟩

theorem checked_absent (optional : p.rule.required = false) (absent : e.text p = none) (a : α) :
    Checked e [.part p] (.ok a) :=
  .one (fun _ _ => ⟨by simp [optional], by simp [absent]⟩) fun _ refused => nomatch refused

theorem checked_optional (reading : Kind.ReadBy p.rule.kind p.rule.name g)
    (optional : p.rule.required = false) (text : e.text p = t) :
    Checked e [.part p] (maybe g t) := by
  cases t with
  | some s => exact (checked_given reading text).map
  | none => exact checked_absent optional text none

theorem checked_bytes {part : String} (kind : p.rule = ⟨part, .bytes, false⟩)
    (text : e.text p = t) : Checked e [.part p] (Conversion.bytes part t) := by
  cases t with
  | none => exact checked_absent (by rw [kind]) text _
  | some s =>
    refine checked_given (g := fun s => Conversion.bytes part (some s)) ?_ text
    rw [kind]
    constructor
    · intro s a made
      rw [maybeBytes_iff] at made
      exact exists_maybeBytes_iff.1 ⟨a, made⟩ s rfl
    · intro s err refused
      refine ⟨fun fit => ?_, ?_⟩
      · have accepted : ∀ s' ∈ some s, BytesText s' := by
          rintro _ ⟨⟩
          exact fit
        obtain ⟨a, made⟩ := exists_maybeBytes_iff.2 accepted
        rw [maybeBytes_iff.2 made] at refused
        cases refused
      · rw [Conversion.bytes, Option.elim_some] at refused
        split at refused
        · cases refused
        · cases refused
          exact ⟨_, ‹_›, rfl⟩

end Checked

/-! ### The kinds -/

section Kinds

variable {part : String}

theorem readBy_word : Kind.ReadBy .word part (Conversion.read Quantity.word? (.quantity part)) :=
  readBy_read (fun _ => (exists_congr fun _ => word?_iff).trans exists_word_iff) fun _ => rfl

theorem readBy_chain :
    Kind.ReadBy .chain part (Conversion.read Quantity.chain? (.quantity part)) :=
  readBy_read (fun _ => (exists_congr fun _ => chain?_iff).trans exists_chain_iff) fun _ => rfl

theorem readBy_wide : Kind.ReadBy .wide part
    (Conversion.read (fun cs => (Quantity.wide? cs).map String.ofList) (.quantity part)) :=
  readBy_read (fun _ => (exists_congr fun _ => wide?_iff).trans exists_wide_iff) fun _ => rfl

theorem readBy_hash : Kind.ReadBy .hash part (hashOf part) := by
  unfold hashOf
  exact readBy_read (fun _ => (exists_congr fun _ => fixed?_iff 32).trans exists_fixed_iff)
    fun _ => rfl

theorem readBy_address : Kind.ReadBy .address part (addressOf part) := by
  unfold addressOf
  exact readBy_read (fun _ => (exists_congr fun _ => fixed?_iff 20).trans exists_fixed_iff)
    fun _ => rfl

theorem readBy_status : Kind.ReadBy .status "receipt.status" fun s =>
    (if s = "0x1" then return true
      else if s = "0x0" then return false
      else throw (.quantity "receipt.status" s) : Except ConversionError Bool) := by
  constructor
  · intro s success made
    split_ifs at made with one zero
    · exact .inr one
    · exact .inl zero
  · intro s err refused
    split_ifs at refused with one zero
    · cases refused
    · cases refused
    · cases refused
      exact ⟨fun fit => fit.elim zero one, rfl⟩

end Kinds

/-! ## The records -/

section Records

variable {e : Event}

theorem checked_block {b : Block} (h : e.block = some b) :
    Checked e Block.checks (Conversion.block b) := by
  have text (p : Block.Part) : e.text (.block p) = b.text p := by rw [Event.text, h, Option.bind_some]
  exact (checked_required (p := .block .number) readBy_word rfl (text _)).bind fun _ _ =>
    (checked_required (p := .block .hash) readBy_hash rfl (text _)).bind fun _ _ =>
    (checked_required (p := .block .timestamp) readBy_word rfl (text _)).bind fun _ _ => .ok _

theorem checked_transaction {t : Transaction} (h : e.transaction = some t) :
    Checked e Transaction.checks (Conversion.transaction t) := by
  have text (p : Transaction.Part) : e.text (.transaction p) = t.text p := by
    rw [Event.text, h, Option.bind_some]
  exact (checked_required (p := .transaction .hash) readBy_hash rfl (text _)).bind fun _ _ =>
    (checked_required (p := .transaction .sender) readBy_address rfl (text _)).bind fun _ _ =>
    (checked_optional (p := .transaction .recipient) readBy_address rfl (text _)).bind fun _ _ =>
    (checked_required (p := .transaction .nonce) readBy_word rfl (text _)).bind fun _ _ =>
    (checked_required (p := .transaction .gas) readBy_word rfl (text _)).bind fun _ _ =>
    (checked_required (p := .transaction .gasPrice) readBy_wide rfl (text _)).bind fun _ _ =>
    (checked_required (p := .transaction .value) readBy_wide rfl (text _)).bind fun _ _ =>
    (checked_bytes (p := .transaction .input) rfl (text _)).bind fun _ _ => .ok _

theorem checked_log {entry : ℕ} {l : Log} (text : ∀ p, e.text (.log entry p) = l.text p) :
    Checked e (l.checks entry) (Conversion.log l) := by
  have topics : Checked e (l.topics.mapIdx fun place _ => [.part (.log entry (.topic place))]).flatten
      (l.topics.mapM (hashOf "log.topics")) :=
    .mapM fun place topic ht => checked_given readBy_hash ((text (.topic place)).trans ht)
  exact (checked_required (p := .log entry .address) readBy_address rfl (text _)).bind fun _ _ =>
    topics.bind fun _ _ =>
    (checked_bytes (p := .log entry .data) rfl (text _)).bind fun _ _ =>
    (checked_required (p := .log entry .index) readBy_word rfl (text _)).bind fun _ _ => .ok _

theorem checked_receipt {r : Receipt} (h : e.receipt = some r) :
    Checked e r.checks (Conversion.receipt r) := by
  have text (p : Receipt.Part) : e.text (.receipt p) = r.text p := by
    rw [Event.text, h, Option.bind_some]
  have logs : Checked e (r.logs.mapIdx Log.checks).flatten (r.logs.mapM Conversion.log) :=
    .mapM fun entry l hl => checked_log fun p => by
      rw [Event.text, h, Option.bind_some, hl, Option.bind_some]
  -- what follows the logs in the conversion makes no check
  rw [Receipt.checks, ← List.append_nil (r.logs.mapIdx Log.checks).flatten]
  exact (checked_required (p := .receipt .status) readBy_status rfl (text _)).bind fun _ _ =>
    (checked_required (p := .receipt .gasUsed) readBy_word rfl (text _)).bind fun _ _ =>
    (checked_optional (p := .receipt .contractAddress) readBy_address rfl (text _)).bind fun _ _ =>
    logs.bind fun _ _ => .ok _

theorem checked_maybe_receipt :
    Checked e (e.receipt.elim [] Receipt.checks) (maybe Conversion.receipt e.receipt) := by
  cases h : e.receipt with
  | none => exact .ok none
  | some r => exact (checked_receipt h).map

/-- The last check is about the parts that the message has its two from. -/
theorem contradicts_iff {t : Transaction} {m : Message.Transaction} {r : Option Message.Receipt}
    (h : e.transaction = some t) (transaction : Conversion.transaction t = .ok m)
    (receipt : maybe Conversion.receipt e.receipt = .ok r) :
    contradicts m r = false ↔ Check.contract.Passes e := by
  have recipient := rel_eq_none_iff (transaction_iff.1 transaction).recipient
  have contractless := contractless_iff ((maybe_iff fun _ _ => receipt_iff).1 receipt)
  rw [contradicts_eq_false_iff, ← recipient, ← contractless]
  simp only [Check.Passes, Event.text, h, Option.bind_some, Transaction.text]
  refine or_congr_right ?_
  cases e.receipt <;> simp [Receipt.text]

theorem checked_contract {m : Message.Transaction} {r : Option Message.Receipt} {made : Message}
    (h : contradicts m r = false ↔ Check.contract.Passes e) :
    Checked e [.contract] (do
      if contradicts m r then throw contradiction
      return made) := by
  refine .one (fun _ passed => ?_) fun err refused => ?_
  · split_ifs at passed with found
    · cases passed
    · exact h.1 (Bool.eq_false_of_not_eq_true found)
  · split_ifs at refused with found
    · cases refused
      have bad : ¬ Check.contract.Passes e := by simp [← h, found]
      rw [Check.Passes, not_or] at bad
      exact .contradictory bad.1 bad.2
    · cases refused

/-- The conversion makes the checks of the event in their order. -/
theorem checked_toMessage (e : Event) : Checked e e.checks e.toMessage := by
  refine (checked_required (p := .chain) readBy_chain rfl rfl).bind fun _ _ =>
    (checked_present (c := .block) id id).bind fun b hb => ?_
  refine (checked_block (present_eq_ok_iff.1 hb)).bind fun _ _ =>
    (checked_present (c := .transaction) id id).bind fun t ht => ?_
  have present := present_eq_ok_iff.1 ht
  exact (checked_transaction present).bind fun m transaction =>
    checked_maybe_receipt.bind fun r receipt =>
    checked_contract (contradicts_iff present transaction receipt)

end Records

variable {e : Event} {err : ConversionError}

theorem exists_offends (refused : e.toMessage = .error err) : ∃ n c, Offends e n c err := by
  obtain ⟨early, c, late, order, passes, fails⟩ := (checked_toMessage e).fails err refused
  refine ⟨early.length, c, by simp [order], fails, fun k hk d hd => passes d ?_⟩
  rw [order, List.getElem?_append_left hk] at hd
  exact List.mem_of_getElem? hd

theorem exists_toMessage_iff : (∃ m, e.toMessage = .ok m) ↔ ∀ c ∈ e.checks, c.Passes e := by
  constructor
  · rintro ⟨m, made⟩
    exact (checked_toMessage e).passes m made
  · intro passes
    cases made : e.toMessage with
    | ok m => exact ⟨m, rfl⟩
    | error err =>
      obtain ⟨n, c, offends⟩ := exists_offends made
      exact absurd (passes c (List.mem_of_getElem? offends.place)) offends.fails.not_passes

end Event

end TxRelay
