import TxRelay.Proofs.Conversion.Texts

/-!
# Which events have a message, and which one

The grammar of events says part by part which texts a part may be and whether it may be absent; one
condition ties two parts together. An event has a message exactly if it is in the grammar. The message
then has the structure of the event, and every part of it says what the text of the event says.

Results:
* `toMessage_eq_ok_iff`: a message is that of an event exactly if every part says the same.
* `exists_means_iff`: there is such a message exactly for the events of the grammar.
* `toMessage_grammar`: both for the conversion.
-/

namespace TxRelay

open TxRelay.Except
open Conversion

namespace Event

/-! ## The grammar -/

/-- A block of the grammar. -/
structure Block.Fits (b : Block) : Prop where
  number : ∃ s ∈ b.number, WordText s
  hash : ∃ s ∈ b.hash, FixedText 32 s
  timestamp : ∃ s ∈ b.timestamp, WordText s

/-- A transaction of the grammar. -/
structure Transaction.Fits (t : Transaction) : Prop where
  hash : ∃ s ∈ t.hash, FixedText 32 s
  sender : ∃ s ∈ t.sender, FixedText 20 s
  recipient : ∀ s ∈ t.recipient, FixedText 20 s
  nonce : ∃ s ∈ t.nonce, WordText s
  gas : ∃ s ∈ t.gas, WordText s
  gasPrice : ∃ s ∈ t.gasPrice, WideText s
  value : ∃ s ∈ t.value, WideText s
  input : ∀ s ∈ t.input, BytesText s

/-- A log entry of the grammar. -/
structure Log.Fits (l : Log) : Prop where
  address : ∃ s ∈ l.address, FixedText 20 s
  topics : ∀ s ∈ l.topics, FixedText 32 s
  data : ∀ s ∈ l.data, BytesText s
  index : ∃ s ∈ l.index, WordText s

/-- A receipt of the grammar. -/
structure Receipt.Fits (r : Receipt) : Prop where
  status : ∃ s ∈ r.status, StatusText s
  gasUsed : ∃ s ∈ r.gasUsed, WordText s
  contractAddress : ∀ s ∈ r.contractAddress, FixedText 20 s
  logs : ∀ l ∈ r.logs, l.Fits

/-- An event of the grammar. -/
structure Fits (e : Event) : Prop where
  chain : ∃ s ∈ e.chainId, ChainText s
  block : ∃ b ∈ e.block, b.Fits
  transaction : ∃ t ∈ e.transaction, t.Fits
  receipt : ∀ r ∈ e.receipt, r.Fits
  /-- A transaction with a recipient has created no contract. -/
  consistent : ∀ t ∈ e.transaction, t.recipient = none ∨ ∀ r ∈ e.receipt, r.contractAddress = none

/-! ## What an event says -/

/-- A part that is there says something. -/
def Given {α β : Type} (R : α → β → Prop) (part : Option α) (b : β) : Prop :=
  ∃ a ∈ part, R a b

/-- A byte string that may be absent, which says that it is empty. -/
def MaybeBytes (part : Option String) (t : String) : Prop :=
  part = none ∧ t = "0x" ∨ Given Bytes part t

/-- A block says what a block of a message says. -/
structure Block.Means (b : Block) (m : Message.Block) : Prop where
  number : Given Word b.number m.number
  hash : Given (Fixed 32) b.hash m.hash
  timestamp : Given Word b.timestamp m.timestamp

/-- The same of transactions. -/
structure Transaction.Means (t : Transaction) (m : Message.Transaction) : Prop where
  hash : Given (Fixed 32) t.hash m.hash
  sender : Given (Fixed 20) t.sender m.sender
  recipient : Option.Rel (Fixed 20) t.recipient m.recipient
  nonce : Given Word t.nonce m.nonce
  gas : Given Word t.gas m.gas
  gasPrice : Given Wide t.gasPrice m.gasPrice
  value : Given Wide t.value m.value
  input : MaybeBytes t.input m.input

/-- The same of log entries. -/
structure Log.Means (l : Log) (m : Message.Log) : Prop where
  address : Given (Fixed 20) l.address m.address
  topics : List.Forall₂ (Fixed 32) l.topics m.topics
  data : MaybeBytes l.data m.data
  index : Given Word l.index m.index

/-- The same of receipts. -/
structure Receipt.Means (r : Receipt) (m : Message.Receipt) : Prop where
  status : Given Status r.status m.success
  gasUsed : Given Word r.gasUsed m.gasUsed
  contractAddress : Option.Rel (Fixed 20) r.contractAddress m.contractAddress
  logs : List.Forall₂ Log.Means r.logs m.logs

/-- An event says what a message says. -/
structure Means (e : Event) (m : Message) : Prop where
  chain : Given Chain e.chainId m.chainId
  block : Given Block.Means e.block m.block
  transaction : Given Transaction.Means e.transaction m.transaction
  receipt : Option.Rel Receipt.Means e.receipt m.receipt
  consistent : m.transaction.recipient = none ∨ ∀ r ∈ m.receipt, r.contractAddress = none

/-! ## The stages of the conversion -/

section Stages

variable {α β : Type} {f : α → Except ConversionError β} {R : α → β → Prop}

theorem present_eq_ok_iff {part : String} {o : Option α} {a : α} :
    present part o = .ok a ↔ a ∈ o := by
  cases o <;> simp [present, eq_comm]

theorem present_bind_iff (h : ∀ a b, f a = .ok b ↔ R a b) {part : String} {o : Option α} {b : β} :
    present part o >>= f = .ok b ↔ Given R o b := by
  simp only [bind_eq_ok_iff, present_eq_ok_iff, h, Given]

theorem maybe_iff (h : ∀ a b, f a = .ok b ↔ R a b) {o : Option α} {p : Option β} :
    maybe f o = .ok p ↔ Option.Rel R o p := by
  cases o with
  | none =>
    constructor
    · rintro ⟨⟩
      exact .none
    · rintro ⟨⟩
      rfl
  | some a =>
    rw [maybe, map_eq_ok_iff]
    constructor
    · rintro ⟨b, value, rfl⟩
      exact .some ((h a b).1 value)
    · rintro ⟨⟩
      exact ⟨_, (h _ _).2 ‹_›, rfl⟩

theorem mapM_iff (h : ∀ a b, f a = .ok b ↔ R a b) {as : List α} {bs : List β} :
    as.mapM f = .ok bs ↔ List.Forall₂ R as bs := by
  have same : (fun a b => f a = .ok b) = R := by
    funext a b
    exact propext (h a b)
  rw [mapM_eq_ok_iff, same]

theorem read_eq_ok_iff {read? : List Char → Option β} {error : String → ConversionError}
    {s : String} {b : β} : Conversion.read read? error s = .ok b ↔ read? s.toList = some b := by
  unfold Conversion.read
  split <;> simp_all

end Stages

section Parts

variable {part : String} {text : Option String} {n : UInt64} {s t : String}

theorem word_iff : word part text = .ok n ↔ Given Word text n :=
  present_bind_iff fun _ _ => read_eq_ok_iff.trans word?_iff

theorem chain_iff : chain text = .ok n ↔ Given Chain text n :=
  present_bind_iff fun _ _ => read_eq_ok_iff.trans chain?_iff

theorem wide_iff : wide part text = .ok t ↔ Given Wide text t :=
  present_bind_iff fun _ _ => read_eq_ok_iff.trans wide?_iff

theorem hashOf_iff : hashOf part s = .ok t ↔ Fixed 32 s t :=
  read_eq_ok_iff.trans (fixed?_iff 32)

theorem addressOf_iff : addressOf part s = .ok t ↔ Fixed 20 s t :=
  read_eq_ok_iff.trans (fixed?_iff 20)

theorem hash_iff : hash part text = .ok t ↔ Given (Fixed 32) text t :=
  present_bind_iff fun _ _ => hashOf_iff

theorem address_iff : address part text = .ok t ↔ Given (Fixed 20) text t :=
  present_bind_iff fun _ _ => addressOf_iff

theorem status_iff {success : Bool} : status text = .ok success ↔ Given Status text success := by
  refine present_bind_iff fun s success => ?_
  split_ifs with one zero
  · simp [Status, one, pure, Except.pure, eq_comm]
  · simp [Status, zero, pure, Except.pure, eq_comm]
  · simp [Status, one, zero]

theorem maybeBytes_iff : Conversion.bytes part text = .ok t ↔ MaybeBytes text t := by
  cases text with
  | none =>
    have empty : Conversion.bytes part none = .ok "0x" := rfl
    simp [MaybeBytes, Given, empty, eq_comm]
  | some s =>
    have given : MaybeBytes (some s) t ↔ Bytes s t := by simp [MaybeBytes, Given]
    rw [given, ← bytes_iff, Conversion.bytes, Option.elim_some]
    cases Quantity.bytes s.toList <;> simp

end Parts

/-! ## The records -/

theorem block_iff {b : Block} {m : Message.Block} : Conversion.block b = .ok m ↔ b.Means m := by
  simp only [Conversion.block, bind_eq_ok_iff, word_iff, hash_iff, pure, Except.pure,
    Except.ok.injEq]
  constructor
  · rintro ⟨_, number, _, hash, _, timestamp, rfl⟩
    exact ⟨number, hash, timestamp⟩
  · intro h
    exact ⟨_, h.number, _, h.hash, _, h.timestamp, rfl⟩

theorem transaction_iff {t : Transaction} {m : Message.Transaction} :
    Conversion.transaction t = .ok m ↔ t.Means m := by
  simp only [Conversion.transaction, bind_eq_ok_iff, word_iff, wide_iff, hash_iff, address_iff,
    maybe_iff fun _ _ => addressOf_iff, maybeBytes_iff, pure, Except.pure, Except.ok.injEq]
  constructor
  · rintro ⟨_, hash, _, sender, _, recipient, _, nonce, _, gas, _, gasPrice, _, value, _, input, rfl⟩
    exact ⟨hash, sender, recipient, nonce, gas, gasPrice, value, input⟩
  · intro h
    exact ⟨_, h.hash, _, h.sender, _, h.recipient, _, h.nonce, _, h.gas, _, h.gasPrice, _, h.value,
      _, h.input, rfl⟩

theorem log_iff {l : Log} {m : Message.Log} : Conversion.log l = .ok m ↔ l.Means m := by
  simp only [Conversion.log, bind_eq_ok_iff, word_iff, address_iff, mapM_iff fun _ _ => hashOf_iff,
    maybeBytes_iff, pure, Except.pure, Except.ok.injEq]
  constructor
  · rintro ⟨_, address, _, topics, _, data, _, index, rfl⟩
    exact ⟨address, topics, data, index⟩
  · intro h
    exact ⟨_, h.address, _, h.topics, _, h.data, _, h.index, rfl⟩

theorem receipt_iff {r : Receipt} {m : Message.Receipt} :
    Conversion.receipt r = .ok m ↔ r.Means m := by
  simp only [Conversion.receipt, bind_eq_ok_iff, status_iff, word_iff,
    maybe_iff fun _ _ => addressOf_iff, mapM_iff fun _ _ => log_iff, pure, Except.pure,
    Except.ok.injEq]
  constructor
  · rintro ⟨_, status, _, gasUsed, _, contractAddress, _, logs, rfl⟩
    exact ⟨status, gasUsed, contractAddress, logs⟩
  · intro h
    exact ⟨_, h.status, _, h.gasUsed, _, h.contractAddress, _, h.logs, rfl⟩

theorem contradicts_eq_false_iff {t : Message.Transaction} {r : Option Message.Receipt} :
    contradicts t r = false ↔ t.recipient = none ∨ ∀ r' ∈ r, r'.contractAddress = none := by
  cases r with
  | none => simp [contradicts]
  | some r => cases recipient : t.recipient <;> simp [contradicts, recipient]

theorem toMessage_eq_ok_iff {e : Event} {m : Message} : e.toMessage = .ok m ↔ e.Means m := by
  simp only [toMessage, bind_eq_ok_iff, chain_iff, present_eq_ok_iff, block_iff, transaction_iff,
    maybe_iff fun _ _ => receipt_iff]
  constructor
  · rintro ⟨_, chain, b, hb, _, block, t, ht, _, transaction, _, receipt, made⟩
    split_ifs at made with bad
    · cases made
    · cases made
      rw [Bool.not_eq_true, contradicts_eq_false_iff] at bad
      exact ⟨chain, ⟨b, hb, block⟩, ⟨t, ht, transaction⟩, receipt, bad⟩
  · rintro ⟨chain, ⟨b, hb, block⟩, ⟨t, ht, transaction⟩, receipt, consistent⟩
    refine ⟨_, chain, b, hb, _, block, t, ht, _, transaction, _, receipt, ?_⟩
    rw [contradicts_eq_false_iff.2 consistent]
    rfl

/-! ## The events that have a message -/

section Existence

variable {α β : Type} {R : α → β → Prop} {P : α → Prop}

theorem exists_given_iff (h : ∀ {a}, (∃ b, R a b) ↔ P a) {o : Option α} :
    (∃ b, Given R o b) ↔ ∃ a ∈ o, P a := by
  simp only [Given, ← h]
  exact ⟨fun ⟨b, a, ha, r⟩ => ⟨a, ha, b, r⟩, fun ⟨a, ha, b, r⟩ => ⟨b, a, ha, r⟩⟩

theorem exists_rel_iff (h : ∀ {a}, (∃ b, R a b) ↔ P a) {o : Option α} :
    (∃ p, Option.Rel R o p) ↔ ∀ a ∈ o, P a := by
  simp only [← h]
  constructor
  · rintro ⟨p, r⟩ a ha
    cases r with
    | some r => cases ha; exact ⟨_, r⟩
    | none => cases ha
  · intro all
    cases o with
    | none => exact ⟨none, .none⟩
    | some a =>
      obtain ⟨b, r⟩ := all a rfl
      exact ⟨some b, .some r⟩

theorem exists_forall₂_iff (h : ∀ {a}, (∃ b, R a b) ↔ P a) {as : List α} :
    (∃ bs, List.Forall₂ R as bs) ↔ ∀ a ∈ as, P a := by
  simp only [← h]
  induction as with
  | nil => simp
  | cons a as ih => simp [List.forall₂_cons_left_iff, ← ih]

theorem exists_maybeBytes_iff {o : Option String} :
    (∃ t, MaybeBytes o t) ↔ ∀ s ∈ o, BytesText s := by
  simp only [← exists_bytes_iff]
  cases o <;> simp [MaybeBytes, Given]

theorem rel_eq_none_iff {o : Option α} {p : Option β} (h : Option.Rel R o p) :
    o = none ↔ p = none := by
  cases h <;> simp

end Existence

section Records

variable {o : Option String}

theorem exists_word : (∃ n, Given Word o n) ↔ ∃ s ∈ o, WordText s :=
  exists_given_iff exists_word_iff

theorem exists_wide : (∃ t, Given Wide o t) ↔ ∃ s ∈ o, WideText s :=
  exists_given_iff exists_wide_iff

theorem exists_fixed {length : ℕ} :
    (∃ t, Given (Fixed length) o t) ↔ ∃ s ∈ o, FixedText length s :=
  exists_given_iff exists_fixed_iff

theorem exists_maybeFixed {length : ℕ} :
    (∃ p, Option.Rel (Fixed length) o p) ↔ ∀ s ∈ o, FixedText length s :=
  exists_rel_iff exists_fixed_iff

theorem exists_block_iff {b : Block} : (∃ m, b.Means m) ↔ b.Fits := by
  constructor
  · rintro ⟨m, h⟩
    exact ⟨exists_word.1 ⟨_, h.number⟩, exists_fixed.1 ⟨_, h.hash⟩, exists_word.1 ⟨_, h.timestamp⟩⟩
  · intro h
    obtain ⟨_, number⟩ := exists_word.2 h.number
    obtain ⟨_, hash⟩ := exists_fixed.2 h.hash
    obtain ⟨_, timestamp⟩ := exists_word.2 h.timestamp
    exact ⟨⟨_, _, _⟩, number, hash, timestamp⟩

theorem exists_transaction_iff {t : Transaction} : (∃ m, t.Means m) ↔ t.Fits := by
  constructor
  · rintro ⟨m, h⟩
    exact ⟨exists_fixed.1 ⟨_, h.hash⟩, exists_fixed.1 ⟨_, h.sender⟩,
      exists_maybeFixed.1 ⟨_, h.recipient⟩, exists_word.1 ⟨_, h.nonce⟩, exists_word.1 ⟨_, h.gas⟩,
      exists_wide.1 ⟨_, h.gasPrice⟩, exists_wide.1 ⟨_, h.value⟩,
      exists_maybeBytes_iff.1 ⟨_, h.input⟩⟩
  · intro h
    obtain ⟨_, hash⟩ := exists_fixed.2 h.hash
    obtain ⟨_, sender⟩ := exists_fixed.2 h.sender
    obtain ⟨_, recipient⟩ := exists_maybeFixed.2 h.recipient
    obtain ⟨_, nonce⟩ := exists_word.2 h.nonce
    obtain ⟨_, gas⟩ := exists_word.2 h.gas
    obtain ⟨_, gasPrice⟩ := exists_wide.2 h.gasPrice
    obtain ⟨_, value⟩ := exists_wide.2 h.value
    obtain ⟨_, input⟩ := exists_maybeBytes_iff.2 h.input
    exact ⟨⟨_, _, _, _, _, _, _, _⟩, hash, sender, recipient, nonce, gas, gasPrice, value, input⟩

theorem exists_log_iff {l : Log} : (∃ m, l.Means m) ↔ l.Fits := by
  constructor
  · rintro ⟨m, h⟩
    exact ⟨exists_fixed.1 ⟨_, h.address⟩, (exists_forall₂_iff exists_fixed_iff).1 ⟨_, h.topics⟩,
      exists_maybeBytes_iff.1 ⟨_, h.data⟩, exists_word.1 ⟨_, h.index⟩⟩
  · intro h
    obtain ⟨_, address⟩ := exists_fixed.2 h.address
    obtain ⟨_, topics⟩ := (exists_forall₂_iff exists_fixed_iff).2 h.topics
    obtain ⟨_, data⟩ := exists_maybeBytes_iff.2 h.data
    obtain ⟨_, index⟩ := exists_word.2 h.index
    exact ⟨⟨_, _, _, _⟩, address, topics, data, index⟩

theorem exists_receipt_iff {r : Receipt} : (∃ m, r.Means m) ↔ r.Fits := by
  constructor
  · rintro ⟨m, h⟩
    exact ⟨(exists_given_iff exists_status_iff).1 ⟨_, h.status⟩, exists_word.1 ⟨_, h.gasUsed⟩,
      exists_maybeFixed.1 ⟨_, h.contractAddress⟩, (exists_forall₂_iff exists_log_iff).1 ⟨_, h.logs⟩⟩
  · intro h
    obtain ⟨_, status⟩ := (exists_given_iff exists_status_iff).2 h.status
    obtain ⟨_, gasUsed⟩ := exists_word.2 h.gasUsed
    obtain ⟨_, contractAddress⟩ := exists_maybeFixed.2 h.contractAddress
    obtain ⟨_, logs⟩ := (exists_forall₂_iff exists_log_iff).2 h.logs
    exact ⟨⟨_, _, _, _⟩, status, gasUsed, contractAddress, logs⟩

end Records

theorem contractless_iff {o : Option Receipt} {p : Option Message.Receipt}
    (h : Option.Rel Receipt.Means o p) :
    (∀ r ∈ o, r.contractAddress = none) ↔ ∀ r ∈ p, r.contractAddress = none := by
  cases h with
  | none => simp
  | some means => simpa using rel_eq_none_iff means.contractAddress

theorem exists_means_iff {e : Event} : (∃ m, e.Means m) ↔ e.Fits := by
  constructor
  · rintro ⟨m, h⟩
    refine ⟨(exists_given_iff exists_chain_iff).1 ⟨_, h.chain⟩,
      (exists_given_iff exists_block_iff).1 ⟨_, h.block⟩,
      (exists_given_iff exists_transaction_iff).1 ⟨_, h.transaction⟩,
      (exists_rel_iff exists_receipt_iff).1 ⟨_, h.receipt⟩, fun t ht => ?_⟩
    obtain ⟨t', ht', transaction⟩ := h.transaction
    obtain rfl : t = t' := Option.mem_unique ht ht'
    exact h.consistent.imp (rel_eq_none_iff transaction.recipient).2 (contractless_iff h.receipt).2
  · intro h
    obtain ⟨chainId, chain⟩ := (exists_given_iff exists_chain_iff).2 h.chain
    obtain ⟨block, hblock⟩ := (exists_given_iff exists_block_iff).2 h.block
    obtain ⟨transaction, t, ht, htransaction⟩ :=
      (exists_given_iff exists_transaction_iff).2 h.transaction
    obtain ⟨receipt, hreceipt⟩ := (exists_rel_iff exists_receipt_iff).2 h.receipt
    have consistent := (h.consistent t ht).imp (rel_eq_none_iff htransaction.recipient).1
      (contractless_iff hreceipt).1
    exact ⟨⟨chainId, block, transaction, receipt⟩, chain, hblock, ⟨t, ht, htransaction⟩, hreceipt,
      consistent⟩

/-- An event has a message exactly if it is in the grammar, and its message is the one that says what
the event says. -/
theorem toMessage_grammar (e : Event) :
    ((∃ m, e.toMessage = .ok m) ↔ e.Fits) ∧ ∀ m, e.toMessage = .ok m ↔ e.Means m := by
  refine ⟨?_, fun m => toMessage_eq_ok_iff⟩
  simp only [toMessage_eq_ok_iff, exists_means_iff]

end Event

end TxRelay
