import TxRelay.Proofs.Conversion.Grammar
import TxRelay.Proofs.Wire.Messages

/-!
# Canonical events

A message has an event of its own, in which every quantity of 64 bits is spelled with as few digits
as it takes and every other text is the message's. Conversion leaves such an event as it is. Two
events have one message if their texts denote the same numbers and bytes at the same places, however
they are spelled.

Results:
* `Means.raw`: the event of a message says what the message says.
* `tells_event`: events have one message exactly if they denote the same.
* `toMessage_raw`: both, also through the text of the event.
-/

namespace TxRelay

open TxRelay.Text
open Hex (Digit denoted)

namespace Conversion

/-! ## Canonical spellings -/

/-- A word in hexadecimal digits, as few as it takes. -/
def hex (n : UInt64) : String :=
  markedText (Nat.toDigits 16 n.toNat)

theorem digit_digitChar {n : ℕ} (h : n < 16) :
    Digit n.digitChar ∧ Hex.value n.digitChar = n := by
  have all : ∀ m : Fin 16, Digit (Nat.digitChar m) ∧ Hex.value (Nat.digitChar m) = m := by decide
  exact all ⟨n, h⟩

theorem digit_toDigits (n : ℕ) : ∀ c ∈ Nat.toDigits 16 n, Digit c := by
  induction n using Nat.strong_induction_on with
  | _ n ih =>
    rw [Nat.toDigits_eq_if (by decide)]
    split_ifs with small
    · exact List.forall_mem_singleton.2 (digit_digitChar small).1
    · refine List.forall_mem_append.2 ⟨ih (n / 16) (by omega), ?_⟩
      exact List.forall_mem_singleton.2 (digit_digitChar (by omega)).1

/-- The digits of a number denote it. -/
theorem denoted_toDigits (n : ℕ) : denoted 16 (Nat.toDigits 16 n) = n := by
  induction n using Nat.strong_induction_on with
  | _ n ih =>
    rw [Nat.toDigits_eq_if (by decide)]
    split_ifs with small
    · simp [denoted, (digit_digitChar small).2]
    · rw [Hex.denoted_concat, ih (n / 16) (by omega), (digit_digitChar (by omega)).2,
        Nat.div_add_mod]

theorem marked_markedText {digits : List Char} (h : ∀ c ∈ digits, Digit c) :
    Marked (markedText digits) digits :=
  ⟨String.toList_ofList, h⟩

theorem word_hex (n : UInt64) : Word (hex n) n :=
  ⟨_, marked_markedText (digit_toDigits _), Nat.toDigits_ne_nil, (denoted_toDigits _).symm⟩

/-- The digits of the alphabet are in lower case. -/
theorem toLower_of_mem {c : Char} (h : c ∈ Hex.alphabet) : c.toLower = c := by
  have all : Hex.alphabet.all fun d => d.toLower = d := by decide
  exact of_decide_eq_true (List.all_eq_true.1 all c h)

section Lower

variable {digits : List Char}

theorem digit_map_toLower (h : ∀ c ∈ digits, Digit c) : ∀ c ∈ digits.map Char.toLower, Digit c := by
  refine List.forall_mem_map.2 fun c hc => ?_
  rw [Digit, toLower_of_mem (h c hc)]
  exact h c hc

theorem map_toLower_map_toLower (h : ∀ c ∈ digits, Digit c) :
    (digits.map Char.toLower).map Char.toLower = digits.map Char.toLower := by
  rw [List.map_map]
  exact List.map_congr_left fun c hc => toLower_of_mem (h c hc)

end Lower

/-! ### What the canonical texts say -/

section

variable {s t : String} {part : Option String}

theorem Wide.self (h : Wide s t) : Wide t t := by
  obtain ⟨digits, marked, filled, short, rfl⟩ := h
  refine ⟨_, marked_markedText (digit_toDigits _), Nat.toDigits_ne_nil, ?_, ?_⟩
  · rw [← canonical_eq marked.2]
    exact (Quantity.length_canonical_le filled).trans short
  · rw [denoted_toDigits]

theorem Fixed.self {length : ℕ} (h : Fixed length s t) : Fixed length t t := by
  obtain ⟨digits, marked, size, rfl⟩ := h
  refine ⟨_, marked_markedText (digit_map_toLower marked.2), ?_, ?_⟩
  · rw [List.length_map, size]
  · rw [map_toLower_map_toLower marked.2]

theorem bytes_markedText {digits : List Char} (digit : ∀ c ∈ digits, Digit c)
    (even : Even digits.length) :
    Bytes (markedText (digits.map Char.toLower)) (markedText (digits.map Char.toLower)) := by
  refine ⟨_, .inl (marked_markedText (digit_map_toLower digit)), ?_, ?_⟩
  · rwa [List.length_map]
  · rw [map_toLower_map_toLower digit]

theorem Bytes.self (h : Bytes s t) : Bytes t t := by
  obtain ⟨digits, spelled, even, rfl⟩ := h
  refine bytes_markedText ?_ even
  rcases spelled with marked | ⟨-, digit⟩
  · exact marked.2
  · exact digit

theorem status_ite (success : Bool) : Status (if success then "0x1" else "0x0") success := by
  cases success <;> simp [Status]

end

/-! ## What texts denote -/

/-- A quantity in hexadecimal digits denotes a number. -/
def Amount (s : String) (n : ℕ) : Prop :=
  ∃ digits, Marked s digits ∧ digits ≠ [] ∧ n = denoted 16 digits

/-- The number of a chain, in hexadecimal or in decimal digits. -/
def ChainAmount (s : String) (n : ℕ) : Prop :=
  Amount s n ∨ s.toList ≠ [] ∧ (∀ c ∈ s.toList, c.isDigit = true) ∧ n = denoted 10 s.toList

/-- A text of digits, with the mark or without it, denotes the bytes of which they are the halves. -/
def Octets (s : String) (bytes : List UInt8) : Prop :=
  ∃ digits, (Marked s digits ∨ s.toList = digits ∧ ∀ c ∈ digits, Digit c) ∧
    Hex.halves bytes = digits.map Hex.value

/-- Two texts denote the same. -/
def Agree {α γ : Type} (D : α → γ → Prop) (a a' : α) : Prop :=
  ∃ c, D a c ∧ D a' c

section Unique

variable {s : String} {digits digits' : List Char} {n n' : ℕ} {bytes bytes' : List UInt8}

theorem Marked.unique (h : Marked s digits) (h' : Marked s digits') : digits = digits' := by
  have same := h.1.symm.trans h'.1
  simpa using same

theorem not_digit_x : ¬ Digit 'x' := by decide

theorem Marked.not_digits (h : Marked s digits) : ¬ ∀ c ∈ s.toList, Digit c :=
  fun digit => not_digit_x (digit 'x' (by simp [h.1]))

theorem Amount.unique (h : Amount s n) (h' : Amount s n') : n = n' := by
  obtain ⟨digits, marked, -, rfl⟩ := h
  obtain ⟨digits', marked', -, rfl⟩ := h'
  rw [marked.unique marked']

theorem ChainAmount.unique (h : ChainAmount s n) (h' : ChainAmount s n') : n = n' := by
  have apart {k : ℕ} (hex : Amount s k) : ¬ ∀ c ∈ s.toList, c.isDigit = true := by
    obtain ⟨digits, marked, -⟩ := hex
    exact fun digit => marked.not_digits fun c hc => (isDigit_digit (digit c hc)).1
  rcases h with hex | ⟨-, digit, rfl⟩
  · rcases h' with hex' | ⟨-, digit, -⟩
    · exact hex.unique hex'
    · exact absurd digit (apart hex)
  · rcases h' with hex | ⟨-, -, rfl⟩
    · exact absurd digit (apart hex)
    · rfl

theorem halves_injective : Function.Injective Hex.halves := by
  intro bytes bytes' same
  induction bytes generalizing bytes' with
  | nil =>
    cases bytes' with
    | nil => rfl
    | cons => cases same
  | cons b bytes ih =>
    cases bytes' with
    | nil => cases same
    | cons b' bytes' =>
      simp only [Hex.halves_cons, List.cons.injEq] at same
      obtain ⟨high, low, rest⟩ := same
      rw [ih rest]
      congr 1
      apply UInt8.toNat_inj.1
      omega

theorem Octets.unique (h : Octets s bytes) (h' : Octets s bytes') : bytes = bytes' := by
  obtain ⟨digits, spelled, halves⟩ := h
  obtain ⟨digits', spelled', halves'⟩ := h'
  have same : digits = digits' := by
    rcases spelled with marked | ⟨rfl, digit⟩
    · rcases spelled' with marked' | ⟨rfl, digit⟩
      · exact marked.unique marked'
      · exact absurd digit marked.not_digits
    · rcases spelled' with marked | ⟨rfl, -⟩
      · exact absurd digit marked.not_digits
      · rfl
  exact halves_injective (by rw [halves, halves', same])

end Unique

/-! ### Readings that keep what is denoted -/

/-- Two readings give the same exactly if the texts are related. -/
def Tells {α β : Type} (R : α → β → Prop) (S : α → α → Prop) : Prop :=
  ∀ ⦃a a' b b'⦄, R a b → R a' b' → (b = b' ↔ S a a')

/-- What is read has the form of what is denoted. -/
theorem tells_agree {α β γ : Type} {R : α → β → Prop} {D : α → γ → Prop} (form : γ → β → Prop)
    (exactly : Relator.BiUnique form) (forms : ∀ a b, R a b → ∃ c, D a c ∧ form c b)
    (unique : ∀ a c c', D a c → D a c' → c = c') : Tells R (Agree D) := by
  intro a a' b b' h h'
  obtain ⟨c, denoted, formed⟩ := forms a b h
  obtain ⟨c', denoted', formed'⟩ := forms a' b' h'
  constructor
  · rintro rfl
    obtain rfl := exactly.1 formed formed'
    exact ⟨c, denoted, denoted'⟩
  · rintro ⟨e, given, given'⟩
    obtain rfl := unique a c e denoted given
    obtain rfl := unique a' c' c denoted' given'
    exact exactly.2 formed formed'

theorem biUnique_toNat : Relator.BiUnique fun (k : ℕ) (n : UInt64) => n.toNat = k :=
  ⟨fun _ _ _ h h' => h.symm.trans h', fun _ _ _ h h' => UInt64.toNat_inj.1 (h.trans h'.symm)⟩

/-- A text that is spelled by a function that loses nothing. -/
theorem biUnique_spelled {γ : Type} {spell : γ → List Char} (h : Function.Injective spell) :
    Relator.BiUnique fun c t => t = markedText (spell c) := by
  refine ⟨fun c c' t spelled spelled' => h ?_, fun c t t' spelled spelled' => ?_⟩
  · have same := congrArg String.toList (spelled.symm.trans spelled')
    simpa [markedText] using same
  · rw [spelled, spelled']

theorem tells_word : Tells Word (Agree Amount) :=
  tells_agree _ biUnique_toNat (fun _ _ h => ⟨_, h, rfl⟩) fun _ _ _ => Amount.unique

theorem tells_chain : Tells Chain (Agree ChainAmount) :=
  tells_agree _ biUnique_toNat (fun _ _ h => ⟨_, h, rfl⟩) fun _ _ _ => ChainAmount.unique

theorem tells_status : Tells Status (Agree Amount) := by
  have exactly : Relator.BiUnique fun (k : ℕ) (success : Bool) => k = success.toNat := by
    refine ⟨fun k k' b h h' => h.trans h'.symm, fun k b b' h h' => ?_⟩
    cases b <;> cases b' <;> simp_all
  refine tells_agree _ exactly ?_ fun _ _ _ => Amount.unique
  rintro s success (⟨rfl, rfl⟩ | ⟨rfl, rfl⟩)
  · exact ⟨1, ⟨['1'], ⟨rfl, List.forall_mem_singleton.2 (by decide)⟩, nofun, rfl⟩, rfl⟩
  · exact ⟨0, ⟨['0'], ⟨rfl, List.forall_mem_singleton.2 (by decide)⟩, nofun, rfl⟩, rfl⟩

theorem tells_wide : Tells Wide (Agree Amount) := by
  have exactly := biUnique_spelled (Function.LeftInverse.injective denoted_toDigits)
  refine tells_agree _ exactly ?_ fun _ _ _ => Amount.unique
  rintro s _ ⟨digits, marked, filled, -, rfl⟩
  exact ⟨_, ⟨digits, marked, filled, rfl⟩, rfl⟩

/-- Digits in lower case are the spelling of the bytes that they denote. -/
theorem exists_octets {s : String} {digits : List Char}
    (spelled : Marked s digits ∨ s.toList = digits ∧ ∀ c ∈ digits, Digit c)
    (even : Even digits.length) :
    ∃ bytes, Octets s bytes ∧ Hex.encode bytes = digits.map Char.toLower := by
  have digit : ∀ c ∈ digits, Digit c := by
    rcases spelled with marked | ⟨-, digit⟩
    · exact marked.2
    · exact digit
  have small : ∀ n ∈ digits.map Hex.value, n < 16 :=
    List.forall_mem_map.2 fun c hc => Hex.value_lt (digit c hc)
  obtain ⟨bytes, halves⟩ := Hex.exists_halves (by simpa using even) small
  exact ⟨bytes, ⟨digits, spelled, halves⟩, by rw [Hex.encode_eq, halves, Hex.map_digit_value digit]⟩

theorem halves_lt (bytes : List UInt8) : ∀ n ∈ Hex.halves bytes, n < 16 := by
  intro n hn
  obtain ⟨b, -, hn⟩ := List.mem_flatMap.1 hn
  have := b.toNat_lt
  simp only [List.mem_cons, List.not_mem_nil, or_false] at hn
  omega

/-- Bytes are read from their spelling. -/
theorem encode_injective : Function.Injective Hex.encode := by
  have read (bytes : List UInt8) :
      (Hex.encode bytes).map (fun c => Hex.value? c.toNat) = (Hex.halves bytes).map some := by
    rw [Hex.encode_eq, List.map_map]
    exact List.map_congr_left fun n hn => Hex.value?_digit (halves_lt bytes n hn)
  intro bytes bytes' same
  have halves := read bytes
  rw [same, read bytes'] at halves
  exact (halves_injective (List.map_injective_iff.2 (Option.some_injective ℕ) halves)).symm

theorem tells_fixed (length : ℕ) : Tells (Fixed length) (Agree Octets) := by
  refine tells_agree _ (biUnique_spelled encode_injective) ?_ fun _ _ _ => Octets.unique
  rintro s _ ⟨digits, marked, size, rfl⟩
  obtain ⟨bytes, octets, encoded⟩ := exists_octets (.inl marked) (size ▸ even_two_mul length)
  exact ⟨bytes, octets, by rw [encoded]⟩

end Conversion

/-! ## The event of a message -/

attribute [ext] Message Message.Block Message.Transaction Message.Log Message.Receipt

namespace Message

open Conversion (hex)

/-- The event of a block. -/
def Block.raw (b : Block) : Event.Block :=
  ⟨some (hex b.number), some b.hash, some (hex b.timestamp)⟩

/-- The event of a transaction. -/
def Transaction.raw (t : Transaction) : Event.Transaction :=
  ⟨some t.hash, some t.sender, t.recipient, some (hex t.nonce), some (hex t.gas), some t.gasPrice,
    some t.value, some t.input⟩

/-- The event of a log entry. -/
def Log.raw (l : Log) : Event.Log :=
  ⟨some l.address, l.topics, some l.data, some (hex l.index)⟩

/-- The event of a receipt. -/
def Receipt.raw (r : Receipt) : Event.Receipt :=
  ⟨some (if r.success then "0x1" else "0x0"), some (hex r.gasUsed), r.contractAddress,
    r.logs.map Log.raw⟩

/-- The event of a message. -/
def raw (m : Message) : Event :=
  ⟨some (hex m.chainId), some m.block.raw, some m.transaction.raw, m.receipt.map Receipt.raw⟩

end Message

namespace Event

open Conversion

section Parts

variable {α β : Type} {R : α → β → Prop}

theorem Given.of {a : α} {b : β} (h : R a b) : Given R (some a) b :=
  ⟨a, rfl, h⟩

/-- A given part may be replaced by one that means the same. -/
theorem Given.self {part : Option α} {a' : α} {b : β} (h : Given R part b)
    (self : ∀ a, R a b → R a' b) : Given R (some a') b := by
  obtain ⟨a, -, means⟩ := h
  exact .of (self a means)

theorem rel_map {part : Option α} {q : Option β} {raw : β → α} (h : Option.Rel R part q)
    (self : ∀ a b, R a b → R (raw b) b) : Option.Rel R (q.map raw) q := by
  cases h with
  | none => exact .none
  | some means => exact .some (self _ _ means)

theorem forall₂_map {as : List α} {bs : List β} {raw : β → α} (h : List.Forall₂ R as bs)
    (self : ∀ a b, R a b → R (raw b) b) : List.Forall₂ R (bs.map raw) bs := by
  induction h with
  | nil => exact .nil
  | cons means _ ih => exact .cons (self _ _ means) ih

end Parts

theorem MaybeBytes.self {part : Option String} {t : String} (h : MaybeBytes part t) :
    MaybeBytes (some t) t := by
  rcases h with ⟨-, rfl⟩ | ⟨s, -, bytes⟩
  · exact .inr (.of (bytes_markedText (List.forall_mem_nil _) .zero))
  · exact .inr (.of bytes.self)

theorem Block.Means.raw {b : Block} {m : Message.Block} (h : b.Means m) : m.raw.Means m where
  number := .of (word_hex _)
  hash := h.hash.self fun _ => Fixed.self
  timestamp := .of (word_hex _)

theorem Transaction.Means.raw {t : Transaction} {m : Message.Transaction} (h : t.Means m) :
    m.raw.Means m where
  hash := h.hash.self fun _ => Fixed.self
  sender := h.sender.self fun _ => Fixed.self
  recipient := by simpa [Message.Transaction.raw] using rel_map h.recipient fun _ _ => Fixed.self
  nonce := .of (word_hex _)
  gas := .of (word_hex _)
  gasPrice := h.gasPrice.self fun _ => Wide.self
  value := h.value.self fun _ => Wide.self
  input := h.input.self

theorem Log.Means.raw {l : Log} {m : Message.Log} (h : l.Means m) : m.raw.Means m where
  address := h.address.self fun _ => Fixed.self
  topics := by simpa [Message.Log.raw] using forall₂_map h.topics fun _ _ => Fixed.self
  data := h.data.self
  index := .of (word_hex _)

theorem Receipt.Means.raw {r : Receipt} {m : Message.Receipt} (h : r.Means m) : m.raw.Means m where
  status := .of (status_ite _)
  gasUsed := .of (word_hex _)
  contractAddress := by simpa [Message.Receipt.raw] using rel_map h.contractAddress fun _ _ => Fixed.self
  logs := forall₂_map h.logs fun _ _ => Log.Means.raw

/-- The event of a message says what the message says. -/
theorem Means.raw {e : Event} {m : Message} (h : e.Means m) : m.raw.Means m where
  chain := .of (.inl (word_hex _))
  block := h.block.self fun _ => Block.Means.raw
  transaction := h.transaction.self fun _ => Transaction.Means.raw
  receipt := rel_map h.receipt fun _ _ => Receipt.Means.raw
  consistent := h.consistent

/-! ## Events that denote the same -/

/-- No text denotes no bytes. -/
def MaybeOctets (part : Option String) (bytes : List UInt8) : Prop :=
  part = none ∧ bytes = [] ∨ Given Octets part bytes

/-- The blocks of two events are equal but for the spelling. -/
structure Block.Alike (b b' : Block) : Prop where
  number : Option.Rel (Agree Amount) b.number b'.number
  hash : Option.Rel (Agree Octets) b.hash b'.hash
  timestamp : Option.Rel (Agree Amount) b.timestamp b'.timestamp

/-- The same of transactions. -/
structure Transaction.Alike (t t' : Transaction) : Prop where
  hash : Option.Rel (Agree Octets) t.hash t'.hash
  sender : Option.Rel (Agree Octets) t.sender t'.sender
  recipient : Option.Rel (Agree Octets) t.recipient t'.recipient
  nonce : Option.Rel (Agree Amount) t.nonce t'.nonce
  gas : Option.Rel (Agree Amount) t.gas t'.gas
  gasPrice : Option.Rel (Agree Amount) t.gasPrice t'.gasPrice
  value : Option.Rel (Agree Amount) t.value t'.value
  input : Agree MaybeOctets t.input t'.input

/-- The same of log entries. -/
structure Log.Alike (l l' : Log) : Prop where
  address : Option.Rel (Agree Octets) l.address l'.address
  topics : List.Forall₂ (Agree Octets) l.topics l'.topics
  data : Agree MaybeOctets l.data l'.data
  index : Option.Rel (Agree Amount) l.index l'.index

/-- The same of receipts. -/
structure Receipt.Alike (r r' : Receipt) : Prop where
  status : Option.Rel (Agree Amount) r.status r'.status
  gasUsed : Option.Rel (Agree Amount) r.gasUsed r'.gasUsed
  contractAddress : Option.Rel (Agree Octets) r.contractAddress r'.contractAddress
  logs : List.Forall₂ Log.Alike r.logs r'.logs

/-- Two events are equal but for the spelling of numbers and bytes. -/
structure Alike (e e' : Event) : Prop where
  chain : Option.Rel (Agree ChainAmount) e.chainId e'.chainId
  block : Option.Rel Block.Alike e.block e'.block
  transaction : Option.Rel Transaction.Alike e.transaction e'.transaction
  receipt : Option.Rel Receipt.Alike e.receipt e'.receipt

theorem MaybeOctets.unique {part : Option String} {bytes bytes' : List UInt8} (h : MaybeOctets part bytes)
    (h' : MaybeOctets part bytes') : bytes = bytes' := by
  cases part with
  | none =>
    obtain ⟨-, rfl⟩ := h.resolve_right (by simp [Given])
    obtain ⟨-, rfl⟩ := h'.resolve_right (by simp [Given])
    rfl
  | some s =>
    obtain ⟨_, ⟨⟩, octets⟩ := h.resolve_left (by simp)
    obtain ⟨_, ⟨⟩, octets'⟩ := h'.resolve_left (by simp)
    exact octets.unique octets'


section Tells

variable {α β : Type} {R : α → β → Prop} {S : α → α → Prop}

theorem tells_given (h : Tells R S) : Tells (Given R) (Option.Rel S) := by
  rintro _ _ b b' ⟨a, ⟨⟩, first⟩ ⟨a', ⟨⟩, second⟩
  rw [h first second]
  exact ⟨.some, fun | .some same => same⟩

theorem tells_rel (h : Tells R S) : Tells (Option.Rel R) (Option.Rel S) := by
  rintro _ _ _ _ (first | _) (second | _)
  · rw [Option.some.injEq, h first second]
    exact ⟨.some, fun | .some same => same⟩
  · exact ⟨nofun, nofun⟩
  · exact ⟨nofun, nofun⟩
  · exact ⟨fun _ => .none, fun _ => rfl⟩

theorem tells_forall₂ (h : Tells R S) : Tells (List.Forall₂ R) (List.Forall₂ S) := by
  intro as as' bs bs' first second
  induction first generalizing as' bs' with
  | nil =>
    cases second with
    | nil => exact ⟨fun _ => .nil, fun _ => rfl⟩
    | cons => exact ⟨nofun, nofun⟩
  | cons head _ ih =>
    cases second with
    | nil => exact ⟨nofun, nofun⟩
    | cons head' tail' => rw [List.cons.injEq, List.forall₂_cons, h head head', ih tail']

end Tells

theorem tells_maybeBytes : Tells MaybeBytes (Agree MaybeOctets) := by
  refine tells_agree _ (biUnique_spelled encode_injective) ?_ fun _ _ _ => MaybeOctets.unique
  rintro part _ (⟨rfl, rfl⟩ | ⟨s, present, digits, spelled, even, rfl⟩)
  · exact ⟨[], .inl ⟨rfl, rfl⟩, rfl⟩
  · obtain ⟨bytes, octets, encoded⟩ := exists_octets spelled even
    exact ⟨bytes, .inr ⟨s, present, octets⟩, by rw [encoded]⟩

theorem tells_block : Tells Block.Means Block.Alike := by
  intro b b' m m' h h'
  have number := tells_given tells_word h.number h'.number
  have hash := tells_given (tells_fixed 32) h.hash h'.hash
  have timestamp := tells_given tells_word h.timestamp h'.timestamp
  rw [Message.Block.ext_iff, number, hash, timestamp]
  exact ⟨fun ⟨n, d, t⟩ => ⟨n, d, t⟩, fun alike => ⟨alike.number, alike.hash, alike.timestamp⟩⟩

theorem tells_transaction : Tells Transaction.Means Transaction.Alike := by
  intro t t' m m' h h'
  have hash := tells_given (tells_fixed 32) h.hash h'.hash
  have sender := tells_given (tells_fixed 20) h.sender h'.sender
  have recipient := tells_rel (tells_fixed 20) h.recipient h'.recipient
  have nonce := tells_given tells_word h.nonce h'.nonce
  have gas := tells_given tells_word h.gas h'.gas
  have gasPrice := tells_given tells_wide h.gasPrice h'.gasPrice
  have value := tells_given tells_wide h.value h'.value
  have input := tells_maybeBytes h.input h'.input
  rw [Message.Transaction.ext_iff, hash, sender, recipient, nonce, gas, gasPrice, value, input]
  constructor
  · rintro ⟨hash, sender, recipient, nonce, gas, gasPrice, value, input⟩
    exact ⟨hash, sender, recipient, nonce, gas, gasPrice, value, input⟩
  · rintro ⟨hash, sender, recipient, nonce, gas, gasPrice, value, input⟩
    exact ⟨hash, sender, recipient, nonce, gas, gasPrice, value, input⟩

theorem tells_log : Tells Log.Means Log.Alike := by
  intro l l' m m' h h'
  have address := tells_given (tells_fixed 20) h.address h'.address
  have topics := tells_forall₂ (tells_fixed 32) h.topics h'.topics
  have data := tells_maybeBytes h.data h'.data
  have index := tells_given tells_word h.index h'.index
  rw [Message.Log.ext_iff, address, topics, data, index]
  exact ⟨fun ⟨a, t, d, i⟩ => ⟨a, t, d, i⟩,
    fun alike => ⟨alike.address, alike.topics, alike.data, alike.index⟩⟩

theorem tells_receipt : Tells Receipt.Means Receipt.Alike := by
  intro r r' m m' h h'
  have status := tells_given tells_status h.status h'.status
  have gasUsed := tells_given tells_word h.gasUsed h'.gasUsed
  have contractAddress := tells_rel (tells_fixed 20) h.contractAddress h'.contractAddress
  have logs := tells_forall₂ tells_log h.logs h'.logs
  rw [Message.Receipt.ext_iff, status, gasUsed, contractAddress, logs]
  exact ⟨fun ⟨s, g, c, l⟩ => ⟨s, g, c, l⟩,
    fun alike => ⟨alike.status, alike.gasUsed, alike.contractAddress, alike.logs⟩⟩

/-- Events have one message exactly if they denote the same. -/
theorem tells_event : Tells Means Alike := by
  intro e e' m m' h h'
  have chain := tells_given tells_chain h.chain h'.chain
  have block := tells_given tells_block h.block h'.block
  have transaction := tells_given tells_transaction h.transaction h'.transaction
  have receipt := tells_rel tells_receipt h.receipt h'.receipt
  rw [Message.ext_iff, chain, block, transaction, receipt]
  exact ⟨fun ⟨c, b, t, r⟩ => ⟨c, b, t, r⟩,
    fun alike => ⟨alike.chain, alike.block, alike.transaction, alike.receipt⟩⟩

/-! ## Canonical events are left as they are -/

theorem read_raw (m : Message) : codec.read (codec.write m.raw) = .ok m.raw := by
  have kept : codec.Keeps Json.asWritten Json.maxDepth m.raw :=
    m.raw.keeps Json.arrangement_asWritten
  exact kept.recovers

/-- The event of a message that some event has is converted to that message, also after it was written
and read. Hence events have one message exactly if their texts denote the same numbers and bytes in
the same places. -/
theorem toMessage_raw :
    (∀ (e : Event) (m : Message), e.toMessage = .ok m →
      m.raw.toMessage = .ok m ∧
      ∃ e', codec.read (codec.write m.raw) = .ok e' ∧ e'.toMessage = .ok m) ∧
    ∀ (e e' : Event) (m m' : Message), e.toMessage = .ok m → e'.toMessage = .ok m' →
      (m = m' ↔ e.Alike e') := by
  simp only [toMessage_eq_ok_iff]
  exact ⟨fun e m means => ⟨means.raw, m.raw, read_raw m, means.raw⟩,
    fun e e' m m' means means' => tells_event means means'⟩

/-- A text of the mark and one digit over and over. -/
def repeated (count : ℕ) (c : Char) : String :=
  markedText (List.replicate count c)

/-- An event in letters of both cases, with leading zeros, a decimal chain and data without mark. -/
def mixedEvent : Event where
  chainId := some "0001"
  block := some ⟨some "0x0A", some (repeated 64 'A'), some "0xffffffffffffffff"⟩
  transaction := some ⟨some (repeated 64 'b'), some (repeated 40 'C'), none, some "0x00",
    some "0x5208", some "0x000", some "0xDE0b", some "aB"⟩
  receipt := some ⟨some "0x1", some "0x05208", some (repeated 40 'E'),
    [⟨some (repeated 40 'f'), [repeated 64 'D'], none, some "0x0"⟩]⟩

/-- Its message. -/
def mixedMessage : Message where
  chainId := 1
  block := ⟨10, repeated 64 'a', 0xffffffffffffffff⟩
  transaction := ⟨repeated 64 'b', repeated 40 'c', none, 0, 21000, "0x0", "0xde0b", "0xab"⟩
  receipt := some ⟨true, 21000, some (repeated 40 'e'),
    [⟨repeated 40 'f', [repeated 64 'd'], "0x", 0⟩]⟩

theorem toMessage_raw_mixedEvent :
    mixedEvent.toMessage = .ok mixedMessage ∧
    (mixedMessage.raw.toMessage = .ok mixedMessage ∧
      ∃ e', codec.read (codec.write mixedMessage.raw) = .ok e' ∧
        e'.toMessage = .ok mixedMessage) ∧
    mixedEvent ≠ mixedMessage.raw ∧ mixedEvent.Alike mixedMessage.raw := by
  have accepted : mixedEvent.toMessage = .ok mixedMessage := by decide +kernel
  have canonical := toMessage_raw.1 mixedEvent mixedMessage accepted
  refine ⟨accepted, canonical, by decide +kernel, ?_⟩
  exact (toMessage_raw.2 _ _ _ _ accepted canonical.1).1 rfl

end Event

end TxRelay
