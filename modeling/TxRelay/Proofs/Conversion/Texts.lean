import TxRelay.Conversion
import TxRelay.Proofs.Text.Hex

/-!
# What the texts of an event say

The parts of an event are texts of a few kinds. Each kind is given by its texts and by what they say:
the number that the digits denote, or the digits in a canonical spelling. The readings of the
conversion accept these texts and give what they say.

Results:
* `canonical_eq`: digits in the canonical spelling are the digits of the number that they denote.
* `word?_iff`, `chain?_iff`, `wide?_iff`, `fixed?_iff`, `bytes_iff`: the reading of each kind.
* `exists_word_iff`, `exists_chain_iff`, `exists_wide_iff`, `exists_fixed_iff`,
  `exists_bytes_iff`: the texts of each kind.
-/

namespace TxRelay.Conversion

open TxRelay.Except TxRelay.Text
open Hex (Digit denoted)

/-! ## The kinds -/

/-- A text is the mark and hexadecimal digits. -/
def Marked (s : String) (digits : List Char) : Prop :=
  s.toList = '0' :: 'x' :: digits ∧ ∀ c ∈ digits, Digit c

/-- The text of the mark and other characters. -/
def markedText (digits : List Char) : String :=
  String.ofList ('0' :: 'x' :: digits)

/-- A quantity of 64 bits. -/
def Word (s : String) (n : UInt64) : Prop :=
  ∃ digits, Marked s digits ∧ digits ≠ [] ∧ n.toNat = denoted 16 digits

/-- The same in decimal digits. -/
def Decimal (s : String) (n : UInt64) : Prop :=
  s.toList ≠ [] ∧ (∀ c ∈ s.toList, c.isDigit = true) ∧ n.toNat = denoted 10 s.toList

/-- The number of a chain. -/
def Chain (s : String) (n : UInt64) : Prop :=
  Word s n ∨ Decimal s n

/-- A quantity of 256 bits: after the mark, the digits of its number in lower case and without leading
zeros. -/
def Wide (s t : String) : Prop :=
  ∃ digits, Marked s digits ∧ digits ≠ [] ∧ digits.length ≤ 64 ∧
    t = markedText (Nat.toDigits 16 (denoted 16 digits))

/-- So many bytes, in lower case. -/
def Fixed (length : ℕ) (s t : String) : Prop :=
  ∃ digits, Marked s digits ∧ digits.length = 2 * length ∧ t = markedText (digits.map Char.toLower)

/-- Any bytes, in lower case and with the mark, whether that was there or not. -/
def Bytes (s t : String) : Prop :=
  ∃ digits, (Marked s digits ∨ s.toList = digits ∧ ∀ c ∈ digits, Digit c) ∧ Even digits.length ∧
    t = markedText (digits.map Char.toLower)

/-- Whether a transaction succeeded. -/
def Status (s : String) (success : Bool) : Prop :=
  s = "0x1" ∧ success = true ∨ s = "0x0" ∧ success = false

/-! ### The texts of each kind -/

/-- The mark and at least one digit, of a number below 2^64. -/
def WordText (s : String) : Prop :=
  ∃ digits, Marked s digits ∧ digits ≠ [] ∧ denoted 16 digits < 2 ^ 64

/-- The same, or at least one decimal digit, of such a number. -/
def ChainText (s : String) : Prop :=
  WordText s ∨ s.toList ≠ [] ∧ (∀ c ∈ s.toList, c.isDigit = true) ∧ denoted 10 s.toList < 2 ^ 64

/-- The mark and up to 64 digits, but at least one. -/
def WideText (s : String) : Prop :=
  ∃ digits, Marked s digits ∧ digits ≠ [] ∧ digits.length ≤ 64

/-- The mark and two digits for each of so many bytes. -/
def FixedText (length : ℕ) (s : String) : Prop :=
  ∃ digits, Marked s digits ∧ digits.length = 2 * length

/-- An even number of digits, with the mark or without it. -/
def BytesText (s : String) : Prop :=
  ∃ digits, (Marked s digits ∨ s.toList = digits ∧ ∀ c ∈ digits, Digit c) ∧ Even digits.length

/-- One of the two quantities that a status may be. -/
def StatusText (s : String) : Prop :=
  s = "0x0" ∨ s = "0x1"

theorem exists_toNat_eq {k : ℕ} : (∃ n : UInt64, n.toNat = k) ↔ k < 2 ^ 64 :=
  ⟨fun ⟨n, h⟩ => h ▸ n.toNat_lt, fun h => ⟨UInt64.ofNat k, UInt64.toNat_ofNat_of_lt' h⟩⟩

theorem exists_word_iff {s : String} : (∃ n, Word s n) ↔ WordText s := by
  simp only [Word, WordText, ← exists_toNat_eq]
  tauto

theorem exists_chain_iff {s : String} : (∃ n, Chain s n) ↔ ChainText s := by
  simp only [Chain, ChainText, exists_or, exists_word_iff, Decimal, ← exists_toNat_eq]
  tauto

theorem exists_wide_iff {s : String} : (∃ t, Wide s t) ↔ WideText s :=
  ⟨fun ⟨_, digits, marked, filled, short, _⟩ => ⟨digits, marked, filled, short⟩,
    fun ⟨digits, marked, filled, short⟩ => ⟨_, digits, marked, filled, short, rfl⟩⟩

theorem exists_fixed_iff {length : ℕ} {s : String} : (∃ t, Fixed length s t) ↔ FixedText length s :=
  ⟨fun ⟨_, digits, marked, size, _⟩ => ⟨digits, marked, size⟩,
    fun ⟨digits, marked, size⟩ => ⟨_, digits, marked, size, rfl⟩⟩

theorem exists_bytes_iff {s : String} : (∃ t, Bytes s t) ↔ BytesText s :=
  ⟨fun ⟨_, digits, spelled, even, _⟩ => ⟨digits, spelled, even⟩,
    fun ⟨digits, spelled, even⟩ => ⟨_, digits, spelled, even, rfl⟩⟩

theorem exists_status_iff {s : String} : (∃ success, Status s success) ↔ StatusText s := by
  simp [Status, StatusText]

/-! ## Digits -/

section Digits

variable {c : Char} {digits : List Char}

theorem denoted_zero (base : ℕ) (digits : List Char) :
    denoted base ('0' :: digits) = denoted base digits := by
  have zero : Hex.value '0' = 0 := by decide
  simp [denoted, Nat.ofDigits_append, zero]

theorem value_ne_zero (digit : Digit c) (h : c ≠ '0') : Hex.value c ≠ 0 := by
  intro zero
  apply h
  have lower : c.toLower = '0' := by rw [← Hex.digit_value digit, zero]; decide
  by_cases small : c.toNat < 128
  · have all : ∀ n : Fin 128, (Char.ofNat n.val).toLower = '0' → Char.ofNat n.val = '0' := by
      decide +kernel
    simpa using all ⟨c.toNat, small⟩ (by simpa using lower)
  · rwa [Hex.toLower_large (by omega)] at lower

/-- Digits of which the first is not zero are those of the number that they denote. -/
theorem toDigits_denoted (h : ∀ d ∈ c :: digits, Digit d) (first : c ≠ '0') :
    0 < denoted 16 (c :: digits) ∧
      Nat.toDigits 16 (denoted 16 (c :: digits)) = (c :: digits).map Char.toLower := by
  induction digits using List.reverseRecOn with
  | nil =>
    have digit := h c (by simp)
    have single : denoted 16 [c] = Hex.value c := by simp [denoted]
    rw [single, Nat.toDigits_of_lt_base (Hex.value_lt digit), Hex.digitChar_value digit]
    exact ⟨Nat.pos_of_ne_zero (value_ne_zero digit first), rfl⟩
  | append_singleton digits d ih =>
    obtain ⟨positive, spelled⟩ := ih fun x hx => h x (by
      rw [← List.cons_append]
      exact List.mem_append_left _ hx)
    have digit := h d (by simp)
    rw [← List.cons_append, Hex.denoted_concat]
    refine ⟨by omega, ?_⟩
    rw [← Nat.toDigits_append_toDigits (by decide) positive (Hex.value_lt digit), spelled,
      Nat.toDigits_of_lt_base (Hex.value_lt digit), Hex.digitChar_value digit, List.map_append,
      List.map_singleton]

theorem canonical_eq (h : ∀ d ∈ digits, Digit d) :
    Quantity.canonical digits = Nat.toDigits 16 (denoted 16 digits) := by
  induction digits with
  | nil => rfl
  | cons c digits ih =>
    by_cases zero : c = '0'
    · rw [zero, denoted_zero, ← ih fun d hd => h d (List.mem_cons_of_mem _ hd)]
      simp [Quantity.canonical]
    · rw [(toDigits_denoted h zero).2]
      simp [Quantity.canonical, zero]

theorem isDigit_digit (h : c.isDigit = true) : Digit c ∧ Hex.value c = c.toNat - 48 := by
  have small : c.toNat < 128 := by
    simp only [Char.isDigit, Bool.and_eq_true, decide_eq_true_eq] at h
    have : c.toNat ≤ 57 := UInt32.le_iff_toNat_le.1 h.2
    omega
  have all : ∀ n : Fin 128, (Char.ofNat n.val).isDigit = true →
      Digit (Char.ofNat n.val) ∧ Hex.value (Char.ofNat n.val) = n.val - 48 := by
    decide +kernel
  simpa using all ⟨c.toNat, small⟩ (by simpa using h)

theorem ofDigitChars_eq_denoted (h : ∀ c ∈ digits, c.isDigit = true) :
    Nat.ofDigitChars 10 digits 0 = denoted 10 digits := by
  induction digits using List.reverseRecOn with
  | nil => rfl
  | append_singleton digits c ih =>
    rw [Hex.denoted_concat, ← ih fun d hd => h d (by simp [hd]), (isDigit_digit (h c (by simp))).2,
      Nat.ofDigitChars_eq_foldl, List.foldl_append, Nat.ofDigitChars_eq_foldl]
    rfl

end Digits

/-! ## The readings -/

section Readings

variable {s t : String} {n : UInt64} {text digits : List Char}

theorem unmark?_eq_some_iff : Quantity.unmark? text = some digits ↔ text = '0' :: 'x' :: digits := by
  unfold Quantity.unmark?
  split <;> simp_all [eq_comm]

/-- The check that there is a character and that all are of one kind. -/
theorem unfit_iff {p : Char → Bool} {cs : List Char} :
    (cs.isEmpty || !cs.all p) = true ↔ ¬ (cs ≠ [] ∧ ∀ c ∈ cs, p c = true) := by
  rw [Bool.or_eq_true, List.isEmpty_iff, Bool.not_eq_true', ← Bool.not_eq_true, List.all_eq_true]
  tauto

theorem digits?_eq_some_iff :
    Quantity.digits? s.toList = some digits ↔ Marked s digits ∧ digits ≠ [] := by
  simp only [Quantity.digits?, Option.bind_eq_bind, Option.bind_eq_some_iff, unmark?_eq_some_iff,
    unfit_iff, Hex.isDigit_iff, Marked]
  constructor
  · rintro ⟨found, marked, checked⟩
    split_ifs at checked with fit
    cases checked
    exact ⟨⟨marked, fit.2⟩, fit.1⟩
  · rintro ⟨⟨marked, digit⟩, filled⟩
    exact ⟨digits, marked, if_neg (not_not.2 ⟨filled, digit⟩)⟩

theorem fit?_eq_some_iff {k : ℕ} : Quantity.fit? k = some n ↔ n.toNat = k := by
  have bound : n.toNat < Quantity.wordBound := n.toNat_lt
  simp only [Quantity.fit?]
  split_ifs with h
  · rw [Option.some.injEq]
    constructor
    · rintro rfl
      exact UInt64.toNat_ofNat_of_lt' h
    · rintro rfl
      exact UInt64.ofNat_toNat
  · refine ⟨fun h => (by cases h), fun h => ?_⟩
    omega

theorem word?_iff : Quantity.word? s.toList = some n ↔ Word s n := by
  simp only [Quantity.word?, Option.bind_eq_bind, Option.bind_eq_some_iff, digits?_eq_some_iff,
    fit?_eq_some_iff, Word]
  refine exists_congr fun digits => ?_
  constructor
  · rintro ⟨⟨marked, filled⟩, number⟩
    exact ⟨marked, filled, number.trans (Hex.number_eq_denoted marked.2)⟩
  · rintro ⟨marked, filled, number⟩
    exact ⟨⟨marked, filled⟩, number.trans (Hex.number_eq_denoted marked.2).symm⟩

theorem decimal?_iff : Quantity.decimal? s.toList = some n ↔ Decimal s n := by
  simp only [Quantity.decimal?, Decimal, unfit_iff]
  split_ifs with fit
  · rw [fit?_eq_some_iff, ofDigitChars_eq_denoted fit.2, ← and_assoc, and_iff_right fit]
  · exact ⟨fun h => (by cases h), fun ⟨filled, digit, _⟩ => absurd ⟨filled, digit⟩ fit⟩

/-- No text with the mark is decimal. -/
theorem not_decimal (marked : (Quantity.unmark? s.toList).isSome = true) : ¬ Decimal s n := by
  obtain ⟨digits, found⟩ := Option.isSome_iff_exists.1 marked
  rintro ⟨-, digit, -⟩
  have := digit 'x' (by simp [unmark?_eq_some_iff.1 found])
  cases this

theorem chain?_iff : Quantity.chain? s.toList = some n ↔ Chain s n := by
  simp only [Quantity.chain?, Chain]
  split_ifs with marked
  · rw [word?_iff, or_iff_left (not_decimal marked)]
  · rw [decimal?_iff, or_iff_right]
    rintro ⟨digits, hex, -⟩
    simp [unmark?_eq_some_iff.2 hex.1] at marked

theorem wide?_iff :
    (Quantity.wide? s.toList).map String.ofList = some t ↔ Wide s t := by
  simp only [Quantity.wide?, Option.bind_eq_bind, Option.map_eq_some_iff, Option.bind_eq_some_iff,
    digits?_eq_some_iff, Wide]
  constructor
  · rintro ⟨spelled, ⟨digits, ⟨marked, filled⟩, short⟩, rfl⟩
    split_ifs at short with long
    cases short
    refine ⟨digits, marked, filled, Nat.not_lt.1 long, ?_⟩
    rw [canonical_eq marked.2]
    rfl
  · rintro ⟨digits, marked, filled, short, rfl⟩
    refine ⟨_, ⟨digits, ⟨marked, filled⟩, if_neg (Nat.not_lt.2 short)⟩, ?_⟩
    rw [canonical_eq marked.2]
    rfl

/-- A text that is a byte string of some length, and its spelling in lower case. -/
theorem decode_encode_iff {length : ℕ} {spelled : List Char} :
    (∃ bytes, Hex.decode (Utf8.encode digits) = .ok bytes ∧ bytes.length = length ∧
        Hex.encode bytes = spelled) ↔
      (∀ c ∈ digits, Digit c) ∧ digits.length = 2 * length ∧ spelled = digits.map Char.toLower := by
  constructor
  · rintro ⟨bytes, decoded, rfl, rfl⟩
    obtain ⟨digit, encoded⟩ := Hex.decode_eq_ok decoded
    have size := Hex.length_encode bytes
    rw [encoded, List.length_map] at size
    exact ⟨digit, size, encoded⟩
  · rintro ⟨digit, size, rfl⟩
    obtain ⟨bytes, decoded⟩ := Hex.exists_decode digit (size ▸ even_two_mul length)
    have encoded := (Hex.decode_eq_ok decoded).2
    have size' := Hex.length_encode bytes
    rw [encoded, List.length_map] at size'
    exact ⟨bytes, decoded, by omega, encoded⟩

theorem fixed?_iff (length : ℕ) :
    (Quantity.fixed? length s.toList).map String.ofList = some t ↔ Fixed length s t := by
  simp only [Quantity.fixed?, Option.bind_eq_bind, Option.map_eq_some_iff, Option.bind_eq_some_iff,
    unmark?_eq_some_iff, Fixed, Marked]
  constructor
  · rintro ⟨spelled, ⟨digits, marked, read⟩, rfl⟩
    split at read
    next bytes decoded =>
      split_ifs at read with size
      cases read
      obtain ⟨digit, long, encoded⟩ := decode_encode_iff.1 ⟨bytes, decoded, size, rfl⟩
      exact ⟨digits, ⟨marked, digit⟩, long, by rw [encoded]; rfl⟩
    next => cases read
  · rintro ⟨digits, ⟨marked, digit⟩, long, rfl⟩
    obtain ⟨bytes, decoded, size, encoded⟩ := decode_encode_iff.2 ⟨digit, long, rfl⟩
    refine ⟨_, ⟨digits, marked, ?_⟩, rfl⟩
    simp [decoded, size, encoded, Quantity.mark]

/-- The reading of the digits of a byte string. -/
theorem decode_iff :
    (∃ cs, (Hex.decode (Utf8.encode digits)).map
        (fun bytes => Quantity.mark (Hex.encode bytes)) = .ok cs ∧ String.ofList cs = t) ↔
      (∀ c ∈ digits, Digit c) ∧ Even digits.length ∧ t = markedText (digits.map Char.toLower) := by
  simp only [map_eq_ok_iff]
  constructor
  · rintro ⟨_, ⟨bytes, decoded, rfl⟩, rfl⟩
    obtain ⟨digit, long, encoded⟩ := decode_encode_iff.1 ⟨bytes, decoded, rfl, rfl⟩
    exact ⟨digit, long ▸ even_two_mul _, by rw [encoded]; rfl⟩
  · rintro ⟨digit, even, rfl⟩
    obtain ⟨bytes, decoded, -, encoded⟩ :=
      decode_encode_iff.2 ⟨digit, (Nat.two_mul_div_two_of_even even).symm, rfl⟩
    exact ⟨_, ⟨bytes, decoded, rfl⟩, by rw [encoded]; rfl⟩

theorem bytes_iff :
    (∃ cs, Quantity.bytes s.toList = .ok cs ∧ String.ofList cs = t) ↔ Bytes s t := by
  simp only [Quantity.bytes, decode_iff, Bytes, Marked]
  cases found : Quantity.unmark? s.toList with
  | some digits =>
    have marked := unmark?_eq_some_iff.1 found
    constructor
    · rintro ⟨digit, even, rfl⟩
      exact ⟨digits, .inl ⟨marked, digit⟩, even, rfl⟩
    · rintro ⟨others, ⟨marked', digit⟩ | ⟨rfl, digit⟩, even, rfl⟩
      · obtain rfl : digits = others := by simpa [marked] using marked'
        exact ⟨digit, even, rfl⟩
      · have bad : ¬ Digit 'x' := by decide
        exact absurd (digit 'x' (by simp [marked])) bad
  | none =>
    constructor
    · rintro ⟨digit, even, rfl⟩
      exact ⟨_, .inr ⟨rfl, digit⟩, even, rfl⟩
    · rintro ⟨digits, ⟨marked, -⟩ | ⟨rfl, digit⟩, even, rfl⟩
      · simp [unmark?_eq_some_iff.2 marked] at found
      · exact ⟨digit, even, rfl⟩

end Readings

end TxRelay.Conversion
