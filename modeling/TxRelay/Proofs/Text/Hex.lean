import Mathlib.Data.Nat.Digits.Lemmas
import Mathlib.Tactic
import TxRelay.Proofs.Except
import TxRelay.Text.Hex
import TxRelay.Text.Utf8

/-!
# What hexadecimal text denotes

A text of hexadecimal digits denotes a number, whose digits in base 16 are the values of the
characters, and a byte string, each half byte of which is the value of one character. Both are said
here without the functions that read such text, which are then shown to agree.

Results:
* `number_eq_denoted`: the number of digits is the one that they denote.
* `decode_eq_ok`: a text that is a byte string consists of digits, and the byte string is written as
  the text in lower case.
* `exists_decode`: a text of an even number of digits is a byte string.
-/

namespace TxRelay.Text.Hex

open TxRelay.Except

/-! ## Digits -/

/-- The digits in lower case, in the order of their values. -/
def alphabet : List Char :=
  ['0', '1', '2', '3', '4', '5', '6', '7', '8', '9', 'a', 'b', 'c', 'd', 'e', 'f']

/-- A digit of either case. -/
def Digit (c : Char) : Prop :=
  c.toLower ∈ alphabet

instance (c : Char) : Decidable (Digit c) :=
  inferInstanceAs (Decidable (c.toLower ∈ alphabet))

/-- The value of a digit. -/
def value (c : Char) : ℕ :=
  alphabet.idxOf c.toLower

/-- The number that digits denote in a base, the most significant digit first. -/
def denoted (base : ℕ) (digits : List Char) : ℕ :=
  Nat.ofDigits base (digits.map value).reverse

variable {c : Char} {digits : List Char}

theorem value_lt (h : Digit c) : value c < 16 :=
  List.idxOf_lt_length_of_mem h

theorem digit_value (h : Digit c) : digit (value c) = c.toLower := by
  have all : alphabet.all fun d => digit (alphabet.idxOf d) = d := by decide
  exact of_decide_eq_true (List.all_eq_true.1 all _ h)

theorem digitChar_value (h : Digit c) : Nat.digitChar (value c) = c.toLower := by
  have all : alphabet.all fun d => Nat.digitChar (alphabet.idxOf d) = d := by decide
  exact of_decide_eq_true (List.all_eq_true.1 all _ h)

theorem value?_large {code : ℕ} (h : 128 ≤ code) : value? code = none := by
  have h₁ : ¬ code ≤ 0x39 := by omega
  have h₂ : ¬ code ≤ 0x66 := by omega
  have h₃ : ¬ code ≤ 0x46 := by omega
  simp [value?, h₁, h₂, h₃]

theorem toLower_large (h : 128 ≤ c.toNat) : c.toLower = c := by
  refine dif_neg fun hc => ?_
  have : c.toNat ≤ 90 := UInt32.le_iff_toNat_le.1 hc.2
  omega

/-- The digits and their values are those that the reading knows. -/
theorem value?_eq (c : Char) : value? c.toNat = if Digit c then some (value c) else none := by
  by_cases h : c.toNat < 128
  · have all : ∀ n : Fin 128, value? n.val =
        if Digit (Char.ofNat n.val) then some (value (Char.ofNat n.val)) else none := by
      decide +kernel
    simpa using all ⟨c.toNat, h⟩
  · have large : 128 ≤ c.toNat := by omega
    have other : ¬ Digit c := by
      have all : alphabet.all fun d => d.toNat < 128 := by decide
      rw [Digit, toLower_large large]
      intro mem
      exact h (of_decide_eq_true (List.all_eq_true.1 all c mem))
    rw [value?_large large, if_neg other]

theorem value?_eq_some_iff {n : ℕ} : value? c.toNat = some n ↔ Digit c ∧ value c = n := by
  rw [value?_eq]
  split_ifs with h <;> simp [h]

theorem isDigit_iff : isDigit c = true ↔ Digit c := by
  rw [isDigit, value?_eq]
  split_ifs with h <;> simp [h]

/-! ## Numbers -/

@[simp] theorem denoted_concat (base : ℕ) (digits : List Char) (c : Char) :
    denoted base (digits ++ [c]) = base * denoted base digits + value c := by
  simp [denoted, Nat.ofDigits_cons, add_comm]

theorem number_eq_denoted (h : ∀ c ∈ digits, Digit c) : number digits = denoted 16 digits := by
  induction digits using List.reverseRecOn with
  | nil => rfl
  | append_singleton digits c ih =>
    have hc : value? c.toNat = some (value c) := by rw [value?_eq, if_pos (h c (by simp))]
    rw [denoted_concat, ← ih fun d hd => h d (by simp [hd]), number, List.foldl_append]
    simp [number, hc]

/-! ## Byte strings -/

/-- The half bytes of bytes, the higher one first. -/
def halves (bytes : List UInt8) : List ℕ :=
  bytes.flatMap fun b => [b.toNat / 16, b.toNat % 16]

@[simp] theorem halves_cons (b : UInt8) (bytes : List UInt8) :
    halves (b :: bytes) = b.toNat / 16 :: b.toNat % 16 :: halves bytes := rfl

theorem encode_eq (bytes : List UInt8) : encode bytes = (halves bytes).map digit := by
  simp [encode, halves, List.map_flatMap]

/-- Values that come in pairs are half bytes. -/
theorem exists_halves {values : List ℕ} (paired : Even values.length) (small : ∀ n ∈ values, n < 16) :
    ∃ bytes, halves bytes = values := by
  match values with
  | [] => exact ⟨[], rfl⟩
  | [_] => simp at paired
  | high :: low :: rest =>
    have hrest : Even rest.length := by simpa [parity_simps] using paired
    obtain ⟨bytes, rfl⟩ := exists_halves hrest fun n hn => small n (by simp [hn])
    have hhigh := small high (by simp)
    have hlow := small low (by simp)
    refine ⟨UInt8.ofNat (16 * high + low) :: bytes, ?_⟩
    have : (UInt8.ofNat (16 * high + low)).toNat = 16 * high + low := by
      rw [UInt8.toNat_ofNat']
      omega
    rw [halves_cons, this]
    congr 2 <;> omega

theorem digitAt_eq_ok_iff {byte : UInt8} {index n : ℕ} :
    digitAt byte index = .ok n ↔ value? byte.toNat = some n := by
  unfold digitAt
  split <;> simp_all

theorem value?_lt {code n : ℕ} (h : value? code = some n) : n < 16 := by
  simp only [value?, Bool.and_eq_true, decide_eq_true_eq] at h
  split_ifs at h <;> cases h <;> omega

/-- Bytes that are read as a byte string are digits whose values are its half bytes. -/
theorem decodePairs_eq_ok_iff (index : ℕ) (text bytes : List UInt8) :
    decodePairs index text = .ok bytes ↔
      text.map (fun b => value? b.toNat) = (halves bytes).map some := by
  induction index, text using decodePairs.induct generalizing bytes with
  | case1 index => cases bytes <;> simp [decodePairs, halves]
  | case2 index b => cases bytes <;> simp [decodePairs, halves]
  | case3 index high low rest ih =>
    simp only [decodePairs, bind_eq_ok_iff, digitAt_eq_ok_iff, ih, pure, Except.pure,
      Except.ok.injEq, List.map_cons]
    constructor
    · rintro ⟨h, hhigh, l, hlow, bytes', hrest, rfl⟩
      have := value?_lt hhigh
      have := value?_lt hlow
      have hbyte : (UInt8.ofNat (16 * h + l)).toNat = 16 * h + l := by
        rw [UInt8.toNat_ofNat']
        omega
      rw [halves_cons, hbyte, hhigh, hlow, hrest, List.map_cons, List.map_cons]
      congr 3 <;> omega
    · intro same
      cases bytes with
      | nil => cases same
      | cons b bytes =>
        simp only [halves_cons, List.map_cons, List.cons.injEq] at same
        obtain ⟨hhigh, hlow, hrest⟩ := same
        refine ⟨_, hhigh, _, hlow, bytes, hrest, ?_⟩
        rw [Nat.div_add_mod, UInt8.ofNat_toNat]

theorem decode_eq_ok_iff (text bytes : List UInt8) :
    decode text = .ok bytes ↔ text.map (fun b => value? b.toNat) = (halves bytes).map some := by
  rw [← decodePairs_eq_ok_iff 0, decode]
  split_ifs with odd
  · refine ⟨fun h => (by cases h), fun h => ?_⟩
    have same := congrArg List.length ((decodePairs_eq_ok_iff 0 text bytes).1 h)
    have even := length_encode bytes
    rw [encode_eq, List.length_map] at even
    simp only [List.length_map] at same
    omega
  · rfl

/-! ## The bytes of a text -/

theorem encode_small (h : c.toNat < 128) (rest : List Char) :
    Utf8.encode (c :: rest) = UInt8.ofNat c.toNat :: Utf8.encode rest := by
  have small : c.toNat ≤ 127 := Nat.le_of_lt_succ h
  simp [Utf8.encode, String.utf8EncodeChar, small]

theorem encode_large (h : 128 ≤ c.toNat) (rest : List Char) :
    ∃ b bytes, Utf8.encode (c :: rest) = b :: bytes ∧ 128 ≤ b.toNat := by
  have large : ¬ c.val.toNat ≤ 127 := Nat.not_le.2 h
  simp only [Utf8.encode, List.flatMap_cons, String.utf8EncodeChar, large, if_false]
  split_ifs
  all_goals
    refine ⟨_, _, rfl, ?_⟩
    rw [UInt8.toNat_ofNat']
    omega

/-- The bytes of a text have some values as digits exactly if its characters have. -/
theorem map_value?_encode (text : List Char) (values : List ℕ) :
    (Utf8.encode text).map (fun b => value? b.toNat) = values.map some ↔
      text.map (fun c => value? c.toNat) = values.map some := by
  induction text generalizing values with
  | nil => rfl
  | cons c text ih =>
    by_cases h : c.toNat < 128
    · have hbyte : (UInt8.ofNat c.toNat).toNat = c.toNat := by
        rw [UInt8.toNat_ofNat']
        omega
      rw [encode_small h, List.map_cons, List.map_cons, hbyte]
      cases values with
      | nil => simp
      | cons n values => simp [ih]
    · obtain ⟨b, bytes, hencode, large⟩ := encode_large (Nat.le_of_not_lt h) text
      rw [hencode, List.map_cons, List.map_cons, value?_large large,
        value?_large (Nat.le_of_not_lt h)]
      cases values <;> simp

theorem map_value?_iff (text : List Char) (values : List ℕ) :
    text.map (fun c => value? c.toNat) = values.map some ↔
      (∀ c ∈ text, Digit c) ∧ text.map value = values := by
  induction text generalizing values with
  | nil => cases values <;> simp
  | cons c text ih =>
    cases values with
    | nil => simp
    | cons n values =>
      simp only [List.map_cons, List.cons.injEq, ih, value?_eq_some_iff, List.forall_mem_cons]
      tauto

theorem map_digit_value (h : ∀ c ∈ digits, Digit c) :
    (digits.map value).map digit = digits.map Char.toLower := by
  rw [List.map_map]
  exact List.map_congr_left fun c hc => digit_value (h c hc)

theorem decode_eq_ok {text : List Char} {bytes : List UInt8}
    (h : decode (Utf8.encode text) = .ok bytes) :
    (∀ c ∈ text, Digit c) ∧ encode bytes = text.map Char.toLower := by
  rw [decode_eq_ok_iff, map_value?_encode, map_value?_iff] at h
  obtain ⟨digits, values⟩ := h
  exact ⟨digits, by rw [encode_eq, ← values, map_digit_value digits]⟩

theorem exists_decode {text : List Char} (digits : ∀ c ∈ text, Digit c)
    (even : Even text.length) : ∃ bytes, decode (Utf8.encode text) = .ok bytes := by
  have small : ∀ n ∈ text.map value, n < 16 := by
    rintro n hn
    obtain ⟨c, hc, rfl⟩ := List.mem_map.1 hn
    exact value_lt (digits c hc)
  obtain ⟨bytes, hbytes⟩ := exists_halves (by simpa using even) small
  refine ⟨bytes, ?_⟩
  rw [decode_eq_ok_iff, map_value?_encode, map_value?_iff]
  exact ⟨digits, hbytes.symm⟩

end TxRelay.Text.Hex
