import TxRelay.Proofs.Conversion.Canonical
import TxRelay.Proofs.Conversion.Checks

/-!
# Zeros in front of a quantity

A quantity in hexadecimal digits may begin with zeros. Whether it is one of 64 bits depends on the
number that the digits denote, and so zeros in front do not matter. Whether it is one of 256 bits
depends on how many digits there are before the zeros in front are dropped. So a text with enough
zeros is a quantity of 64 bits but none of 256 bits, however small its number is; any other quantity
of 64 bits is one of 256 bits with the same number.

Results:
* `denoted_lt_pow_iff`: the last digits denote the whole number exactly if the others are zeros.
* `word_of_amount`, `wide_of_amount`: what is read from a text that denotes a number.
* `padding_decides`: where the two readings agree, and for which texts they do not.
* `padded_quantity_refused`: such a text.
-/

namespace TxRelay.Conversion

open TxRelay.Text
open Hex (Digit denoted)

/-! ## Zeros and numbers -/

section Zeros

variable {digits front back : List Char}

theorem denoted_append (base : ℕ) (front back : List Char) :
    denoted base (front ++ back) = denoted base back + base ^ back.length * denoted base front := by
  simp [denoted, Nat.ofDigits_append]

theorem denoted_lt_pow_length (h : ∀ c ∈ digits, Digit c) :
    denoted 16 digits < 16 ^ digits.length := by
  have small : ∀ n ∈ (digits.map Hex.value).reverse, n < 16 := by
    simp only [List.mem_reverse, List.forall_mem_map]
    exact fun c hc => Hex.value_lt (h c hc)
  simpa [denoted] using Nat.ofDigits_lt_base_pow_length (by decide) small

theorem denoted_eq_zero_iff (h : ∀ c ∈ digits, Digit c) :
    denoted 16 digits = 0 ↔ ∀ c ∈ digits, c = '0' := by
  induction digits with
  | nil => exact ⟨fun _ => List.forall_mem_nil _, fun _ => rfl⟩
  | cons c digits ih =>
    rw [List.forall_mem_cons]
    by_cases zero : c = '0'
    · rw [zero, denoted_zero, ih fun d hd => h d (List.mem_cons_of_mem _ hd)]
      exact (and_iff_right rfl).symm
    · have positive := (toDigits_denoted h zero).1
      exact ⟨fun none => absurd none positive.ne', fun all => absurd all.1 zero⟩

/-- A number takes no more than the last digits exactly if there are only zeros before them. -/
theorem denoted_lt_pow_iff (h : ∀ c ∈ front ++ back, Digit c) :
    denoted 16 (front ++ back) < 16 ^ back.length ↔ ∀ c ∈ front, c = '0' := by
  obtain ⟨hfront, hback⟩ := List.forall_mem_append.1 h
  rw [← denoted_eq_zero_iff hfront, denoted_append]
  constructor
  · intro small
    by_contra nonzero
    -- Any other digit in front counts for the whole bound at least.
    have : 16 ^ back.length ≤ 16 ^ back.length * denoted 16 front :=
      Nat.le_mul_of_pos_right _ (Nat.pos_of_ne_zero nonzero)
    omega
  · intro zero
    rw [zero, Nat.mul_zero, Nat.add_zero]
    exact denoted_lt_pow_length hback

/-- More digits than a number takes begin with zeros. -/
theorem exists_zeros_append (size : ℕ) (h : ∀ c ∈ digits, Digit c)
    (small : denoted 16 digits < 16 ^ size) (le : size ≤ digits.length) :
    ∃ last, last.length = size ∧
      digits = List.replicate (digits.length - size) '0' ++ last := by
  have cut := List.take_append_drop (digits.length - size) digits
  have last : (digits.drop (digits.length - size)).length = size := by
    rw [List.length_drop]
    omega
  have zero : ∀ c ∈ digits.take (digits.length - size), c = '0' := by
    rw [← cut] at h small
    refine (denoted_lt_pow_iff h).1 ?_
    rw [last]
    exact small
  have zeros : digits.take (digits.length - size) = List.replicate (digits.length - size) '0' := by
    refine List.eq_replicate_iff.2 ⟨?_, zero⟩
    rw [List.length_take]
    omega
  exact ⟨_, last, by rw [← zeros, cut]⟩

end Zeros

/-! ## The two readings -/

section Readings

variable {part s t : String} {digits : List Char} {n : UInt64} {k : ℕ}

theorem Marked.eq_markedText (h : Marked s digits) : s = markedText digits := by
  rw [markedText, ← h.1, String.ofList_toList]

theorem Marked.length (h : Marked s digits) : s.length = 2 + digits.length := by
  rw [← String.length_toList, h.1, List.length_cons, List.length_cons]
  omega

theorem word_some_iff : word part (some s) = .ok n ↔ Amount s n.toNat := by
  rw [Event.word_iff]
  exact ⟨fun ⟨_, same, word⟩ => Option.some.inj same ▸ word, .of⟩

theorem amount_of_wide (h : wide part (some s) = .ok t) : ∃ k < 2 ^ 256, Amount s k := by
  obtain ⟨_, ⟨⟩, digits, marked, filled, short, -⟩ := Event.wide_iff.1 h
  have bound : 16 ^ digits.length ≤ 16 ^ 64 := Nat.pow_le_pow_right (by decide) short
  exact ⟨_, (denoted_lt_pow_length marked.2).trans_le bound, digits, marked, filled, rfl⟩

/-- A text is a quantity of 64 bits if its number is small enough. -/
theorem word_of_amount (part : String) (h : Amount s k) :
    word part (some s) = if k < 2 ^ 64 then .ok (.ofNat k) else .error (.quantity part s) := by
  split_ifs with small
  · rw [word_some_iff, UInt64.toNat_ofNat_of_lt' small]
    exact h
  · have unfit : ¬ WordText s := by
      rintro ⟨digits, marked, filled, small'⟩
      exact small (h.unique ⟨digits, marked, filled, rfl⟩ ▸ small')
    obtain ⟨err, refused, rfl⟩ := Event.readBy_word.refuses unfit
    exact refused

/-- A text is a quantity of 256 bits if it is short enough: with the mark, 64 digits fit. -/
theorem wide_of_amount (part : String) (h : Amount s k) :
    wide part (some s) = if s.length ≤ 66 then .ok (markedText (Nat.toDigits 16 k))
      else .error (.quantity part s) := by
  obtain ⟨digits, marked, filled, rfl⟩ := h
  have size := marked.length
  split_ifs with short
  · exact Event.wide_iff.2 ⟨s, rfl, digits, marked, filled, by omega, rfl⟩
  · have unfit : ¬ WideText s := by
      rintro ⟨digits', marked', -, short'⟩
      have size' := marked'.length
      omega
    obtain ⟨err, refused, rfl⟩ := Event.readBy_wide.refuses unfit
    exact refused

/-! ## Where they agree -/

/-- Sixteen digits, and more zeros before them than 64 digits have room for. -/
def Overpadded (s : String) : Prop :=
  ∃ zeros last, 48 < zeros ∧ last.length = 16 ∧ (∀ c ∈ last, Digit c) ∧
    s = markedText (List.replicate zeros '0' ++ last)

/-- The quantities of a number of 64 bits that have too many digits for one of 256 bits. -/
theorem overpadded_iff : Overpadded s ↔ (∃ k < 2 ^ 64, Amount s k) ∧ 66 < s.length := by
  constructor
  · rintro ⟨zeros, last, many, size, digit, rfl⟩
    have all : ∀ c ∈ List.replicate zeros '0' ++ last, Digit c := by
      refine List.forall_mem_append.2 ⟨fun c hc => ?_, digit⟩
      rw [List.eq_of_mem_replicate hc]
      decide
    have marked := marked_markedText all
    have small := (denoted_lt_pow_iff all).2 fun c hc => List.eq_of_mem_replicate hc
    rw [size] at small
    have long := marked.length
    rw [List.length_append, List.length_replicate, size] at long
    refine ⟨⟨_, small, _, marked, ?_, rfl⟩, by omega⟩
    exact List.append_ne_nil_of_right_ne_nil _ (List.ne_nil_of_length_eq_add_one size)
  · rintro ⟨⟨_, small, digits, marked, filled, rfl⟩, long⟩
    rw [marked.length] at long
    obtain ⟨last, size, padded⟩ := exists_zeros_append 16 marked.2 small (by omega)
    refine ⟨digits.length - 16, last, by omega, size, fun c hc => marked.2 c ?_, ?_⟩
    · rw [padded]
      exact List.mem_append_right _ hc
    · rw [← padded]
      exact marked.eq_markedText

theorem amount_hex (n : UInt64) : Amount (hex n) n.toNat :=
  word_hex n

theorem length_hex_le (n : UInt64) : (hex n).length ≤ 18 := by
  have marked := marked_markedText (digit_toDigits n.toNat)
  have short : (Nat.toDigits 16 n.toNat).length ≤ 16 :=
    (Nat.length_toDigits_le_iff (by decide) (by decide)).2 n.toNat_lt
  have size : (hex n).length = _ := marked.length
  omega

/-- A quantity of 64 bits that has at most 64 digits is one of 256 bits, of the same number in
canonical spelling. Any other is refused as one, although the canonical spelling of its number is not.
A quantity of 256 bits is one of 64 bits exactly if its number is below the bound, and then of the
same number. So the quantities of 64 bits that are refused as ones of 256 bits are those with too
many zeros in front. -/
theorem padding_decides (part part' s : String) :
    (∀ n, word part (some s) = .ok n →
      (wide part' (some s) =
        if s.length ≤ 66 then .ok (hex n) else .error (.quantity part' s)) ∧
      wide part' (some (hex n)) = .ok (hex n)) ∧
    (∀ t, wide part' (some s) = .ok t → ∃ k < 2 ^ 256, Amount s k ∧
      t = markedText (Nat.toDigits 16 k) ∧
      word part (some s) = if k < 2 ^ 64 then .ok (.ofNat k) else .error (.quantity part s)) ∧
    ((∃ n, word part (some s) = .ok n) ∧ wide part' (some s) = .error (.quantity part' s) ↔
      Overpadded s) := by
  refine ⟨fun n read => ⟨wide_of_amount part' (word_some_iff.1 read), ?_⟩, fun t read => ?_, ?_⟩
  · have short := length_hex_le n
    rw [wide_of_amount part' (amount_hex n), if_pos (by omega)]
    rfl
  · obtain ⟨k, bound, amount⟩ := amount_of_wide read
    rw [wide_of_amount part' amount] at read
    split_ifs at read with short
    exact ⟨k, bound, amount, (Except.ok.inj read).symm, word_of_amount part amount⟩
  · rw [overpadded_iff]
    constructor
    · rintro ⟨⟨n, read⟩, refused⟩
      have amount := word_some_iff.1 read
      refine ⟨⟨n.toNat, n.toNat_lt, amount⟩, ?_⟩
      by_contra short
      rw [wide_of_amount part' amount, if_pos (by omega)] at refused
      cases refused
    · rintro ⟨⟨k, small, amount⟩, long⟩
      refine ⟨⟨.ofNat k, ?_⟩, ?_⟩
      · rw [word_of_amount part amount, if_pos small]
      · rw [wide_of_amount part' amount, if_neg (by omega)]

/-- The greatest number of 64 bits in upper case, with as many zeros in front as 64 digits have room
for, and with one more. -/
theorem padding_decides_greatest :
    let fitting := markedText (List.replicate 48 '0' ++ List.replicate 16 'F')
    let overlong := markedText (List.replicate 49 '0' ++ List.replicate 16 'F')
    (word "transaction.gas" (some fitting) = .ok 0xffffffffffffffff ∧
      wide "transaction.gasPrice" (some fitting) = .ok "0xffffffffffffffff") ∧
    (word "transaction.gas" (some overlong) = .ok 0xffffffffffffffff ∧
      wide "transaction.gasPrice" (some overlong) =
        .error (.quantity "transaction.gasPrice" overlong)) ∧
    ∃ k < 2 ^ 256, Amount fitting k ∧ "0xffffffffffffffff" = markedText (Nat.toDigits 16 k) ∧
      word "block.number" (some fitting) =
        if k < 2 ^ 64 then .ok (.ofNat k) else .error (.quantity "block.number" fitting) := by
  intro fitting overlong
  have canonical : hex 0xffffffffffffffff = "0xffffffffffffffff" := by decide +kernel
  have fittingRead : word "transaction.gas" (some fitting) = .ok 0xffffffffffffffff := by
    decide +kernel
  have overlongRead : word "transaction.gas" (some overlong) = .ok 0xffffffffffffffff := by
    decide +kernel
  have fits := ((padding_decides _ "transaction.gasPrice" fitting).1 _ fittingRead).1
  have exceeds := ((padding_decides _ "transaction.gasPrice" overlong).1 _ overlongRead).1
  rw [if_pos (by decide +kernel), canonical] at fits
  rw [if_neg (by decide +kernel)] at exceeds
  exact ⟨⟨fittingRead, fits⟩, ⟨overlongRead, exceeds⟩, (padding_decides _ _ _).2.1 _ fits⟩

/-- A gas limit of 65 digits is accepted, and the same text is refused as a gas price. -/
theorem padded_quantity_refused :
    let padded := markedText (List.replicate 61 '0' ++ ['5', '2', '0', '8'])
    (word "transaction.gas" (some padded) = .ok 21000 ∧
      wide "transaction.gasPrice" (some padded) =
        .error (.quantity "transaction.gasPrice" padded)) ∧
    ¬ ∀ part part' s n, word part (some s) = .ok n → wide part' (some s) = .ok (hex n) := by
  intro padded
  have read : word "transaction.gas" (some padded) = .ok 21000 := by decide +kernel
  have refused : wide "transaction.gasPrice" (some padded) =
      .error (.quantity "transaction.gasPrice" padded) := by decide +kernel
  refine ⟨⟨read, refused⟩, fun agree => ?_⟩
  have accepted := agree _ "transaction.gasPrice" _ _ read
  rw [refused] at accepted
  cases accepted

end Readings

end TxRelay.Conversion
