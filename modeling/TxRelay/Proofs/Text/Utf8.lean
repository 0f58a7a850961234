import Mathlib.Tactic
import TxRelay.Text.Utf8
import TxRelay.Proofs.Except

/-!
# What UTF-8 decodes

The decoder takes exactly the encodings of texts, and gives each text back from its encoding. The
argument goes by characters: the bytes of one character are read as that character, and what is read
as a first character is encoded as the bytes it was read from.

Results:
* `decode_eq_ok_iff`: bytes are decoded as a text exactly if they are its encoding.
* `decode_torn`: what follows bytes that are no text does not matter from a byte below 128 on.
-/

namespace TxRelay.Text.Utf8

open TxRelay.Except

theorem toNat_ofNat {n : ℕ} (small : n < 256) : (UInt8.ofNat n).toNat = n :=
  UInt8.toNat_ofNat_of_lt' small

theorem ofNat_eq {n : ℕ} {b : UInt8} (same : n = b.toNat) : UInt8.ofNat n = b := by
  subst same
  exact UInt8.ofNat_toNat

theorem toNat_char {v : ℕ} (valid : v < 0xd800 ∨ 0xdfff < v ∧ v < 0x110000) :
    (Char.ofNat v).val.toNat = v := by
  have isValid : v.isValidChar := valid
  rw [Char.ofNat, dif_pos isValid]
  rfl

/-! ## First bytes -/

theorem lead_two {b : UInt8} (low : 0xc2 ≤ b.toNat) (high : b.toNat < 0xe0) :
    lead b = .more ⟨b.toNat - 0xc0, 1, 0x80, 0xbf, 1⟩ := by
  unfold lead
  simp only [show ¬ b.toNat < 0x80 by omega, show ¬ b.toNat < 0xc2 by omega, high, if_true, if_false]

/-- The range of a second byte leaves out overlong forms and surrogates. -/
theorem lead_three {b : UInt8} (low : 0xe0 ≤ b.toNat) (high : b.toNat < 0xf0) :
    ∃ least most, lead b = .more ⟨b.toNat - 0xe0, 2, least, most, 1⟩ ∧
      ∀ m, least ≤ m ∧ m ≤ most ↔ 0x80 ≤ m ∧ m ≤ 0xbf ∧
        0x800 ≤ ((b.toNat - 0xe0) * 64 + (m - 0x80)) * 64 ∧
        (((b.toNat - 0xe0) * 64 + (m - 0x80)) * 64 < 0xd800 ∨
          0xdfff < ((b.toNat - 0xe0) * 64 + (m - 0x80)) * 64) := by
  unfold lead
  simp only [show ¬ b.toNat < 0x80 by omega, show ¬ b.toNat < 0xc2 by omega,
    show ¬ b.toNat < 0xe0 by omega, high, if_true, if_false]
  split_ifs with overlong surrogate
  · exact ⟨_, _, by rw [overlong], fun m => by omega⟩
  · exact ⟨_, _, by rw [surrogate], fun m => by omega⟩
  · exact ⟨_, _, rfl, fun m => by omega⟩

/-- The range of a second byte leaves out overlong forms and numbers above U+10FFFF. -/
theorem lead_four {b : UInt8} (low : 0xf0 ≤ b.toNat) (high : b.toNat < 0xf5) :
    ∃ least most, lead b = .more ⟨b.toNat - 0xf0, 3, least, most, 1⟩ ∧
      ∀ m, least ≤ m ∧ m ≤ most ↔ 0x80 ≤ m ∧ m ≤ 0xbf ∧
        0x10000 ≤ ((b.toNat - 0xf0) * 64 + (m - 0x80)) * 4096 ∧
        ((b.toNat - 0xf0) * 64 + (m - 0x80)) * 4096 < 0x110000 := by
  unfold lead
  simp only [show ¬ b.toNat < 0x80 by omega, show ¬ b.toNat < 0xc2 by omega,
    show ¬ b.toNat < 0xe0 by omega, show ¬ b.toNat = 0xe0 by omega, show ¬ b.toNat = 0xed by omega,
    show ¬ b.toNat < 0xf0 by omega, if_false]
  split_ifs with overlong middle great
  · exact ⟨_, _, by rw [overlong], fun m => by omega⟩
  · exact ⟨_, _, rfl, fun m => by omega⟩
  · exact ⟨_, _, by rw [great], fun m => by omega⟩
  · omega

theorem lead_eq_bad {b : UInt8} (bad : 0x80 ≤ b.toNat ∧ b.toNat < 0xc2 ∨ 0xf5 ≤ b.toNat) :
    lead b = .bad := by
  unfold lead
  rcases bad with ⟨low, high⟩ | high
  · simp only [show ¬ b.toNat < 0x80 by omega, high, if_true, if_false]
  · simp only [show ¬ b.toNat < 0x80 by omega, show ¬ b.toNat < 0xc2 by omega,
      show ¬ b.toNat < 0xe0 by omega, show ¬ b.toNat = 0xe0 by omega, show ¬ b.toNat = 0xed by omega,
      show ¬ b.toNat < 0xf0 by omega, show ¬ b.toNat = 0xf0 by omega, show ¬ b.toNat < 0xf4 by omega,
      show ¬ b.toNat = 0xf4 by omega, if_false]

/-! ## Pending characters -/

section Pending

variable {index bits due least most seen : ℕ} {b : UInt8} {rest : List UInt8}

theorem decodeFrom_last (allowed : least ≤ b.toNat ∧ b.toNat ≤ most) :
    decodeFrom index (some ⟨bits, 1, least, most, seen⟩) (b :: rest) =
      (decodeFrom (index + seen + 1) none rest).map
        (Char.ofNat (bits * 64 + (b.toNat - 0x80)) :: ·) := by
  simp [decodeFrom, Pending.allows, Pending.push, allowed]

theorem decodeFrom_inner (allowed : least ≤ b.toNat ∧ b.toNat ≤ most) :
    decodeFrom index (some ⟨bits, due + 2, least, most, seen⟩) (b :: rest) =
      decodeFrom index (some ⟨bits * 64 + (b.toNat - 0x80), due + 1, 0x80, 0xbf, seen + 1⟩) rest := by
  simp [decodeFrom, Pending.allows, Pending.push, allowed]

/-- A pending character goes on with a byte that it allows. -/
theorem exists_allowed {p : Pending} {bytes : List UInt8} {text : List Char}
    (h : decodeFrom index (some p) bytes = .ok text) :
    ∃ b rest, bytes = b :: rest ∧ p.low ≤ b.toNat ∧ b.toNat ≤ p.high := by
  cases bytes with
  | nil => cases h
  | cons b rest =>
    rw [decodeFrom] at h
    split at h
    · next allowed =>
      refine ⟨b, rest, rfl, ?_⟩
      simpa [Pending.allows] using allowed
    · cases h

end Pending

/-! ## From a character to its bytes and back -/

/-- The bytes of a character are read as that character. -/
theorem decodeFrom_encodeChar (c : Char) (rest : List UInt8) (index : ℕ) :
    ∃ after, decodeFrom index none (String.utf8EncodeChar c ++ rest) =
      (decodeFrom after none rest).map (c :: ·) := by
  have number : Char.ofNat c.val.toNat = c := c.ofNat_toNat
  have valid : c.val.toNat < 0xd800 ∨ 0xdfff < c.val.toNat ∧ c.val.toNat < 0x110000 := c.valid
  unfold String.utf8EncodeChar
  generalize c.val.toNat = v at number valid
  simp only
  split_ifs with one two three
  · have first : (UInt8.ofNat v).toNat = v := toNat_ofNat (by omega)
    refine ⟨index + 1, ?_⟩
    simp [decodeFrom, lead, first, number, show v < 0x80 by omega]
  · have first : (UInt8.ofNat (v / 64 % 32 + 192)).toNat = v / 64 % 32 + 192 := toNat_ofNat (by omega)
    have second : (UInt8.ofNat (v % 64 + 128)).toNat = v % 64 + 128 := toNat_ofNat (by omega)
    refine ⟨index + 1 + 1, ?_⟩
    rw [List.cons_append, List.singleton_append, decodeFrom, lead_two (by omega) (by omega)]
    simp only
    rw [decodeFrom_last (by omega), first, second,
      show (v / 64 % 32 + 192 - 0xc0) * 64 + (v % 64 + 128 - 0x80) = v by omega, number]
  · have first : (UInt8.ofNat (v / 4096 % 16 + 224)).toNat = v / 4096 % 16 + 224 :=
      toNat_ofNat (by omega)
    have second : (UInt8.ofNat (v / 64 % 64 + 128)).toNat = v / 64 % 64 + 128 := toNat_ofNat (by omega)
    have third : (UInt8.ofNat (v % 64 + 128)).toNat = v % 64 + 128 := toNat_ofNat (by omega)
    obtain ⟨least, most, led, range⟩ := lead_three
      (b := UInt8.ofNat (v / 4096 % 16 + 224)) (by omega) (by omega)
    refine ⟨index + 2 + 1, ?_⟩
    rw [List.cons_append, List.cons_append, List.singleton_append, decodeFrom, led]
    simp only
    rw [decodeFrom_inner ((range _).2 (by omega)), decodeFrom_last (by omega), first, second, third,
      show ((v / 4096 % 16 + 224 - 0xe0) * 64 + (v / 64 % 64 + 128 - 0x80)) * 64 +
        (v % 64 + 128 - 0x80) = v by omega, number]
  · have first : (UInt8.ofNat (v / 262144 % 8 + 240)).toNat = v / 262144 % 8 + 240 :=
      toNat_ofNat (by omega)
    have second : (UInt8.ofNat (v / 4096 % 64 + 128)).toNat = v / 4096 % 64 + 128 :=
      toNat_ofNat (by omega)
    have third : (UInt8.ofNat (v / 64 % 64 + 128)).toNat = v / 64 % 64 + 128 := toNat_ofNat (by omega)
    have fourth : (UInt8.ofNat (v % 64 + 128)).toNat = v % 64 + 128 := toNat_ofNat (by omega)
    obtain ⟨least, most, led, range⟩ := lead_four
      (b := UInt8.ofNat (v / 262144 % 8 + 240)) (by omega) (by omega)
    refine ⟨index + 3 + 1, ?_⟩
    rw [List.cons_append, List.cons_append, List.cons_append, List.singleton_append, decodeFrom, led]
    simp only
    rw [decodeFrom_inner ((range _).2 (by omega)), decodeFrom_inner (by omega),
      decodeFrom_last (by omega), first, second, third, fourth,
      show (((v / 262144 % 8 + 240 - 0xf0) * 64 + (v / 4096 % 64 + 128 - 0x80)) * 64 +
        (v / 64 % 64 + 128 - 0x80)) * 64 + (v % 64 + 128 - 0x80) = v by omega, number]

theorem encodeChar_one {a : UInt8} (small : a.toNat < 0x80) :
    String.utf8EncodeChar (Char.ofNat a.toNat) = [a] := by
  unfold String.utf8EncodeChar
  rw [toNat_char (by omega)]
  simp only [show a.toNat ≤ 127 by omega, if_true, UInt8.ofNat_toNat]

theorem encodeChar_two {a b : UInt8} (first : 0xc2 ≤ a.toNat ∧ a.toNat < 0xe0)
    (second : 0x80 ≤ b.toNat ∧ b.toNat ≤ 0xbf) :
    String.utf8EncodeChar (Char.ofNat ((a.toNat - 0xc0) * 64 + (b.toNat - 0x80))) = [a, b] := by
  unfold String.utf8EncodeChar
  rw [toNat_char (by omega)]
  generalize number : (a.toNat - 0xc0) * 64 + (b.toNat - 0x80) = v
  simp only [show ¬ v ≤ 127 by omega, show v ≤ 2047 by omega, if_true, if_false]
  rw [ofNat_eq (b := a) (by omega), ofNat_eq (b := b) (by omega)]

theorem encodeChar_three {a b c : UInt8} (first : 0xe0 ≤ a.toNat ∧ a.toNat < 0xf0)
    (second : 0x80 ≤ b.toNat ∧ b.toNat ≤ 0xbf) (third : 0x80 ≤ c.toNat ∧ c.toNat ≤ 0xbf)
    (long : 0x800 ≤ ((a.toNat - 0xe0) * 64 + (b.toNat - 0x80)) * 64)
    (valid : ((a.toNat - 0xe0) * 64 + (b.toNat - 0x80)) * 64 < 0xd800 ∨
      0xdfff < ((a.toNat - 0xe0) * 64 + (b.toNat - 0x80)) * 64) :
    String.utf8EncodeChar (Char.ofNat
      (((a.toNat - 0xe0) * 64 + (b.toNat - 0x80)) * 64 + (c.toNat - 0x80))) = [a, b, c] := by
  unfold String.utf8EncodeChar
  rw [toNat_char (by omega)]
  generalize number : ((a.toNat - 0xe0) * 64 + (b.toNat - 0x80)) * 64 + (c.toNat - 0x80) = v
  simp only [show ¬ v ≤ 127 by omega, show ¬ v ≤ 2047 by omega, show v ≤ 65535 by omega, if_true,
    if_false]
  rw [ofNat_eq (b := a) (by omega), ofNat_eq (b := b) (by omega), ofNat_eq (b := c) (by omega)]

theorem encodeChar_four {a b c d : UInt8} (first : 0xf0 ≤ a.toNat ∧ a.toNat < 0xf5)
    (second : 0x80 ≤ b.toNat ∧ b.toNat ≤ 0xbf) (third : 0x80 ≤ c.toNat ∧ c.toNat ≤ 0xbf)
    (fourth : 0x80 ≤ d.toNat ∧ d.toNat ≤ 0xbf)
    (long : 0x10000 ≤ ((a.toNat - 0xf0) * 64 + (b.toNat - 0x80)) * 4096)
    (valid : ((a.toNat - 0xf0) * 64 + (b.toNat - 0x80)) * 4096 < 0x110000) :
    String.utf8EncodeChar (Char.ofNat ((((a.toNat - 0xf0) * 64 + (b.toNat - 0x80)) * 64 +
      (c.toNat - 0x80)) * 64 + (d.toNat - 0x80))) = [a, b, c, d] := by
  unfold String.utf8EncodeChar
  rw [toNat_char (by omega)]
  generalize number : (((a.toNat - 0xf0) * 64 + (b.toNat - 0x80)) * 64 + (c.toNat - 0x80)) * 64 +
    (d.toNat - 0x80) = v
  simp only [show ¬ v ≤ 127 by omega, show ¬ v ≤ 2047 by omega, show ¬ v ≤ 65535 by omega, if_false]
  rw [ofNat_eq (b := a) (by omega), ofNat_eq (b := b) (by omega), ofNat_eq (b := c) (by omega),
    ofNat_eq (b := d) (by omega)]

/-- What is read as a first character is encoded as the bytes it was read from. -/
theorem exists_encodeChar {a : UInt8} {bytes : List UInt8} {text : List Char} {index : ℕ}
    (h : decodeFrom index none (a :: bytes) = .ok text) :
    ∃ c rest after tail, a :: bytes = String.utf8EncodeChar c ++ rest ∧ text = c :: tail ∧
      decodeFrom after none rest = .ok tail := by
  rw [decodeFrom] at h
  by_cases one : a.toNat < 0x80
  · have led : lead a = .single (Char.ofNat a.toNat) := by simp [lead, one]
    rw [led] at h
    obtain ⟨tail, decoded, rfl⟩ := map_eq_ok_iff.1 h
    exact ⟨_, bytes, _, tail, by rw [encodeChar_one one]; rfl, rfl, decoded⟩
  by_cases bad : a.toNat < 0xc2 ∨ 0xf5 ≤ a.toNat
  · rw [lead_eq_bad (by omega)] at h
    cases h
  by_cases two : a.toNat < 0xe0
  · rw [lead_two (by omega) two] at h
    obtain ⟨b, rest, rfl, second⟩ := exists_allowed h
    simp only at h second
    rw [decodeFrom_last second] at h
    obtain ⟨tail, decoded, rfl⟩ := map_eq_ok_iff.1 h
    exact ⟨_, rest, _, tail, by rw [encodeChar_two (by omega) second]; rfl, rfl, decoded⟩
  by_cases three : a.toNat < 0xf0
  · obtain ⟨least, most, led, range⟩ := lead_three (b := a) (by omega) three
    rw [led] at h
    obtain ⟨b, bytes, rfl, allowed⟩ := exists_allowed h
    simp only at h allowed
    rw [decodeFrom_inner allowed] at h
    obtain ⟨c, rest, rfl, third⟩ := exists_allowed h
    simp only at h third
    rw [decodeFrom_last third] at h
    obtain ⟨tail, decoded, rfl⟩ := map_eq_ok_iff.1 h
    obtain ⟨least, most, long, valid⟩ := (range _).1 allowed
    refine ⟨_, rest, _, tail, ?_, rfl, decoded⟩
    rw [encodeChar_three (by omega) ⟨least, most⟩ third long valid]
    rfl
  · obtain ⟨least, most, led, range⟩ := lead_four (b := a) (by omega) (by omega)
    rw [led] at h
    obtain ⟨b, bytes, rfl, allowed⟩ := exists_allowed h
    simp only at h allowed
    rw [decodeFrom_inner allowed] at h
    obtain ⟨c, bytes, rfl, third⟩ := exists_allowed h
    simp only at h third
    rw [decodeFrom_inner third] at h
    obtain ⟨d, rest, rfl, fourth⟩ := exists_allowed h
    simp only at h fourth
    rw [decodeFrom_last fourth] at h
    obtain ⟨tail, decoded, rfl⟩ := map_eq_ok_iff.1 h
    obtain ⟨least, most, long, valid⟩ := (range _).1 allowed
    refine ⟨_, rest, _, tail, ?_, rfl, decoded⟩
    rw [encodeChar_four (by omega) ⟨least, most⟩ third fourth long valid]
    rfl

/-! ## Texts -/

theorem decodeFrom_encode (text : List Char) (index : ℕ) :
    decodeFrom index none (encode text) = .ok text := by
  induction text generalizing index with
  | nil => rfl
  | cons c text ih =>
    obtain ⟨after, read⟩ := decodeFrom_encodeChar c (encode text) index
    rw [show encode (c :: text) = String.utf8EncodeChar c ++ encode text from rfl, read, ih after]
    rfl

theorem encode_of_decodeFrom {text : List Char} {bytes : List UInt8} {index : ℕ}
    (h : decodeFrom index none bytes = .ok text) : encode text = bytes := by
  induction text generalizing bytes index with
  | nil =>
    cases bytes with
    | nil => rfl
    | cons a bytes =>
      obtain ⟨c, rest, after, tail, -, ⟨⟩, -⟩ := exists_encodeChar h
  | cons c text ih =>
    cases bytes with
    | nil => cases h
    | cons a bytes =>
      obtain ⟨c, rest, after, tail, cut, ⟨⟩, decoded⟩ := exists_encodeChar h
      rw [cut, show encode (_ :: text) = String.utf8EncodeChar _ ++ encode text from rfl, ih decoded]

/-- Bytes are decoded as a text exactly if they are its encoding. -/
theorem decode_eq_ok_iff {bytes : List UInt8} {text : List Char} :
    decode bytes = .ok text ↔ encode text = bytes := by
  constructor
  · intro h
    exact encode_of_decodeFrom h
  · rintro rfl
    exact decodeFrom_encode text 0

/-! ## What follows -/

/-- A byte below 128 goes on with no pending character. -/
def Continues (pending : Option Pending) : Prop :=
  ∀ p ∈ pending, 0x80 ≤ p.low

theorem continues_none : Continues none := by
  simp [Continues]

theorem continues_lead {b : UInt8} {p : Pending} (h : lead b = .more p) : Continues (some p) := by
  intro q same
  rw [← Option.mem_some_iff.1 same]
  unfold lead at h
  simp only at h
  -- One case for each first byte that is followed by others: its range begins at 0x80 or later.
  split_ifs at h
  all_goals
    injection h with h
    simp [← h]

theorem continues_push {p q : Pending} {b : UInt8} (h : p.push b = .inr q) : Continues (some q) := by
  intro r same
  rw [← Option.mem_some_iff.1 same]
  unfold Pending.push at h
  simp only at h
  split_ifs at h
  injection h with h
  rw [← h]

/-- Bytes that are no text are none either with more behind them, and from a byte below 128 on it does
not matter what that is. -/
theorem decodeFrom_torn {pending : Option Pending} (continues : Continues pending)
    {bytes : List UInt8} {index : ℕ} {early : Fault}
    (torn : decodeFrom index pending bytes = .error early) :
    ∃ fault, ∀ (b : UInt8) (rest : List UInt8), b.toNat < 0x80 →
      decodeFrom index pending (bytes ++ b :: rest) = .error fault := by
  induction bytes generalizing index pending with
  | nil =>
    cases pending with
    | none => cases torn
    | some p =>
      refine ⟨.invalid p.seen index, fun b rest ascii => ?_⟩
      have low : 0x80 ≤ p.low := continues p rfl
      have refused : p.allows b = false := by
        simp only [Pending.allows, Bool.and_eq_false_iff, decide_eq_false_iff_not]
        omega
      simp [decodeFrom, refused]
  | cons a bytes ih =>
    cases pending with
    | none =>
      cases led : lead a with
      | single c =>
        simp only [decodeFrom, led] at torn
        obtain ⟨fault, same⟩ := ih continues_none (map_eq_error_iff.1 torn)
        refine ⟨fault, fun b rest ascii => ?_⟩
        simp [decodeFrom, led, same b rest ascii, Except.map]
      | more p =>
        simp only [decodeFrom, led] at torn
        obtain ⟨fault, same⟩ := ih (continues_lead led) torn
        refine ⟨fault, fun b rest ascii => ?_⟩
        simp [decodeFrom, led, same b rest ascii]
      | bad => exact ⟨.invalid 1 index, fun b rest ascii => by simp [decodeFrom, led]⟩
    | some p =>
      by_cases allowed : p.allows a = true
      · cases pushed : p.push a with
        | inl c =>
          simp only [decodeFrom, allowed, if_true, pushed] at torn
          obtain ⟨fault, same⟩ := ih continues_none (map_eq_error_iff.1 torn)
          refine ⟨fault, fun b rest ascii => ?_⟩
          simp [decodeFrom, allowed, pushed, same b rest ascii, Except.map]
        | inr q =>
          simp only [decodeFrom, allowed, if_true, pushed] at torn
          obtain ⟨fault, same⟩ := ih (continues_push pushed) torn
          refine ⟨fault, fun b rest ascii => ?_⟩
          simp [decodeFrom, allowed, pushed, same b rest ascii]
      · exact ⟨.invalid p.seen index, fun b rest ascii => by simp [decodeFrom, allowed]⟩

/-- From a byte below 128 on it does not matter what follows bytes that are no text. -/
theorem decode_torn {bytes : List UInt8} (torn : ∀ text, encode text ≠ bytes) :
    ∃ fault, ∀ (b : UInt8) (rest : List UInt8), b.toNat < 0x80 →
      decode (bytes ++ b :: rest) = .error fault := by
  cases decoded : decode bytes with
  | ok text => exact absurd (decode_eq_ok_iff.1 decoded) (torn text)
  | error early => exact decodeFrom_torn continues_none decoded

end TxRelay.Text.Utf8
