import Mathlib.Tactic
import TxRelay.Json.Reader

/-!
# What is written is read

The text of a value is read as the tree of that value, whatever follows it: a string closes at the
quote that ends it, a number ends where neither a digit, a point nor an exponent follows, and the
items and members between the brackets come back in their order. The numbers must be the integers
that the reading of numerals keeps; a real number need not come back from its shortest decimal.

Results:
* `scanString_written`: a string is read from its escaped characters.
* `scanNumeral_written`: an exact number is read from its digits.
* `read_chars`: a text that is written is the value it was written from.
-/

namespace TxRelay.Json

/-! ## Strings -/

theorem unit?_control : ∀ n : Fin 32,
    unit? '0' '0' (controlDigit (n.val / 16)) (controlDigit (n.val % 16)) = some n.val := by
  decide

/-- A unit that is no half of a surrogate pair is a character of its own. -/
theorem joinPieces_unit {n : ℕ} (small : n < 0xd800) (pieces : List Piece) :
    joinPieces (.unit n :: pieces) = (joinPieces pieces).map (Char.ofNat n :: ·) := by
  have leading : isLeading n = false := by simp [isLeading]; omega
  have trailing : isTrailing n = false := by simp [isTrailing]; omega
  cases pieces with
  | nil => simp [joinPieces, leading, trailing]
  | cons piece pieces => cases piece <;> simp [joinPieces, leading, trailing]

/-- The form of a character is scanned as one piece that stands for the character. -/
theorem scanPieces_escape (c : Char) : ∃ piece,
    (∀ rest, scanPieces (escape c ++ rest) = (piece :: (scanPieces rest).1, (scanPieces rest).2)) ∧
      ∀ pieces, joinPieces (piece :: pieces) = (joinPieces pieces).map (c :: ·) := by
  have plain : ∀ pieces, joinPieces (.char c :: pieces) = (joinPieces pieces).map (c :: ·) :=
    fun _ => rfl
  unfold escape
  split_ifs with quote slash backspace feed newline carriage tab control
  · subst quote
    exact ⟨.char '"', fun rest => by simp [scanPieces, unescape?], plain⟩
  · subst slash
    exact ⟨.char '\\', fun rest => by simp [scanPieces, unescape?], plain⟩
  · subst backspace
    exact ⟨.char '\x08', fun rest => by simp [scanPieces, unescape?], plain⟩
  · subst feed
    exact ⟨.char '\x0c', fun rest => by simp [scanPieces, unescape?], plain⟩
  · subst newline
    exact ⟨.char '\n', fun rest => by simp [scanPieces, unescape?], plain⟩
  · subst carriage
    exact ⟨.char '\r', fun rest => by simp [scanPieces, unescape?], plain⟩
  · subst tab
    exact ⟨.char '\t', fun rest => by simp [scanPieces, unescape?], plain⟩
  · refine ⟨.unit c.toNat, fun rest => ?_, fun pieces => ?_⟩
    · simp [scanPieces, unit?_control ⟨c.toNat, control⟩]
    · rw [joinPieces_unit (by omega), Char.ofNat_toNat]
  · refine ⟨.char c, fun rest => ?_, plain⟩
    rw [List.singleton_append, scanPieces]
    · simp [control]
    all_goals simp_all

theorem scanPieces_written (text rest : List Char) : ∃ pieces,
    scanPieces (text.flatMap escape ++ '"' :: rest) = (pieces, .closed rest) ∧
      joinPieces pieces = some text := by
  induction text with
  | nil => exact ⟨[], by simp [scanPieces], rfl⟩
  | cons c text ih =>
    obtain ⟨pieces, scanned, joined⟩ := ih
    obtain ⟨piece, scans, joins⟩ := scanPieces_escape c
    refine ⟨piece :: pieces, ?_, ?_⟩
    · rw [List.flatMap_cons, List.append_assoc, scans, scanned]
    · rw [joins, joined, Option.map_some]

theorem scanString_written (s : String) (rest : List Char) :
    scanString (s.toList.flatMap escape ++ '"' :: rest) = .closed (some s) rest := by
  obtain ⟨pieces, scanned, joined⟩ := scanPieces_written s.toList rest
  simp [scanString, scanned, joined]

/-! ## Numbers -/

/-- A number that is read as it is written: an integer within the 64-bit ranges. -/
def Number.Exact : Number → Prop
  | .natural n => n < unsignedBound
  | .negative n => 0 < n ∧ n ≤ negativeBound
  | .real _ => False

/-- A place where a number ends. -/
def Ends (rest : List Char) : Prop :=
  ∀ c ∈ rest.head?, c.isDigit = false ∧ c ≠ '.' ∧ c ≠ 'e' ∧ c ≠ 'E'

theorem ends_nil : Ends [] := by simp [Ends]

theorem ends_comma (rest : List Char) : Ends (',' :: rest) := by simp [Ends]

theorem ends_bracket (rest : List Char) : Ends (']' :: rest) := by simp [Ends]

theorem ends_brace (rest : List Char) : Ends ('\x7d' :: rest) := by simp [Ends]

/-- A number other than zero has no leading zero. -/
theorem toDigits_head {base n : ℕ} (hbase : 1 < base) (positive : 0 < n) :
    ∃ c digits, Nat.toDigits base n = c :: digits ∧ c ≠ '0' := by
  induction n using Nat.strong_induction_on with
  | _ n ih =>
    rw [Nat.toDigits_eq_if hbase]
    split_ifs with small
    · exact ⟨_, _, rfl, fun zero => positive.ne' (Nat.digitChar_eq_zero.1 zero)⟩
    · have hdiv : 0 < n / base := Nat.div_pos (by omega) (by omega)
      obtain ⟨c, digits, hdigits, hc⟩ := ih (n / base) (Nat.div_lt_self positive hbase) hdiv
      exact ⟨c, digits ++ [(n % base).digitChar], by rw [hdigits]; rfl, hc⟩

theorem toDigits_cons (n : ℕ) : ∃ c digits, Nat.toDigits 10 n = c :: digits ∧ c.isDigit = true := by
  obtain ⟨c, digits, h⟩ := List.exists_cons_of_ne_nil (Nat.toDigits_ne_nil (n := n) (b := 10))
  exact ⟨c, digits, h, Nat.isDigit_of_mem_toDigits (by decide) (by decide) (h ▸ List.mem_cons_self)⟩

theorem le_ofDigitChars (significand : ℕ) (digits : List Char) :
    significand ≤ Nat.ofDigitChars 10 digits significand := by
  induction digits generalizing significand with
  | nil => simp
  | cons c digits ih =>
    rw [Nat.ofDigitChars_cons]
    exact le_trans (by omega) (ih _)

/-- Digits of a number that fits are all kept. -/
theorem keep_of_lt {significand : ℕ} {digits : List Char}
    (fits : Nat.ofDigitChars 10 digits significand < unsignedBound) :
    keep significand digits = (Nat.ofDigitChars 10 digits significand, []) := by
  induction digits generalizing significand with
  | nil => simp [keep]
  | cons c digits ih =>
    rw [Nat.ofDigitChars_cons] at fits ⊢
    have next := lt_of_le_of_lt (le_ofDigitChars _ digits) fits
    rw [keep]
    exact (if_pos next).trans (ih fits)

theorem keep_toDigits {n : ℕ} (fits : n < unsignedBound) :
    keep 0 (Nat.toDigits 10 n) = (n, []) := by
  have value : Nat.ofDigitChars 10 (Nat.toDigits 10 n) 0 = n := Nat.ofDigitChars_ten_toDigits
  rw [keep_of_lt (by rwa [value]), value]

/-- Digits are scanned up to a place where none follows. -/
theorem scanDigits_append_of_stops {digits rest : List Char}
    (digit : ∀ c ∈ digits, c.isDigit = true) (stops : ∀ c ∈ rest.head?, c.isDigit = false) :
    scanDigits (digits ++ rest) = (digits, rest) := by
  have none : rest.takeWhile Char.isDigit = [] ∧ rest.dropWhile Char.isDigit = rest := by
    cases rest with
    | nil => simp
    | cons c rest => simp [stops c rfl]
  rw [scanDigits, List.takeWhile_append_of_pos digit, List.dropWhile_append_of_pos digit, none.1,
    none.2, List.append_nil]

theorem scanWhole_toDigits (n : ℕ) {rest : List Char} (ends : Ends rest) :
    scanWhole (Nat.toDigits 10 n ++ rest) = .ok (Nat.toDigits 10 n, rest) := by
  rcases Nat.eq_zero_or_pos n with rfl | positive
  · rw [Nat.toDigits_zero, List.singleton_append]
    cases rest with
    | nil => simp [scanWhole]
    | cons c rest => simp [scanWhole, (ends c rfl).1]
  · have digit : ∀ c ∈ Nat.toDigits 10 n, c.isDigit = true :=
      fun c hc => Nat.isDigit_of_mem_toDigits (by decide) (by decide) hc
    have scanned := scanDigits_append_of_stops digit fun c hc => (ends c hc).1
    obtain ⟨c, digits, hdigits, hc⟩ := toDigits_head (by decide : 1 < 10) positive
    rw [hdigits] at digit scanned ⊢
    simpa [scanWhole, hc, digit c (by simp)] using scanned

theorem scanUnsigned_toDigits (negative : Bool) (n : ℕ) {rest : List Char} (ends : Ends rest) :
    scanUnsigned negative (Nat.toDigits 10 n ++ rest) =
      .ok (⟨negative, Nat.toDigits 10 n, [], none⟩, rest) := by
  have fraction : scanFraction rest = .ok ([], rest) := by
    unfold scanFraction
    split
    · next r => exact absurd rfl (ends '.' rfl).2.1
    · rfl
  have exponent : scanExponent rest = .ok (none, rest) := by
    cases rest with
    | nil => rfl
    | cons c rest => simp [scanExponent, (ends c rfl).2.2]
  rw [scanUnsigned, scanWhole_toDigits n ends]
  simp only [bind, Except.bind, fraction, exponent]
  rfl

/-- An exact number is read from its digits. -/
theorem scanNumeral_written {n : Number} (exactly : n.Exact) {rest : List Char} (ends : Ends rest) :
    ∃ numeral, scanNumeral (n.chars ++ rest) = .ok (numeral, rest) ∧ numeral.value? = some n := by
  cases n with
  | natural n =>
    refine ⟨_, ?_, value?_natural (keep_toDigits exactly)⟩
    have scanned := scanUnsigned_toDigits false n ends
    obtain ⟨c, digits, hdigits, hc⟩ := toDigits_cons n
    rw [Number.chars, ← scanned, hdigits, List.cons_append, scanNumeral]
    rintro rest ⟨rfl, -⟩
    cases hc
  | negative n =>
    obtain ⟨positive, small⟩ := exactly
    have fits : n < unsignedBound := lt_of_le_of_lt small (by decide)
    refine ⟨_, scanUnsigned_toDigits true n ends, ?_⟩
    simp [Numeral.value?, Numeral.integer?, keep_toDigits fits, positive, small]
  | real x => exact exactly.elim

/-! ## Values -/

/-- Every number in a value has a property. -/
inductive Value.Numbers (P : Number → Prop) : Value → Prop
  | null : Numbers P .null
  | bool (b : Bool) : Numbers P (.bool b)
  | number {n : Number} (h : P n) : Numbers P (.number n)
  | string (s : String) : Numbers P (.string s)
  | array {items : List Value} (h : ∀ v ∈ items, Numbers P v) : Numbers P (.array items)
  | object {members : List (String × Value)} (h : ∀ m ∈ members, Numbers P m.2) :
    Numbers P (.object members)

section Numbers

variable {P : Number → Prop}

@[simp] theorem Value.numbers_null : Value.null.Numbers P := .null

@[simp] theorem Value.numbers_bool (b : Bool) : (Value.bool b).Numbers P := .bool b

@[simp] theorem Value.numbers_string (s : String) : (Value.string s).Numbers P := .string s

@[simp] theorem Value.numbers_number_iff {n : Number} : (Value.number n).Numbers P ↔ P n :=
  ⟨fun | .number h => h, .number⟩

@[simp] theorem Value.numbers_array_iff {items : List Value} :
    (Value.array items).Numbers P ↔ ∀ v ∈ items, v.Numbers P :=
  ⟨fun | .array h => h, .array⟩

@[simp] theorem Value.numbers_object_iff {members : List (String × Value)} :
    (Value.object members).Numbers P ↔ ∀ m ∈ members, m.2.Numbers P :=
  ⟨fun | .object h => h, .object⟩

end Numbers

/-- A value that is read as it is written. -/
abbrev Value.Exact (v : Value) : Prop :=
  v.Numbers Number.Exact

/-- A value is read from its text, whatever ends it. -/
def Value.Readable (v : Value) : Prop :=
  ∀ fuel rest, (v.chars ++ rest).length ≤ fuel → Ends rest →
    readTree fuel (v.chars ++ rest) = (v.tree, some rest)

theorem digit_facts {c : Char} (h : c.isDigit = true) :
    isSpace c = false ∧ c ≠ ']' ∧ c ≠ '[' ∧ c ≠ '\x7b' ∧ c ≠ '"' := by
  refine ⟨?_, ?_, ?_, ?_, ?_⟩
  · by_contra space
    simp only [isSpace, Bool.not_eq_false, Bool.or_eq_true, decide_eq_true_eq] at space
    rcases space with ((rfl | rfl) | rfl) | rfl <;> cases h
  all_goals
    rintro rfl
    cases h

/-- What the text of a number begins with. -/
theorem Number.chars_cons {n : Number} (exactly : n.Exact) :
    ∃ c rest, n.chars = c :: rest ∧ (c = '-' ∨ c.isDigit = true) := by
  cases n with
  | natural n =>
    obtain ⟨c, digits, hdigits, hc⟩ := toDigits_cons n
    exact ⟨c, digits, hdigits, .inr hc⟩
  | negative n => exact ⟨_, _, rfl, .inl rfl⟩
  | real x => exact exactly.elim

theorem Value.chars_cons {v : Value} (exactly : v.Exact) :
    ∃ c rest, v.chars = c :: rest ∧ isSpace c = false ∧ c ≠ ']' := by
  cases exactly with
  | null => exact ⟨_, _, by rw [Value.chars], by decide, by decide⟩
  | bool b => cases b <;> exact ⟨_, _, by rw [Value.chars], by decide, by decide⟩
  | number h =>
    obtain ⟨c, rest, hchars, rfl | digit⟩ := Number.chars_cons h
    · exact ⟨_, _, by rw [Value.chars, hchars], by decide, by decide⟩
    · obtain ⟨space, bracket, -⟩ := digit_facts digit
      exact ⟨_, _, by rw [Value.chars, hchars], space, bracket⟩
  | string s => exact ⟨_, _, by rw [Value.chars, stringChars], by decide, by decide⟩
  | array => exact ⟨_, _, by rw [Value.chars], by decide, by decide⟩
  | object => exact ⟨_, _, by rw [Value.chars], by decide, by decide⟩

theorem readable_number {n : Number} (exactly : n.Exact) : (Value.number n).Readable := by
  intro fuel rest enough ends
  obtain ⟨numeral, scanned, value⟩ := scanNumeral_written exactly ends
  obtain ⟨c, chars, hchars, first⟩ := Number.chars_cons exactly
  rw [Value.chars, hchars, List.cons_append] at enough ⊢
  rw [hchars, List.cons_append] at scanned
  obtain ⟨fuel, rfl⟩ := Nat.exists_eq_add_one.2 (Nat.zero_lt_of_lt enough)
  have facts : isSpace c = false ∧ c ≠ '[' ∧ c ≠ '\x7b' ∧ c ≠ '"' := by
    rcases first with rfl | digit
    · decide
    · obtain ⟨space, -, others⟩ := digit_facts digit
      exact ⟨space, others⟩
  obtain ⟨space, bracket, brace, quote⟩ := facts
  have scalar : readScalar (c :: (chars ++ rest)) = (.number (some n), some rest) := by
    simp [readScalar, quote, first, scanned, value]
  rw [readTree, List.dropWhile_cons_of_neg (by simp [space]), Value.tree]
  split <;> simp_all

theorem readable_null : Value.null.Readable := by
  intro fuel rest enough ends
  rw [Value.chars] at enough ⊢
  obtain ⟨fuel, rfl⟩ := Nat.exists_eq_add_one.2 (Nat.zero_lt_of_lt enough)
  simp [readTree, isSpace, readScalar, readScalar.readWord, scanWord, Value.tree]

theorem readable_bool (b : Bool) : (Value.bool b).Readable := by
  intro fuel rest enough ends
  cases b
  all_goals
    rw [Value.chars] at enough ⊢
    obtain ⟨fuel, rfl⟩ := Nat.exists_eq_add_one.2 (Nat.zero_lt_of_lt enough)
    simp [readTree, isSpace, readScalar, readScalar.readWord, scanWord, Value.tree]

theorem readable_string (s : String) : (Value.string s).Readable := by
  intro fuel rest enough ends
  rw [text_string] at enough ⊢
  obtain ⟨fuel, rfl⟩ := Nat.exists_eq_add_one.2 (Nat.zero_lt_of_lt enough)
  have scanned := scanString_written s rest
  simp [readTree, isSpace, readScalar, scanned, Value.tree]

/-! ### Arrays -/

/-- The text after an item of an array, up to the end of the array and what follows that. -/
def afterItem (rest : List Char) : List Value → List Char
  | [] => ']' :: rest
  | v :: items => ',' :: (v.chars ++ afterItem rest items)

theorem itemsChars_append (v : Value) (items : List Value) (rest : List Char) :
    itemsChars (v :: items) ++ ']' :: rest = v.chars ++ afterItem rest items := by
  induction items generalizing v with
  | nil => rw [itemsChars, afterItem]
  | cons w items ih => rw [itemsChars, List.append_assoc, List.cons_append, ih, afterItem]

theorem ends_afterItem (rest : List Char) (items : List Value) : Ends (afterItem rest items) := by
  cases items with
  | nil => exact ends_bracket rest
  | cons v items => exact ends_comma _

theorem readElements_written {items : List Value} (readable : ∀ v ∈ items, v.Readable) (fuel : ℕ)
    (rest : List Char) (enough : (afterItem rest items).length ≤ fuel) :
    readElements fuel (afterItem rest items) = (itemsTree items, some rest) := by
  induction items generalizing fuel with
  | nil =>
    obtain ⟨fuel, rfl⟩ := Nat.exists_eq_add_one.2 (Nat.zero_lt_of_lt enough)
    simp [afterItem, readElements, isSpace, itemsTree]
  | cons v items ih =>
    obtain ⟨fuel, rfl⟩ := Nat.exists_eq_add_one.2 (Nat.zero_lt_of_lt enough)
    have inner : (v.chars ++ afterItem rest items).length ≤ fuel := Nat.le_of_succ_le_succ enough
    have head := readable v List.mem_cons_self _ _ inner (ends_afterItem rest items)
    have tail := ih (fun w hw => readable w (List.mem_cons_of_mem v hw)) fuel
      (by rw [List.length_append] at inner; omega)
    simp [afterItem, readElements, isSpace, head, tail, itemsTree]

theorem readable_array {items : List Value} (exactly : ∀ v ∈ items, v.Exact)
    (readable : ∀ v ∈ items, v.Readable) : (Value.array items).Readable := by
  intro fuel rest enough ends
  rw [Value.chars, List.cons_append, List.append_assoc, List.singleton_append] at enough ⊢
  obtain ⟨fuel, rfl⟩ := Nat.exists_eq_add_one.2 (Nat.zero_lt_of_lt enough)
  cases items with
  | nil => simp [readTree, isSpace, itemsChars, Value.tree, itemsTree]
  | cons v items =>
    rw [itemsChars_append] at enough ⊢
    have inner : (v.chars ++ afterItem rest items).length ≤ fuel := Nat.le_of_succ_le_succ enough
    have head := readable v List.mem_cons_self _ _ inner (ends_afterItem rest items)
    have tail := readElements_written (fun w hw => readable w (List.mem_cons_of_mem v hw)) fuel rest
      (by rw [List.length_append] at inner; omega)
    obtain ⟨c, chars, hchars, space, bracket⟩ := Value.chars_cons (exactly v List.mem_cons_self)
    rw [hchars, List.cons_append] at head ⊢
    have skip : (c :: (chars ++ afterItem rest items)).dropWhile isSpace =
        c :: (chars ++ afterItem rest items) := List.dropWhile_cons_of_neg (by simp [space])
    simp [readTree, isSpace, skip, bracket, head, tail, Value.tree, itemsTree]

/-! ### Objects -/

/-- The text of a member after its opening quote, and what follows the member. -/
def memberText (m : String × Value) (after : List Char) : List Char :=
  m.1.toList.flatMap escape ++ '"' :: ':' :: (m.2.chars ++ after)

/-- The text after a member of an object, up to the end of the object and what follows that. -/
def afterMember (rest : List Char) : List (String × Value) → List Char
  | [] => '\x7d' :: rest
  | m :: members => ',' :: '"' :: memberText m (afterMember rest members)

theorem membersChars_append (m : String × Value) (members : List (String × Value))
    (rest : List Char) :
    membersChars (m :: members) ++ '\x7d' :: rest =
      '"' :: memberText m (afterMember rest members) := by
  induction members generalizing m with
  | nil => simp [membersChars, afterMember, memberText, stringChars]
  | cons n members ih => simp [membersChars, afterMember, memberText, stringChars, ih]

theorem ends_afterMember (rest : List Char) (members : List (String × Value)) :
    Ends (afterMember rest members) := by
  cases members with
  | nil => exact ends_brace rest
  | cons m members => exact ends_comma _

theorem length_memberText (m : String × Value) (after : List Char) :
    (m.2.chars ++ after).length + 2 ≤ (memberText m after).length := by
  simp only [memberText, List.length_append, List.length_cons]
  omega

/-- A member is read after its opening quote, and then what follows it. -/
theorem readMember_written {m : String × Value} {fuel : ℕ} {after rest : List Char}
    {members : Members} (readable : m.2.Readable) (ends : Ends after)
    (enough : (memberText m after).length ≤ fuel + 2)
    (tail : readMembers fuel after = (members, some rest)) :
    readMember (fuel + 1) (memberText m after) = (.more (some m.1) m.2.tree members, some rest) := by
  have inner := length_memberText m after
  have head := readable fuel after (by omega) ends
  simp [memberText, readMember, scanString_written, isSpace, head, tail]

theorem readMembers_written {members : List (String × Value)}
    (readable : ∀ m ∈ members, m.2.Readable) (fuel : ℕ) (rest : List Char)
    (enough : (afterMember rest members).length ≤ fuel) :
    readMembers fuel (afterMember rest members) = (membersTree members, some rest) := by
  induction members generalizing fuel with
  | nil =>
    obtain ⟨fuel, rfl⟩ := Nat.exists_eq_add_one.2 (Nat.zero_lt_of_lt enough)
    simp [afterMember, readMembers, isSpace, membersTree]
  | cons m members ih =>
    have inner := length_memberText m (afterMember rest members)
    simp only [afterMember, List.length_cons, List.length_append] at enough inner
    obtain ⟨fuel, rfl⟩ : ∃ k, fuel = k + 2 := ⟨fuel - 2, by omega⟩
    have tail := ih (fun n hn => readable n (List.mem_cons_of_mem m hn)) fuel (by omega)
    have member := readMember_written (readable m List.mem_cons_self)
      (ends_afterMember rest members) (by omega) tail
    obtain ⟨name, v⟩ := m
    simp [afterMember, readMembers, isSpace, member, membersTree]

theorem readable_object {members : List (String × Value)}
    (readable : ∀ m ∈ members, m.2.Readable) : (Value.object members).Readable := by
  intro fuel rest enough ends
  rw [Value.chars, List.cons_append, List.append_assoc, List.singleton_append] at enough ⊢
  cases members with
  | nil =>
    obtain ⟨fuel, rfl⟩ := Nat.exists_eq_add_one.2 (Nat.zero_lt_of_lt enough)
    simp [readTree, isSpace, membersChars, Value.tree, membersTree]
  | cons m members =>
    rw [membersChars_append] at enough ⊢
    have inner := length_memberText m (afterMember rest members)
    simp only [List.length_cons, List.length_append] at enough inner
    obtain ⟨fuel, rfl⟩ : ∃ k, fuel = k + 2 := ⟨fuel - 2, by omega⟩
    have tail := readMembers_written (fun n hn => readable n (List.mem_cons_of_mem m hn)) fuel rest
      (by omega)
    have member := readMember_written (readable m List.mem_cons_self)
      (ends_afterMember rest members) (by omega) tail
    obtain ⟨name, v⟩ := m
    simp [readTree, isSpace, member, Value.tree, membersTree]

/-! ### Whole texts -/

theorem readable_of_exact {v : Value} (exactly : v.Exact) : v.Readable := by
  induction exactly with
  | null => exact readable_null
  | bool b => exact readable_bool b
  | number h => exact readable_number h
  | string s => exact readable_string s
  | array h ih => exact readable_array h ih
  | object h ih => exact readable_object ih

/-- A text that is written is the value it was written from. -/
theorem read_chars {v : Value} (exactly : v.Exact) : Document.read v.chars = ⟨v.tree, true⟩ := by
  have read := readable_of_exact exactly (v.chars.length + 1) [] (by simp) ends_nil
  rw [List.append_nil] at read
  simp [Document.read, read]

end TxRelay.Json
