import Mathlib.Tactic
import TxRelay.Proofs.Json.Layout
import TxRelay.Proofs.Json.Written

/-!
# What is left of a text

The text of a value may be cut at any character. What is left is read as a torn tree: whole values up
to the place of the cut, then what the cut leaves of the value there, and nothing after that. Wherever
the cut falls, what it leaves is a text that ends too early, with one exception. A cut inside the
digits of a number leaves a number with fewer digits, and only what must follow it is missing.

Results:
* `scanString_torn`: a string that is cut off is cut off, also when it is passed over.
* `readTree_torn`: what is left of the text of a value is read as a torn tree.
* `read_torn`: the same of a whole text, unless it is the text of a number.
-/

namespace TxRelay.Json

/-! ## Cuts -/

/-- A text is left of another one that was cut somewhere. -/
def Cut (front text : List Char) : Prop :=
  front <+: text ∧ front ≠ text

section Cut

variable {front text first second : List Char} {c : Char}

theorem not_cut_nil : ¬ Cut front [] :=
  fun cut => cut.2 (List.prefix_nil.1 cut.1)

theorem cut_cons (cut : Cut front (c :: text)) : front = [] ∨ ∃ f, front = c :: f ∧ Cut f text := by
  obtain ⟨begins, other⟩ := cut
  rcases List.prefix_cons_iff.1 begins with rfl | ⟨f, rfl, inside⟩
  · exact .inl rfl
  · exact .inr ⟨f, rfl, inside, fun same => other (congrArg _ same)⟩

theorem cut_singleton (cut : Cut front [c]) : front = [] := by
  rcases cut_cons cut with rfl | ⟨f, -, nothing⟩
  · rfl
  · exact absurd nothing not_cut_nil

/-- The cut falls into the first of two texts, or behind it. -/
theorem cut_append (cut : Cut front (first ++ second)) :
    Cut front first ∨ ∃ f, front = first ++ f ∧ Cut f second := by
  obtain ⟨begins, other⟩ := cut
  rcases List.prefix_or_prefix_of_prefix begins (List.prefix_append first second) with inside | behind
  · by_cases whole : front = first
    · subst whole
      refine .inr ⟨[], by simp, List.nil_prefix, ?_⟩
      rintro rfl
      simp at other
    · exact .inl ⟨inside, whole⟩
  · obtain ⟨f, rfl⟩ := behind
    exact .inr ⟨f, rfl, (List.prefix_append_right_inj first).1 begins, fun same => other (same ▸ rfl)⟩

/-- A number ends before what is left of a text that it ends before. -/
theorem Ends.cut (ends : Ends text) (cut : Cut front text) : Ends front := by
  cases front with
  | nil => exact ends_nil
  | cons c front =>
    obtain ⟨more, rfl⟩ := cut.1
    exact fun d hd => ends d hd

end Cut

/-! ## Strings -/

/-- Half of a surrogate pair at the end of pieces stands alone. -/
theorem joinPieces_leading {n : ℕ} (leading : isLeading n = true) (pieces : List Piece) :
    joinPieces (pieces ++ [.unit n]) = none := by
  have apart : isTrailing n = false := by
    simp only [isLeading, Bool.and_eq_true, decide_eq_true_eq] at leading
    simp only [isTrailing, Bool.and_eq_false_iff, decide_eq_false_iff_not]
    omega
  fun_induction joinPieces pieces with
  | case1 => simp [joinPieces, leading]
  | case2 c rest ih => simp [joinPieces, ih]
  | case3 a b rest _ _ ih => simp [joinPieces, *]
  | case4 a b rest _ _ => simp [joinPieces, *]
  | case5 a b rest _ _ => simp [joinPieces, *]
  | case6 a b rest _ _ ih =>
    rw [List.cons_append] at ih
    simp [joinPieces, *]
  | case7 a rest other alone =>
    cases rest with
    | nil => cases h : isLeading a <;> simp_all [joinPieces]
    | cons piece rest =>
      cases piece with
      | char c => simp_all [joinPieces]
      | unit b => exact absurd rfl (other b rest)
  | case8 a rest other alone ih =>
    cases rest with
    | nil => simp_all [joinPieces]
    | cons piece rest =>
      cases piece with
      | char c => simp_all [joinPieces]
      | unit b => exact absurd rfl (other b rest)

theorem dropLeading_of_joined {pieces : List Piece} {text : List Char}
    (joined : joinPieces pieces = some text) : dropLeading pieces = pieces := by
  unfold dropLeading
  split
  · next n last =>
    split_ifs with leading
    · obtain ⟨front, rfl⟩ := List.getLast?_eq_some_iff.1 last
      rw [joinPieces_leading leading] at joined
      cases joined
    · rfl
  · rfl

/-- An escape with fewer than four digits is cut off. -/
theorem scanPieces_unit : ∀ n : Fin 2, ∀ digits ∈ [[], ['0'], ['0', '0'], ['0', '0', controlDigit n]],
    scanPieces ('\\' :: 'u' :: digits) = ([], .fault .cutOff) := by
  decide

/-- A cut inside an escaped character leaves nothing of it. -/
theorem scanPieces_cut {c : Char} {front : List Char} (cut : Cut front (escape c)) :
    scanPieces front = ([], .fault .cutOff) := by
  have nothing : scanPieces [] = ([], .fault .cutOff) := rfl
  have slash : scanPieces ['\\'] = ([], .fault .cutOff) := rfl
  have letter {d : Char} {f : List Char} (cut : Cut f ['\\', d]) :
      scanPieces f = ([], .fault .cutOff) := by
    rcases cut_cons cut with rfl | ⟨f, rfl, rest⟩
    · exact nothing
    · rw [cut_singleton rest, slash]
  unfold escape at cut
  split_ifs at cut with _ _ _ _ _ _ _ control
  -- what is left are the escapes with digits and the characters that stand for themselves
  any_goals exact letter cut
  · have missing := scanPieces_unit ⟨c.toNat / 16, by omega⟩
    rcases cut_cons cut with rfl | ⟨f, rfl, u⟩
    · exact nothing
    rcases cut_cons u with rfl | ⟨f, rfl, first⟩
    · exact slash
    rcases cut_cons first with rfl | ⟨f, rfl, second⟩
    · exact missing _ (by simp)
    rcases cut_cons second with rfl | ⟨f, rfl, third⟩
    · exact missing _ (by simp)
    rcases cut_cons third with rfl | ⟨f, rfl, fourth⟩
    · exact missing _ (by simp)
    · rw [cut_singleton fourth]
      exact missing _ (by simp)
  · rw [cut_singleton cut, nothing]

theorem scanPieces_torn {front : List Char} (text : List Char) (begins : front <+: text.flatMap escape) :
    ∃ pieces joined, scanPieces front = (pieces, .fault .cutOff) ∧ joinPieces pieces = some joined := by
  induction text generalizing front with
  | nil =>
    rw [List.prefix_nil.1 begins]
    exact ⟨[], [], rfl, rfl⟩
  | cons c text ih =>
    rw [List.flatMap_cons] at begins
    rcases List.prefix_or_prefix_of_prefix begins (List.prefix_append _ _) with inside | ⟨f, rfl⟩
    · by_cases whole : front = escape c
      · obtain ⟨piece, scans, joins⟩ := scanPieces_escape c
        have scanned := scans []
        rw [List.append_nil] at scanned
        exact ⟨[piece], [c], by rw [whole, scanned]; rfl, by rw [joins]; rfl⟩
      · exact ⟨[], [], scanPieces_cut ⟨inside, whole⟩, rfl⟩
    · obtain ⟨pieces, joined, scanned, same⟩ := ih ((List.prefix_append_right_inj _).1 begins)
      obtain ⟨piece, scans, joins⟩ := scanPieces_escape c
      exact ⟨piece :: pieces, c :: joined, by rw [scans, scanned], by rw [joins, same]; rfl⟩

/-- A string that is cut off is cut off, whether it is used or passed over. -/
theorem scanString_torn {front : List Char} {s : String} (begins : front <+: s.toList.flatMap escape) :
    scanString front = .broken .cutOff .cutOff := by
  obtain ⟨pieces, joined, scanned, same⟩ := scanPieces_torn s.toList begins
  simp [scanString, scanned, usedFault, dropLeading_of_joined same, same]

/-! ## Numbers -/

/-- Some of the digits of a number denote a number that is no greater. -/
theorem scanNumeral_torn {n : ℕ} {front : List Char} (small : n < unsignedBound)
    (cut : Cut front (Nat.toDigits 10 n)) (some : front ≠ []) :
    ∃ c rest numeral m, front = c :: rest ∧ c.isDigit = true ∧
      scanNumeral front = .ok (numeral, []) ∧ numeral.value? = .some (.natural m) ∧ m ≤ n := by
  obtain ⟨more, whole⟩ := cut.1
  have digit : ∀ c ∈ front, c.isDigit = true := fun c hc =>
    Nat.isDigit_of_mem_toDigits (by decide) (by decide) (whole ▸ List.mem_append_left more hc)
  have bound : Nat.ofDigitChars 10 front 0 ≤ n := by
    have value : Nat.ofDigitChars 10 (Nat.toDigits 10 n) 0 = n := Nat.ofDigitChars_ten_toDigits
    rw [← whole, Nat.ofDigitChars_append] at value
    exact value ▸ le_ofDigitChars _ more
  obtain ⟨c, rest, rfl⟩ := List.exists_cons_of_ne_nil some
  have zero : c ≠ '0' := by
    rintro rfl
    rcases Nat.eq_zero_or_pos n with rfl | positive
    · rw [Nat.toDigits_zero] at cut
      exact some (cut_singleton cut)
    · obtain ⟨d, digits, hdigits, hd⟩ := toDigits_head (by decide : 1 < 10) positive
      rw [hdigits] at whole
      exact hd (List.cons.inj whole).1.symm
  have scanned : scanUnsigned false (c :: rest) = .ok (⟨false, c :: rest, [], none⟩, []) := by
    have run : scanDigits (c :: rest ++ []) = (c :: rest, []) :=
      scanDigits_append_of_stops digit nofun
    rw [List.append_nil] at run
    rw [scanUnsigned, scanWhole_digit zero (digit c List.mem_cons_self), run]
    rfl
  refine ⟨c, rest, _, _, rfl, digit c List.mem_cons_self, ?_,
    value?_natural (keep_of_lt (lt_of_le_of_lt bound small)), bound⟩
  rw [scanNumeral, scanned]
  rintro _ same
  rw [(List.cons.inj same).1] at digit
  exact absurd (digit '-' List.mem_cons_self) (by decide)

/-! ## Torn trees -/

mutual

/-- What is read where a value is cut off. -/
inductive Value.Torn : Value → Tree → Prop
  | nothing {v} : Value.Torn v (.broken (.nothing .cutOff))
  | null : Value.Torn .null (.broken (.word .cutOff))
  | bool {b} : Value.Torn (.bool b) (.broken (.word .cutOff))
  | string {s} : Value.Torn (.string s) (.broken (.string .cutOff .cutOff))
  | array {items elements} (inside : ItemsTorn items elements) :
    Value.Torn (.array items) (.array elements)
  | object {ms members} (inside : MembersTorn ms members) : Value.Torn (.object ms) (.object members)

/-- The same where items are cut off. -/
inductive ItemsTorn : List Value → Elements → Prop
  | stop {items} : ItemsTorn items (.stop .cutOff)
  | item {v t items} (torn : Value.Torn v t) : ItemsTorn (v :: items) (.more t (.stop .malformed))
  /-- A number with fewer digits is a number. -/
  | digits {n m items} (fewer : m ≤ n) :
    ItemsTorn (.number (.natural n) :: items) (.more (.number (some (.natural m))) (.stop .cutOff))
  | next {v items elements} (others : ItemsTorn items elements) :
    ItemsTorn (v :: items) (.more v.tree elements)

/-- The same where members are cut off. -/
inductive MembersTorn : List (String × Value) → Members → Prop
  | stop {ms} : MembersTorn ms (.stop .cutOff)
  | name {m ms} : MembersTorn (m :: ms) (.noName .cutOff .cutOff)
  | member {name v t ms} (torn : Value.Torn v t) :
    MembersTorn ((name, v) :: ms) (.more (some name) t (.stop .malformed))
  | digits {name n m ms} (fewer : m ≤ n) :
    MembersTorn ((name, .number (.natural n)) :: ms)
      (.more (some name) (.number (some (.natural m))) (.stop .cutOff))
  | next {name v ms members} (others : MembersTorn ms members) :
    MembersTorn ((name, v) :: ms) (.more (some name) v.tree members)

end

/-- What the reader makes of a cut value: a torn tree, or a number with fewer digits. -/
inductive Value.CutTo : Value → Reading Tree → Prop
  | torn {v t} (torn : Value.Torn v t) : CutTo v (t, none)
  | digits {n m} (fewer : m ≤ n) :
    CutTo (.number (.natural n)) (.number (some (.natural m)), some [])

/-- Whatever is left of a value's text is read so. -/
def Value.Fragile (v : Value) : Prop :=
  ∀ fuel front, Cut front v.chars → front.length < fuel → v.CutTo (readTree fuel front)

/-! ## Scalars -/

section Scalars

variable {fuel : ℕ} {front rest : List Char} {c : Char}

theorem readTree_nil : readTree (fuel + 1) [] = (.broken (.nothing .cutOff), none) := by
  rw [readTree, List.dropWhile_nil]
  rfl

/-- What begins neither an array nor an object is read as a scalar. -/
theorem readTree_token (space : isSpace c = false) (bracket : c ≠ '[') (brace : c ≠ '\x7b') :
    readTree (fuel + 1) (c :: rest) = readScalar (c :: rest) := by
  rw [readTree, List.dropWhile_cons_of_neg (by simp [space])]
  split
  · next same => exact absurd (List.cons.inj same).1 bracket
  · next same => exact absurd (List.cons.inj same).1 brace
  · rfl

/-- A cut in front of a value leaves nothing of it. -/
theorem fragile_of_cons {v : Value} {text : List Char} (chars : v.chars = c :: text)
    (inside : ∀ fuel f, Cut f text → f.length < fuel → v.CutTo (readTree (fuel + 1) (c :: f))) :
    v.Fragile := by
  intro fuel front cut enough
  obtain ⟨fuel, rfl⟩ := Nat.exists_eq_add_one.2 (Nat.zero_lt_of_lt enough)
  rw [chars] at cut
  rcases cut_cons cut with rfl | ⟨f, rfl, behind⟩
  · rw [readTree_nil]
    exact .torn .nothing
  · exact inside fuel f behind (Nat.lt_of_succ_lt_succ enough)

theorem readWord_torn {word : List Char} {tree : Tree} (cut : Cut front word) :
    readScalar.readWord word tree front = (.broken (.word .cutOff), none) := by
  have scanned : scanWord word front = .error .cutOff := by
    induction word generalizing front with
    | nil => exact absurd cut not_cut_nil
    | cons c word ih =>
      rcases cut_cons cut with rfl | ⟨f, rfl, inside⟩
      · rfl
      · rw [scanWord, if_pos rfl, ih inside]
  rw [readScalar.readWord, scanned]

theorem fragile_null : Value.null.Fragile := by
  refine fragile_of_cons (by rw [Value.chars]) fun fuel f inside _ => ?_
  rw [readTree_token (by decide) (by decide) (by decide)]
  simpa [readScalar, readWord_torn inside] using .torn .null

theorem fragile_bool (b : Bool) : (Value.bool b).Fragile := by
  cases b
  all_goals
    refine fragile_of_cons (by rw [Value.chars]) fun fuel f inside _ => ?_
    rw [readTree_token (by decide) (by decide) (by decide)]
    simpa [readScalar, readWord_torn inside] using .torn .bool

theorem fragile_string (s : String) : (Value.string s).Fragile := by
  refine fragile_of_cons (by rw [Value.chars, stringChars]) fun fuel f inside _ => ?_
  -- At least the quote at the end is missing.
  have begins : f <+: s.toList.flatMap escape := by
    rcases cut_append inside with text | ⟨g, rfl, quote⟩
    · exact text.1
    · rw [cut_singleton quote, List.append_nil]
  rw [readTree_token (by decide) (by decide) (by decide)]
  simpa [readScalar, scanString_torn begins] using .torn .string

/-- A number that is read from any of its digits: one without a sign or a fraction, within 64 bits. -/
def Number.IsCount : Number → Prop
  | .natural n => n < unsignedBound
  | .negative _ | .real _ => False

theorem Number.IsCount.exactly {n : Number} (count : n.IsCount) : n.Exact := by
  cases n with
  | natural n => exact count
  | negative | real => exact count.elim

theorem fragile_number {n : Number} (count : n.IsCount) : (Value.number n).Fragile := by
  intro fuel front cut enough
  obtain ⟨fuel, rfl⟩ := Nat.exists_eq_add_one.2 (Nat.zero_lt_of_lt enough)
  cases n with
  | natural n =>
    rw [Value.chars, Number.chars] at cut
    by_cases nothing : front = []
    · rw [nothing, readTree_nil]
      exact .torn .nothing
    · obtain ⟨c, rest, numeral, m, rfl, digit, scanned, value, fewer⟩ :=
        scanNumeral_torn count cut nothing
      obtain ⟨-, -, -, -, quote⟩ := digit_facts digit
      have read : readScalar (c :: rest) = (.number (some (.natural m)), some []) := by
        simp [readScalar, quote, digit, scanned, value]
      rw [readTree_scalar read]
      exact .digits fewer
  | negative | real => exact count.elim

end Scalars

/-! ## Arrays -/

section Arrays

variable {v : Value} {items : List Value} {front : List Char}

/-- What the reader makes of what is left of items. -/
def TornElements (items : List Value) (fuel : ℕ) (front : List Char) : Prop :=
  ∃ elements, readElements fuel front = (elements, none) ∧ ItemsTorn items elements

theorem readElements_nil {fuel : ℕ} : readElements (fuel + 1) [] = (.stop .cutOff, none) := by
  rw [readElements, List.dropWhile_nil]

/-- A cut in an item or behind it: either the item is torn, or what follows it is. -/
theorem readItem_torn (readable : v.Readable) (fragile : v.Fragile) {fuel : ℕ}
    (cut : Cut front (v.chars ++ afterItem [] items)) (enough : front.length < fuel)
    (others : ∀ f, Cut f (afterItem [] items) → f.length < fuel → TornElements items fuel f) :
    (∃ t, readTree fuel front = (t, none) ∧ v.Torn t) ∨
      ∃ t after elements, readTree fuel front = (t, some after) ∧
        readElements fuel after = (elements, none) ∧ ItemsTorn (v :: items) (.more t elements) := by
  rcases cut_append cut with inside | ⟨f, rfl, behind⟩
  · have made := fragile fuel front inside enough
    generalize read : readTree fuel front = r at made ⊢
    cases made with
    | torn torn => exact .inl ⟨_, rfl, torn⟩
    | digits fewer =>
      obtain ⟨fuel, rfl⟩ := Nat.exists_eq_add_one.2 (Nat.zero_lt_of_lt enough)
      exact .inr ⟨_, _, _, rfl, readElements_nil, .digits fewer⟩
  · rw [List.length_append] at enough
    obtain ⟨elements, read, torn⟩ := others f behind (by omega)
    have head := readable fuel f (by rw [List.length_append]; omega)
      ((ends_afterItem [] items).cut behind)
    exact .inr ⟨_, _, _, head, read, .next torn⟩

theorem readElements_torn (readable : ∀ v ∈ items, v.Readable) (fragile : ∀ v ∈ items, v.Fragile)
    (fuel : ℕ) (cut : Cut front (afterItem [] items)) (enough : front.length < fuel) :
    TornElements items fuel front := by
  induction items generalizing fuel front with
  | nil =>
    obtain ⟨fuel, rfl⟩ := Nat.exists_eq_add_one.2 (Nat.zero_lt_of_lt enough)
    rw [cut_singleton cut]
    exact ⟨_, readElements_nil, .stop⟩
  | cons v items ih =>
    obtain ⟨fuel, rfl⟩ := Nat.exists_eq_add_one.2 (Nat.zero_lt_of_lt enough)
    obtain ⟨first, readable⟩ := List.forall_mem_cons.1 readable
    obtain ⟨weak, fragile⟩ := List.forall_mem_cons.1 fragile
    rcases cut_cons cut with rfl | ⟨f, rfl, inside⟩
    · exact ⟨_, readElements_nil, .stop⟩
    rcases readItem_torn first weak inside (Nat.lt_of_succ_lt_succ enough)
        (fun f cut enough => ih readable fragile fuel cut enough) with
      ⟨t, read, torn⟩ | ⟨t, after, elements, read, tail, torn⟩
    · exact ⟨_, by simp [readElements, isSpace, read], .item torn⟩
    · exact ⟨_, by simp [readElements, isSpace, read, tail], torn⟩

theorem fragile_array (exactly : ∀ v ∈ items, v.Exact) (fragile : ∀ v ∈ items, v.Fragile) :
    (Value.array items).Fragile := by
  refine fragile_of_cons (by rw [Value.chars]) fun fuel f inside enough => ?_
  have nothing : readTree (fuel + 1) ['['] = (.array (.stop .cutOff), none) := by
    simp [readTree, isSpace]
  cases items with
  | nil =>
    rw [cut_singleton inside, nothing]
    exact .torn (.array .stop)
  | cons v items =>
    obtain ⟨first, exactly⟩ := List.forall_mem_cons.1 exactly
    obtain ⟨weak, fragile⟩ := List.forall_mem_cons.1 fragile
    rw [itemsChars_append] at inside
    have item := readItem_torn (readable_of_exact first) weak inside enough fun f cut enough =>
      readElements_torn (fun w hw => readable_of_exact (exactly w hw)) fragile fuel cut enough
    -- What is left begins as the first item does, or nothing is left.
    obtain ⟨c, chars, hchars, space, bracket⟩ := Value.chars_cons first
    rw [hchars, List.cons_append] at inside
    rcases cut_cons inside with rfl | ⟨g, rfl, -⟩
    · rw [nothing]
      exact .torn (.array .stop)
    have skip : (c :: g).dropWhile isSpace = c :: g := List.dropWhile_cons_of_neg (by simp [space])
    rcases item with ⟨t, read, torn⟩ | ⟨t, after, elements, read, tail, torn⟩
    · simpa [readTree, isSpace, skip, bracket, read] using .torn (.array (.item torn))
    · simpa [readTree, isSpace, skip, bracket, read, tail] using .torn (.array torn)

end Arrays

/-! ## Objects -/

section Objects

variable {m : String × Value} {ms : List (String × Value)} {front : List Char}

/-- What the reader makes of what is left of members. -/
def TornMembers (ms : List (String × Value)) (read : Reading Members) : Prop :=
  ∃ members, read = (members, none) ∧ MembersTorn ms members

theorem readMembers_nil {fuel : ℕ} : readMembers (fuel + 1) [] = (.stop .cutOff, none) := by
  rw [readMembers, List.dropWhile_nil]

/-- A cut in a member or behind it, its opening quote being read. -/
theorem readMember_torn (readable : m.2.Readable) (fragile : m.2.Fragile) (fuel : ℕ)
    (cut : Cut front (memberText m (afterMember [] ms))) (enough : front.length < fuel)
    (others : ∀ k f, Cut f (afterMember [] ms) → f.length < k → TornMembers ms (readMembers k f)) :
    TornMembers (m :: ms) (readMember fuel front) := by
  obtain ⟨fuel, rfl⟩ := Nat.exists_eq_add_one.2 (Nat.zero_lt_of_lt enough)
  obtain ⟨name, v⟩ := m
  have inName (begins : front <+: name.toList.flatMap escape) :
      TornMembers ((name, v) :: ms) (readMember (fuel + 1) front) :=
    ⟨_, by rw [readMember, scanString_torn begins], .name⟩
  rcases cut_append cut with inside | ⟨f, rfl, quote⟩
  · exact inName inside.1
  rcases cut_cons quote with rfl | ⟨f, rfl, colon⟩
  · exact inName (by rw [List.append_nil])
  rcases cut_cons colon with rfl | ⟨f, rfl, value⟩
  · exact ⟨_, by rw [readMember, scanString_written]; rfl, .member .nothing⟩
  have within : f.length < fuel := by
    simp only [List.length_append, List.length_cons] at enough
    omega
  rcases cut_append value with inside | ⟨f, rfl, behind⟩
  · have made := fragile fuel f inside within
    generalize read : readTree fuel f = r at made
    cases made with
    | torn torn =>
      exact ⟨_, by simp [readMember, scanString_written, isSpace, read], .member torn⟩
    | digits fewer =>
      obtain ⟨fuel, rfl⟩ := Nat.exists_eq_add_one.2 (Nat.zero_lt_of_lt within)
      exact ⟨_, by simp [readMember, scanString_written, isSpace, read, readMembers_nil],
        .digits fewer⟩
  · have head := readable fuel f within.le ((ends_afterMember [] ms).cut behind)
    rw [List.length_append] at within
    obtain ⟨members, read, torn⟩ := others fuel f behind (by omega)
    exact ⟨_, by simp [readMember, scanString_written, isSpace, head, read], .next torn⟩

theorem readMembers_torn (readable : ∀ m ∈ ms, m.2.Readable) (fragile : ∀ m ∈ ms, m.2.Fragile)
    (fuel : ℕ) (cut : Cut front (afterMember [] ms)) (enough : front.length < fuel) :
    TornMembers ms (readMembers fuel front) := by
  induction ms generalizing fuel front with
  | nil =>
    obtain ⟨fuel, rfl⟩ := Nat.exists_eq_add_one.2 (Nat.zero_lt_of_lt enough)
    rw [cut_singleton cut]
    exact ⟨_, readMembers_nil, .stop⟩
  | cons m ms ih =>
    obtain ⟨fuel, rfl⟩ := Nat.exists_eq_add_one.2 (Nat.zero_lt_of_lt enough)
    obtain ⟨first, readable⟩ := List.forall_mem_cons.1 readable
    obtain ⟨weak, fragile⟩ := List.forall_mem_cons.1 fragile
    rcases cut_cons cut with rfl | ⟨f, rfl, quote⟩
    · exact ⟨_, readMembers_nil, .stop⟩
    rcases cut_cons quote with rfl | ⟨f, rfl, inside⟩
    · exact ⟨_, by simp [readMembers, isSpace], .name⟩
    simp only [List.length_cons] at enough
    obtain ⟨members, read, torn⟩ := readMember_torn first weak fuel inside (by omega)
      fun k f cut enough => ih readable fragile k cut enough
    exact ⟨_, by simp [readMembers, isSpace, read], torn⟩

theorem fragile_object (exactly : ∀ m ∈ ms, m.2.Exact) (fragile : ∀ m ∈ ms, m.2.Fragile) :
    (Value.object ms).Fragile := by
  refine fragile_of_cons (by rw [Value.chars]) fun fuel f inside enough => ?_
  have nothing : readTree (fuel + 1) ['\x7b'] = (.object (.stop .cutOff), none) := by
    simp [readTree, isSpace]
  cases ms with
  | nil =>
    rw [cut_singleton inside, nothing]
    exact .torn (.object .stop)
  | cons m ms =>
    obtain ⟨first, exactly⟩ := List.forall_mem_cons.1 exactly
    obtain ⟨weak, fragile⟩ := List.forall_mem_cons.1 fragile
    rw [membersChars_append] at inside
    rcases cut_cons inside with rfl | ⟨f, rfl, member⟩
    · rw [nothing]
      exact .torn (.object .stop)
    obtain ⟨members, read, torn⟩ := readMember_torn (readable_of_exact first) weak fuel member
      (Nat.lt_of_succ_lt enough) fun k f cut enough =>
        readMembers_torn (fun n hn => readable_of_exact (exactly n hn)) fragile k cut enough
    simpa [readTree, isSpace, read] using .torn (.object torn)

end Objects

/-! ## Whole texts -/

theorem Value.Numbers.exactly {v : Value} (counts : v.Numbers Number.IsCount) : v.Exact := by
  induction counts with
  | null => exact .null
  | bool b => exact .bool b
  | number count => exact .number count.exactly
  | string s => exact .string s
  | array _ ih => exact .array ih
  | object _ ih => exact .object ih

/-- What is left of the text of a value is read as a torn tree, or as a number with fewer digits. -/
theorem readTree_torn {v : Value} (counts : v.Numbers Number.IsCount) : v.Fragile := by
  induction counts with
  | null => exact fragile_null
  | bool b => exact fragile_bool b
  | number count => exact fragile_number count
  | string s => exact fragile_string s
  | array each ih => exact fragile_array (fun v hv => (each v hv).exactly) ih
  | object each ih => exact fragile_object (fun m hm => (each m hm).exactly) ih

/-- A text that an object was written as, and that was cut, ends where the object is torn. -/
theorem read_torn {ms : List (String × Value)} {front : List Char}
    (counts : (Value.object ms).Numbers Number.IsCount) (cut : Cut front (Value.object ms).chars) :
    ∃ t, Document.read front = ⟨t, false⟩ ∧ (Value.object ms).Torn t := by
  have made := readTree_torn counts (front.length + 1) front cut (Nat.lt_succ_self _)
  generalize read : readTree (front.length + 1) front = r at made
  cases made with
  | torn torn => exact ⟨_, by rw [Document.read, read], torn⟩

end TxRelay.Json
