import Mathlib.Data.List.TakeWhile
import Mathlib.Tactic
import TxRelay.Proofs.Except
import TxRelay.Proofs.Json.Written

/-!
# Lexemes

A scanner takes a lexeme off the beginning of a text. It takes the same lexeme whatever follows, as long
as a number still ends there.

Results:
* `scanString_lexeme`, `scanNumeral_lexeme`: strings and numbers.
* `readScalar_lexeme`: values that are neither arrays nor objects.
-/

namespace TxRelay.Json

open TxRelay.Except

/-! ## Words and strings -/

theorem scanWord_lexeme {word text rest : List Char} (h : scanWord word text = .ok rest) :
    text = word ++ rest ∧ ∀ more, scanWord word (word ++ more) = .ok more := by
  induction word generalizing text with
  | nil =>
    cases h
    exact ⟨rfl, fun _ => rfl⟩
  | cons c word ih =>
    cases text with
    | nil => cases h
    | cons d text =>
      rw [scanWord] at h
      split_ifs at h with same
      subst same
      obtain ⟨rfl, again⟩ := ih h
      refine ⟨rfl, fun more => ?_⟩
      rw [List.cons_append, scanWord, if_pos rfl, again]

/-- A text begins with the lexeme of a string, up to its closing quote. -/
def Closes (text rest : List Char) (pieces : List Piece) : Prop :=
  ∃ lexeme, text = lexeme ++ rest ∧ ∀ more, scanPieces (lexeme ++ more) = (pieces, .closed more)

/-- The form of one piece in front of a lexeme makes a longer one. -/
theorem Closes.cons (front : List Char) {text rest : List Char} {piece : Piece}
    {pieces : List Piece}
    (form : ∀ more, scanPieces (front ++ more) = (piece :: (scanPieces more).1, (scanPieces more).2))
    (ih : ∀ {pieces}, scanPieces text = (pieces, .closed rest) → Closes text rest pieces)
    (h : scanPieces (front ++ text) = (pieces, .closed rest)) :
    Closes (front ++ text) rest pieces := by
  rw [form, Prod.mk.injEq] at h
  obtain ⟨rfl, closed⟩ := h
  obtain ⟨lexeme, cut, again⟩ := ih (Prod.ext rfl closed)
  refine ⟨front ++ lexeme, ?_, fun more => ?_⟩
  · rw [List.append_assoc, ← cut]
  · rw [List.append_assoc, form, again]

theorem scanPieces_plain {c : Char} (quote : c ≠ '"') (slash : c ≠ '\\') (visible : ¬ c.toNat < 0x20)
    (rest : List Char) :
    scanPieces (c :: rest) = (.char c :: (scanPieces rest).1, (scanPieces rest).2) := by
  rw [scanPieces]
  · simp [visible]
  all_goals simp_all

theorem scanPieces_letter {e c : Char} (letter : unescape? e = some c) (rest : List Char) :
    scanPieces ('\\' :: e :: rest) = (.char c :: (scanPieces rest).1, (scanPieces rest).2) := by
  have other : e ≠ 'u' := by
    rintro rfl
    cases letter
  rw [scanPieces]
  · simp [letter]
  all_goals simp_all

theorem closes_of_scanPieces {text rest : List Char} {pieces : List Piece}
    (h : scanPieces text = (pieces, .closed rest)) : Closes text rest pieces := by
  induction text using scanPieces.induct generalizing pieces with
  | case1 => cases h
  | case2 after =>
    cases h
    exact ⟨['"'], rfl, fun more => by rw [List.singleton_append, scanPieces]⟩
  | case3 => cases h
  | case4 a b c d after n unit _ _ _ ih =>
    have form (more : List Char) : scanPieces (['\\', 'u', a, b, c, d] ++ more) =
        (.unit n :: (scanPieces more).1, (scanPieces more).2) := by simp [scanPieces, unit]
    exact Closes.cons _ form ih h
  | case5 a b c d after bad => simp [scanPieces, bad] at h
  | case6 after short => simp [scanPieces] at h
  | case7 e after _ _ c letter _ _ _ ih =>
    exact Closes.cons ['\\', e] (scanPieces_letter letter) ih h
  | case8 e after _ other bad => simp [scanPieces, bad] at h
  | case9 c after _ _ _ _ _ control =>
    rw [scanPieces] at h
    · simp [control] at h
    all_goals simp_all
  | case10 c after quote alone _ _ escape visible _ _ _ ih =>
    have slash : c ≠ '\\' := by
      rintro rfl
      cases after with
      | nil => exact alone rfl rfl
      | cons e after => exact escape e after rfl rfl
    exact Closes.cons [c] (scanPieces_plain quote slash visible) ih h

theorem scanString_lexeme {text rest : List Char} {s : Option String}
    (h : scanString text = .closed s rest) :
    ∃ lexeme, text = lexeme ++ rest ∧ ∀ more, scanString (lexeme ++ more) = .closed s more := by
  unfold scanString at h
  split at h
  · next pieces after scanned =>
    cases h
    obtain ⟨lexeme, cut, again⟩ := closes_of_scanPieces scanned
    exact ⟨lexeme, cut, fun more => by rw [scanString, again]⟩
  · cases h

/-! ## Numbers -/

/-- The first character, if there is one, is not of a kind. -/
def Avoids (kind : Char → Prop) (text : List Char) : Prop :=
  ∀ c ∈ text.head?, ¬ kind c

/-- The characters that go on with digits. -/
def IsDigit (c : Char) : Prop :=
  c.isDigit = true

/-- The characters that begin an exponent. -/
def IsExponent (c : Char) : Prop :=
  c = 'e' ∨ c = 'E'

theorem Avoids.append {kind : Char → Prop} {front rest : List Char} (first : Avoids kind front)
    (next : Avoids kind rest) : Avoids kind (front ++ rest) := by
  cases front with
  | nil => exact next
  | cons c front => exact first

theorem scanDigits_lexeme {text digits rest : List Char} (h : scanDigits text = (digits, rest)) :
    text = digits ++ rest ∧ Avoids IsDigit rest ∧
      ∀ more, Avoids IsDigit more → scanDigits (digits ++ more) = (digits, more) := by
  cases h
  refine ⟨List.takeWhile_append_dropWhile.symm, ?_, fun more stops => ?_⟩
  · intro c hc digit
    have stops := List.head?_dropWhile_not Char.isDigit text
    rw [Option.mem_def.1 hc] at stops
    simp only [IsDigit] at digit
    simp [digit] at stops
  · refine scanDigits_append_of_stops (fun c hc => List.mem_takeWhile_imp hc) fun c hc => ?_
    exact Bool.eq_false_iff.2 (stops c hc)

theorem scanWhole_zero {rest : List Char} (stops : Avoids IsDigit rest) :
    scanWhole ('0' :: rest) = .ok (['0'], rest) := by
  cases rest with
  | nil => rfl
  | cons d rest =>
    have next : d.isDigit = false := Bool.eq_false_iff.2 (stops d rfl)
    simp [scanWhole, next]

theorem scanWhole_digit {c : Char} {rest : List Char} (zero : c ≠ '0') (digit : c.isDigit = true) :
    scanWhole (c :: rest) = .ok (scanDigits (c :: rest)) := by
  simp [scanWhole, zero, digit]

theorem scanWhole_lexeme {text whole rest : List Char} (h : scanWhole text = .ok (whole, rest)) :
    ∃ lexeme, text = lexeme ++ rest ∧ Avoids IsDigit rest ∧
      ∀ more, Avoids IsDigit more → scanWhole (lexeme ++ more) = .ok (whole, more) := by
  cases text with
  | nil => cases h
  | cons c text =>
    by_cases zero : c = '0'
    · subst zero
      have stops : Avoids IsDigit text := by
        cases text with
        | nil => exact nofun
        | cons d text =>
          rintro _ ⟨⟩ (next : d.isDigit = true)
          simp [scanWhole, next] at h
      rw [scanWhole_zero stops] at h
      cases h
      exact ⟨['0'], rfl, stops, fun more ends => scanWhole_zero ends⟩
    · by_cases digit : c.isDigit = true
      · rw [scanWhole_digit zero digit] at h
        obtain ⟨cut, stops, again⟩ := scanDigits_lexeme (Except.ok.inj h)
        refine ⟨whole, cut, stops, fun more ends => ?_⟩
        cases whole with
        | nil =>
          have first : c ∈ rest.head? := by rw [← List.nil_append rest, ← cut]; rfl
          exact absurd digit (stops c first)
        | cons d whole =>
          obtain rfl : c = d := (List.cons.inj cut).1
          rw [List.cons_append, scanWhole_digit zero digit, ← List.cons_append, again more ends]
      · simp [scanWhole, zero, digit] at h

theorem scanFraction_other {rest : List Char} (stops : Avoids (· = '.') rest) :
    scanFraction rest = .ok ([], rest) := by
  unfold scanFraction
  split
  · exact absurd rfl (stops '.' rfl)
  · rfl

theorem scanFraction_lexeme {text fraction rest : List Char}
    (h : scanFraction text = .ok (fraction, rest)) :
    ∃ lexeme, text = lexeme ++ rest ∧ Avoids IsDigit lexeme ∧
      ∀ more, Avoids IsDigit more → Avoids (· = '.') more →
        scanFraction (lexeme ++ more) = .ok (fraction, more) := by
  unfold scanFraction at h
  split at h
  · next after =>
    split at h
    · cases h
    · next digits after some scanned =>
      cases h
      obtain ⟨cut, -, again⟩ := scanDigits_lexeme scanned
      refine ⟨'.' :: fraction, congrArg _ cut, ?_, fun more ends _ => ?_⟩
      · rintro _ ⟨⟩
        exact nofun
      · rw [List.cons_append, scanFraction, again more ends]
        cases fraction with
        | nil => exact absurd rfl some
        | cons => rfl
  · cases h
    exact ⟨[], rfl, nofun, fun more _ point => scanFraction_other point⟩

theorem scanExponent_other {rest : List Char} (stops : Avoids IsExponent rest) :
    scanExponent rest = .ok (none, rest) := by
  cases rest with
  | nil => rfl
  | cons c rest => exact if_neg (stops c rfl)

/-- The sign of an exponent and what follows it. -/
def exponentSign : List Char → Bool × List Char
  | '+' :: r => (false, r)
  | '-' :: r => (true, r)
  | r => (false, r)

theorem exponentSign_lexeme {text rest : List Char} {negative : Bool}
    (h : exponentSign text = (negative, rest)) :
    ∃ sign, text = sign ++ rest ∧ ∀ c more, c.isDigit = true →
      exponentSign (sign ++ c :: more) = (negative, c :: more) := by
  unfold exponentSign at h
  split at h
  · cases h
    exact ⟨['+'], rfl, fun _ _ _ => rfl⟩
  · cases h
    exact ⟨['-'], rfl, fun _ _ _ => rfl⟩
  · cases h
    refine ⟨[], rfl, fun c more digit => ?_⟩
    unfold exponentSign
    split
    · next same =>
      cases same
      cases digit
    · next same =>
      cases same
      cases digit
    · rfl

theorem scanExponent_eq {c : Char} (begins : IsExponent c) {rest after : List Char} {negative : Bool}
    (signed : exponentSign rest = (negative, after)) :
    scanExponent (c :: rest) =
      match scanDigits after with
      | ([], after) => .error (digitMissing after)
      | (digits, after) => .ok (some ⟨negative, digits⟩, after) := by
  have signs : scanExponent (c :: rest) =
      match scanDigits (exponentSign rest).2 with
      | ([], after) => .error (digitMissing after)
      | (digits, after) => .ok (some ⟨(exponentSign rest).1, digits⟩, after) := if_pos begins
  rw [signs, signed]

theorem scanExponent_lexeme {text rest : List Char} {exponent : Option Exponent}
    (h : scanExponent text = .ok (exponent, rest)) :
    ∃ lexeme, text = lexeme ++ rest ∧ (∀ c ∈ lexeme.head?, IsExponent c) ∧
      ∀ more, Avoids IsDigit more → Avoids IsExponent more →
        scanExponent (lexeme ++ more) = .ok (exponent, more) := by
  by_cases none : Avoids IsExponent text
  · rw [scanExponent_other none] at h
    cases h
    exact ⟨[], rfl, nofun, fun more _ stops => scanExponent_other stops⟩
  · cases text with
    | nil => exact absurd nofun none
    | cons c text =>
      have begins : IsExponent c := by
        by_contra other
        exact none fun _ same => by rwa [← Option.some.inj same]
      cases signed : exponentSign text with
      | mk negative after =>
        rw [scanExponent_eq begins signed] at h
        obtain ⟨sign, cut, again⟩ := exponentSign_lexeme signed
        split at h
        · cases h
        · next digits _ some scanned =>
          cases h
          obtain ⟨cut', -, digitsAgain⟩ := scanDigits_lexeme scanned
          refine ⟨c :: (sign ++ digits), ?_, ?_, fun more ends _ => ?_⟩
          · rw [List.cons_append, List.append_assoc, ← cut', ← cut]
          · rintro _ ⟨⟩
            exact begins
          · cases digits with
            | nil => exact absurd rfl some
            | cons d digits =>
              have run : after.takeWhile Char.isDigit = d :: digits := congrArg Prod.fst scanned
              have digit : d.isDigit = true := List.mem_takeWhile_imp (run ▸ List.mem_cons_self)
              rw [List.cons_append, List.append_assoc, List.cons_append,
                scanExponent_eq begins (again d (digits ++ more) digit), ← List.cons_append,
                digitsAgain more ends]

/-- What begins like an exponent is no digit and no point. -/
theorem avoids_of_exponent {lexeme : List Char} (begins : ∀ c ∈ lexeme.head?, IsExponent c) :
    Avoids IsDigit lexeme ∧ Avoids (· = '.') lexeme := by
  refine ⟨fun c hc => ?_, fun c hc => ?_⟩
  · rcases begins c hc with rfl | rfl <;> exact nofun
  · rcases begins c hc with rfl | rfl <;> decide

theorem ends_avoids {rest : List Char} (ends : Ends rest) :
    Avoids IsDigit rest ∧ Avoids (· = '.') rest ∧ Avoids IsExponent rest := by
  refine ⟨fun c hc => ?_, fun c hc => (ends c hc).2.1, fun c hc => ?_⟩
  · exact Bool.eq_false_iff.1 (ends c hc).1
  · exact not_or.2 (ends c hc).2.2

theorem scanUnsigned_eq_ok {negative : Bool} {text rest : List Char} {n : Numeral} :
    scanUnsigned negative text = .ok (n, rest) ↔
      ∃ whole r fraction r' exponent, scanWhole text = .ok (whole, r) ∧
        scanFraction r = .ok (fraction, r') ∧ scanExponent r' = .ok (exponent, rest) ∧
        n = ⟨negative, whole, fraction, exponent⟩ := by
  simp only [scanUnsigned, bind_eq_ok_iff]
  constructor
  · rintro ⟨⟨whole, r⟩, first, ⟨fraction, r'⟩, second, ⟨exponent, r''⟩, third, made⟩
    cases made
    exact ⟨whole, r, fraction, r', exponent, first, second, third, rfl⟩
  · rintro ⟨whole, r, fraction, r', exponent, first, second, third, rfl⟩
    exact ⟨_, first, _, second, _, third, rfl⟩

theorem scanUnsigned_lexeme {negative : Bool} {text rest : List Char} {n : Numeral}
    (h : scanUnsigned negative text = .ok (n, rest)) :
    ∃ lexeme, text = lexeme ++ rest ∧
      ∀ more, Ends more → scanUnsigned negative (lexeme ++ more) = .ok (n, more) := by
  obtain ⟨whole, r, fraction, r', exponent, first, second, third, rfl⟩ := scanUnsigned_eq_ok.1 h
  obtain ⟨one, rfl, -, wholeAgain⟩ := scanWhole_lexeme first
  obtain ⟨two, rfl, point, fractionAgain⟩ := scanFraction_lexeme second
  obtain ⟨three, rfl, begins, exponentAgain⟩ := scanExponent_lexeme third
  refine ⟨one ++ (two ++ three), by simp only [List.append_assoc], fun more ends => ?_⟩
  obtain ⟨digit, dot, power⟩ := ends_avoids ends
  obtain ⟨digit', dot'⟩ := avoids_of_exponent begins
  have afterFraction : Avoids IsDigit (three ++ more) := digit'.append digit
  simp only [List.append_assoc]
  exact scanUnsigned_eq_ok.2 ⟨_, _, _, _, _, wholeAgain _ (point.append afterFraction),
    fractionAgain _ afterFraction (dot'.append dot), exponentAgain more digit power, rfl⟩

theorem scanNumeral_lexeme {text rest : List Char} {n : Numeral}
    (h : scanNumeral text = .ok (n, rest)) :
    ∃ lexeme, text = lexeme ++ rest ∧
      ∀ more, Ends more → scanNumeral (lexeme ++ more) = .ok (n, more) := by
  unfold scanNumeral at h
  split at h
  · obtain ⟨lexeme, rfl, again⟩ := scanUnsigned_lexeme h
    exact ⟨'-' :: lexeme, rfl, again⟩
  · next unsigned =>
    obtain ⟨lexeme, rfl, again⟩ := scanUnsigned_lexeme h
    refine ⟨lexeme, rfl, fun more ends => ?_⟩
    cases lexeme with
    | nil => cases again [] ends_nil
    | cons c lexeme =>
      rw [← again more ends, List.cons_append, scanNumeral]
      rintro after same
      exact unsigned (lexeme ++ rest) (by rw [List.cons_append, (List.cons.inj same).1])

/-! ## Scalars -/

theorem readWord_lexeme {word text rest : List Char} {tree t : Tree}
    (h : readScalar.readWord word tree text = (t, some rest)) :
    text = word ++ rest ∧ ∀ more, readScalar.readWord word tree (word ++ more) = (t, some more) := by
  unfold readScalar.readWord at h
  split at h
  · next after scanned =>
    cases h
    obtain ⟨cut, again⟩ := scanWord_lexeme scanned
    exact ⟨cut, fun more => by rw [readScalar.readWord, again]⟩
  · cases h

/-- A scalar is read from a lexeme, and from the same lexeme before whatever ends a number. -/
theorem readScalar_lexeme {text rest : List Char} {t : Tree}
    (h : readScalar text = (t, some rest)) :
    ∃ lexeme, text = lexeme ++ rest ∧
      ∀ more, Ends more → readScalar (lexeme ++ more) = (t, some more) := by
  cases text with
  | nil => cases h
  | cons c text =>
    rw [readScalar] at h
    split_ifs at h with quote number null yes no
    · split at h
      · next s after scanned =>
        cases h
        obtain ⟨lexeme, rfl, again⟩ := scanString_lexeme scanned
        refine ⟨c :: lexeme, rfl, fun more _ => ?_⟩
        rw [List.cons_append, readScalar, if_pos quote, again]
      · cases h
    · split at h
      · next numeral after scanned =>
        cases h
        obtain ⟨lexeme, cut, again⟩ := scanNumeral_lexeme scanned
        refine ⟨lexeme, cut, fun more ends => ?_⟩
        cases lexeme with
        | nil => cases again [] ends_nil
        | cons d lexeme =>
          obtain rfl : c = d := (List.cons.inj cut).1
          have same := again more ends
          rw [List.cons_append] at same ⊢
          rw [readScalar, if_neg quote, if_pos number, same]
      · cases h
    · obtain ⟨rfl, again⟩ := readWord_lexeme h
      refine ⟨c :: ['u', 'l', 'l'], rfl, fun more _ => ?_⟩
      rw [List.cons_append, readScalar, if_neg quote, if_neg number, if_pos null, again]
    · obtain ⟨rfl, again⟩ := readWord_lexeme h
      refine ⟨c :: ['r', 'u', 'e'], rfl, fun more _ => ?_⟩
      rw [List.cons_append, readScalar, if_neg quote, if_neg number, if_neg null, if_pos yes, again]
    · obtain ⟨rfl, again⟩ := readWord_lexeme h
      refine ⟨c :: ['a', 'l', 's', 'e'], rfl, fun more _ => ?_⟩
      rw [List.cons_append, readScalar, if_neg quote, if_neg number, if_neg null, if_neg yes,
        if_pos no, again]
    · cases h

/-- What a scalar begins with. -/
theorem readScalar_cons {text rest : List Char} {t : Tree} (h : readScalar text = (t, some rest)) :
    ∃ c tail, text = c :: tail ∧ isSpace c = false ∧ c ≠ ']' ∧ c ≠ '[' ∧ c ≠ '\x7b' := by
  cases text with
  | nil => cases h
  | cons c text =>
    refine ⟨c, text, rfl, ?_⟩
    rw [readScalar] at h
    split_ifs at h with quote number null yes no
    · subst quote
      decide
    · rcases number with rfl | digit
      · decide
      · obtain ⟨space, bracket, open', brace, -⟩ := digit_facts digit
        exact ⟨space, bracket, open', brace⟩
    · subst null
      decide
    · subst yes
      decide
    · subst no
      decide
    · cases h

end TxRelay.Json
