import TxRelay.Startup
import TxRelay.Proofs.Conversion.Texts
import TxRelay.Proofs.Feed.Numbering

/-!
# The grammar of addresses

An address without the blanks at its ends may begin with a scheme, which ends at the first `://`.
What follows is an authority up to the first slash and a path from there on. An authority is a host
or, if there is a colon, a host before the last colon and a port behind it. Each separator is looked
for in what the ones before it leave, so that an address has one reading at most; one that has none is
refused for the first part that is wrong.

Results:
* `readScheme_eq_ok_iff`, `readAuthority_eq_ok_iff`: the parts that are read.
* `ofChars_eq_ok_iff`, `ofChars_eq_error_iff`: which endpoint a text names, or why it names none.
* `endpoint_grammar`: the same of the endpoint of an address, with the text of the error.
-/

namespace TxRelay.Endpoint

open TxRelay.Except TxRelay.Text
open Feed.Lines (Trimmed)
open Hex (denoted)

/-! ## The grammar -/

/-- What ends a scheme. -/
def mark : List Char := [':', '/', '/']

/-- A text is cut at its first `://`. -/
structure SchemeCut (text before after : List Char) : Prop where
  cut : text = before ++ mark ++ after
  first : ∀ b a, text = b ++ mark ++ a → before.length ≤ b.length

/-- The scheme of a text and what follows it. -/
inductive Opens (text : List Char) : Scheme → List Char → Prop
  | bare (unmarked : ¬ mark <:+: text) : Opens text .http text
  | named {s rest} (cut : SchemeCut text s.name.toList rest) : Opens text s rest

/-- A text is cut before its first slash, or at its end if there is none. -/
structure PathCut (rest authority path : List Char) : Prop where
  cut : rest = authority ++ path
  authority : '/' ∉ authority
  path : ∀ c ∈ path.head?, c = '/'

/-- An authority is cut at its last colon. -/
structure PortCut (authority host digits : List Char) : Prop where
  cut : authority = host ++ ':' :: digits
  last : ':' ∉ digits

/-- At least one decimal digit, maybe after a plus sign, which together denote a port. -/
def PortText (text : List Char) (port : UInt16) : Prop :=
  ∃ digits, (text = digits ∨ text = '+' :: digits) ∧ digits ≠ [] ∧
    (∀ c ∈ digits, c.isDigit = true) ∧ port.toNat = denoted 10 digits

/-- The host and the port that an authority names. -/
inductive HostPort (authority : List Char) : List Char → UInt16 → Prop
  | bare (named : authority ≠ []) (plain : ':' ∉ authority) : HostPort authority authority 50051
  | ported {host digits port} (cut : PortCut authority host digits) (named : host ≠ [])
      (written : PortText digits port) : HostPort authority host port

/-- A text names an endpoint. -/
def Names (text : List Char) (e : Endpoint) : Prop :=
  ∃ rest authority, Opens text e.scheme rest ∧ PathCut rest authority e.path.toList ∧
    HostPort authority e.host.toList e.port

/-- A text that names an endpoint, whichever it is. -/
def IsAddress (text : List Char) : Prop :=
  text ≠ [] ∧ ∃ s rest authority path, Opens text s rest ∧ PathCut rest authority path ∧
    authority ≠ [] ∧ (':' ∉ authority ∨ ∃ host digits, PortCut authority host digits ∧ host ≠ [] ∧
      ∃ number, (digits = number ∨ digits = '+' :: number) ∧ number ≠ [] ∧
        (∀ c ∈ number, c.isDigit = true) ∧ denoted 10 number ≤ 65535)

/-- A text names no endpoint, for a reason that is the first in the order of the tests. -/
inductive Fails (text : List Char) : Fault → Prop
  | empty (nothing : text = []) : Fails text .empty
  | scheme {name rest} (cut : SchemeCut text name rest)
      (other : ∀ s : Scheme, name ≠ s.name.toList) : Fails text (.scheme (String.ofList name))
  | noAuthority {s rest path} (filled : text ≠ []) (opens : Opens text s rest)
      (cut : PathCut rest [] path) : Fails text .host
  | port {s rest authority path host digits} (opens : Opens text s rest)
      (cut : PathCut rest authority path) (last : PortCut authority host digits)
      (unwritten : ∀ port, ¬ PortText digits port) : Fails text .port
  | noHost {s rest authority path digits port} (opens : Opens text s rest)
      (cut : PathCut rest authority path) (last : PortCut authority [] digits)
      (written : PortText digits port) : Fails text .host

/-! ## Separators -/

section Separators

variable {text before after rest authority path host digits : List Char}

theorem splitScheme?_eq_none_iff : splitScheme? text = none ↔ ¬ mark <:+: text := by
  fun_induction splitScheme? text with
  | case1 => simp [mark]
  | case2 after =>
    have marked : mark <:+: ':' :: '/' :: '/' :: after := (List.prefix_append mark after).isInfix
    simp [marked]
  | case3 c rest other ih =>
    have later : mark <:+: c :: rest ↔ mark <:+: rest := by
      refine List.infix_cons_iff.trans (or_iff_right ?_)
      rintro ⟨after, cut⟩
      obtain ⟨rfl, rfl⟩ := List.cons.inj cut
      exact other after rfl rfl
    rw [Option.map_eq_none_iff, ih, later]

/-- There is one first place only. -/
theorem SchemeCut.unique {before' after' : List Char} (h : SchemeCut text before after)
    (h' : SchemeCut text before' after') : before = before' ∧ after = after' := by
  have size : before.length = before'.length :=
    le_antisymm (h.first _ _ h'.cut) (h'.first _ _ h.cut)
  have same := h.cut.symm.trans h'.cut
  rw [List.append_assoc, List.append_assoc] at same
  obtain ⟨front, back⟩ := List.append_inj same size
  exact ⟨front, List.append_cancel_left back⟩

theorem schemeCut_of_splitScheme? (h : splitScheme? text = some (before, after)) :
    SchemeCut text before after := by
  refine ⟨by simpa [mark] using splitScheme?_append h, ?_⟩
  fun_induction splitScheme? text generalizing before with
  | case1 => cases h
  | case2 =>
    cases h
    simp
  | case3 c rest other ih =>
    obtain ⟨⟨front, back⟩, found, made⟩ := Option.map_eq_some_iff.1 h
    cases made
    intro b a cut
    cases b with
    | nil =>
      obtain ⟨rfl, rfl⟩ := List.cons.inj cut
      exact (other a rfl rfl).elim
    | cons d b =>
      obtain ⟨rfl, inner⟩ := List.cons.inj cut
      exact Nat.succ_le_succ (ih found b a inner)

theorem splitScheme?_eq_some_iff :
    splitScheme? text = some (before, after) ↔ SchemeCut text before after := by
  refine ⟨schemeCut_of_splitScheme?, fun h => ?_⟩
  cases found : splitScheme? text with
  | none => exact absurd ⟨before, after, h.cut.symm⟩ (splitScheme?_eq_none_iff.1 found)
  | some parts =>
    obtain ⟨rfl, rfl⟩ := h.unique (schemeCut_of_splitScheme? found)
    rfl

theorem splitLast?_eq_none_iff : splitLast? text = none ↔ ':' ∉ text := by
  induction text with
  | nil => simp [splitLast?]
  | cons c text ih =>
    rw [splitLast?, List.mem_cons, not_or, ← ih]
    cases splitLast? text with
    | none => by_cases isColon : c = ':' <;> simp [isColon, eq_comm]
    | some parts => simp

theorem splitLast?_eq_some_iff :
    splitLast? text = some (host, digits) ↔ PortCut text host digits := by
  constructor
  · intro h
    refine ⟨splitLast?_append h, ?_⟩
    fun_induction splitLast? text generalizing host with
    | case1 => cases h
    | case2 c rest _ _ found ih =>
      cases h
      exact ih found
    | case3 rest none =>
      cases h
      exact splitLast?_eq_none_iff.1 none
    | case4 => cases h
  · rintro ⟨rfl, last⟩
    induction host with
    | nil => simp [splitLast?, splitLast?_eq_none_iff.2 last]
    | cons c host ih => simp [splitLast?, ih]

theorem pathCut_iff : PathCut rest authority path ↔
    rest.takeWhile (· ≠ '/') = authority ∧ rest.dropWhile (· ≠ '/') = path := by
  constructor
  · rintro ⟨rfl, plain, first⟩
    have all : ∀ c ∈ authority, decide (c ≠ '/') = true := by
      intro c hc
      exact decide_eq_true fun same => plain (same ▸ hc)
    rw [List.takeWhile_append_of_pos all, List.dropWhile_append_of_pos all]
    cases path with
    | nil => simp
    | cons c path =>
      obtain rfl : c = '/' := first c rfl
      simp
  · rintro ⟨rfl, rfl⟩
    refine ⟨List.takeWhile_append_dropWhile.symm, fun mem => ?_, fun c first => ?_⟩
    · simpa using List.mem_takeWhile_imp mem
    · obtain ⟨tail, left⟩ := List.head?_eq_some_iff.1 first
      have stops := List.head_dropWhile_not (· ≠ '/') (l := rest) (left ▸ List.cons_ne_nil c tail)
      simp only [left, List.head_cons] at stops
      simpa using stops

end Separators

/-! ## Ports -/

/-- The texts of ports are those of numbers up to 65535. -/
theorem exists_portText_iff {text : List Char} : (∃ port, PortText text port) ↔
    ∃ digits, (text = digits ∨ text = '+' :: digits) ∧ digits ≠ [] ∧
      (∀ c ∈ digits, c.isDigit = true) ∧ denoted 10 digits ≤ 65535 := by
  constructor
  · rintro ⟨port, digits, written, filled, digit, number⟩
    have := port.toNat_lt
    exact ⟨digits, written, filled, digit, by omega⟩
  · rintro ⟨digits, written, filled, digit, small⟩
    exact ⟨.ofNat (denoted 10 digits), digits, written, filled, digit,
      UInt16.toNat_ofNat_of_lt' (Nat.lt_succ_of_le small)⟩

theorem port?_eq_some_iff {text : List Char} {port : UInt16} :
    port? text = some port ↔ PortText text port := by
  have number (digits : List Char) : (if digits.isEmpty || !digits.all Char.isDigit then none
      else if Nat.ofDigitChars 10 digits 0 < Nat.pow 2 16 then
        some (UInt16.ofNat (Nat.ofDigitChars 10 digits 0)) else none) = some port ↔
      digits ≠ [] ∧ (∀ c ∈ digits, c.isDigit = true) ∧ port.toNat = denoted 10 digits := by
    simp only [Conversion.unfit_iff]
    split_ifs with fit small
    · rw [Conversion.ofDigitChars_eq_denoted fit.2] at small ⊢
      have kept : (UInt16.ofNat (denoted 10 digits)).toNat = denoted 10 digits :=
        UInt16.toNat_ofNat_of_lt' small
      constructor
      · rintro ⟨⟩
        exact ⟨fit.1, fit.2, kept⟩
      · rintro ⟨-, -, value⟩
        rw [← value, UInt16.ofNat_toNat]
    · rw [Conversion.ofDigitChars_eq_denoted fit.2] at small
      refine iff_of_false nofun fun ⟨_, _, value⟩ => small ?_
      rw [← value]
      exact port.toNat_lt
    · exact iff_of_false nofun fun ⟨filled, digit, _⟩ => fit ⟨filled, digit⟩
  unfold port?
  dsimp only
  split
  · next rest =>
    rw [number]
    constructor
    · exact fun h => ⟨rest, .inr rfl, h⟩
    · rintro ⟨digits, rfl | same, filled, digit, value⟩
      · cases digit '+' List.mem_cons_self
      · cases same
        exact ⟨filled, digit, value⟩
  · next other =>
    rw [number]
    constructor
    · exact fun h => ⟨text, .inl rfl, h⟩
    · rintro ⟨digits, rfl | rfl, h⟩
      · exact h
      · exact absurd rfl (other digits)

/-! ## The parts -/

section Parts

variable {text name rest authority host path digits : List Char} {s : Scheme} {port : UInt16}
  {fault : Fault} {e : Endpoint}

theorem SchemeCut.opens_iff {after : List Char} (cut : SchemeCut text name after) :
    Opens text s rest ↔ name = s.name.toList ∧ after = rest := by
  constructor
  · rintro (unmarked | other)
    · exact absurd ⟨name, after, cut.cut.symm⟩ unmarked
    · exact cut.unique other
  · rintro ⟨rfl, rfl⟩
    exact .named cut

theorem readScheme_eq_ok_iff : readScheme text = .ok (s, rest) ↔ Opens text s rest := by
  unfold readScheme
  split
  · next none =>
    have unmarked := splitScheme?_eq_none_iff.1 none
    constructor
    · rintro ⟨⟩
      exact .bare unmarked
    · rintro (_ | cut)
      · rfl
      · exact absurd ⟨_, _, cut.cut.symm⟩ unmarked
  · next name after found =>
    rw [(splitScheme?_eq_some_iff.1 found).opens_iff]
    split_ifs with http https
    · cases s <;> simp [http, Scheme.name]
    · cases s <;> simp [https, Scheme.name]
    · cases s <;> simp [http, https, Scheme.name]

theorem readScheme_eq_error_iff : readScheme text = .error fault ↔
    ∃ name rest, SchemeCut text name rest ∧ (∀ s : Scheme, name ≠ s.name.toList) ∧
      fault = .scheme (String.ofList name) := by
  constructor
  · intro failed
    unfold readScheme at failed
    split at failed
    · cases failed
    · next name after found =>
      split_ifs at failed with http https
      cases failed
      refine ⟨name, after, splitScheme?_eq_some_iff.1 found, fun s => ?_, rfl⟩
      cases s with
      | http => exact http
      | https => exact https
  · rintro ⟨name, after, cut, other, rfl⟩
    rw [readScheme, splitScheme?_eq_some_iff.2 cut]
    exact (if_neg (other .http)).trans (if_neg (other .https))

theorem PortCut.unique {host' digits' : List Char} (h : PortCut authority host digits)
    (h' : PortCut authority host' digits') : host = host' ∧ digits = digits' := by
  have same := (splitLast?_eq_some_iff.2 h).symm.trans (splitLast?_eq_some_iff.2 h')
  simpa using same

theorem readAuthority_plain (named : authority ≠ []) (plain : ':' ∉ authority) :
    readAuthority authority = .ok (authority, defaultPort) := by
  simp only [readAuthority, List.isEmpty_iff, named, splitLast?_eq_none_iff.2 plain, if_false,
    pure_bind]
  rfl

theorem readAuthority_ported (cut : PortCut authority host digits) :
    readAuthority authority =
      match port? digits with
      | some port => if host = [] then .error .host else .ok (host, port)
      | none => .error .port := by
  have named : authority ≠ [] := by simp [cut.cut]
  simp only [readAuthority, List.isEmpty_iff, named, splitLast?_eq_some_iff.2 cut]
  cases port? digits with
  | none => rfl
  | some port => cases host <;> rfl

/-- An authority is empty, or it has no colon, or it is cut at its last one. -/
theorem authority_cases (authority : List Char) :
    authority = [] ∨ authority ≠ [] ∧ ':' ∉ authority ∨
      ∃ host digits, PortCut authority host digits := by
  cases found : splitLast? authority with
  | none =>
    have plain := splitLast?_eq_none_iff.1 found
    rcases eq_or_ne authority [] with empty | named
    · exact .inl empty
    · exact .inr (.inl ⟨named, plain⟩)
  | some parts => exact .inr (.inr ⟨_, _, splitLast?_eq_some_iff.1 found⟩)

theorem readAuthority_eq_ok_iff :
    readAuthority authority = .ok (host, port) ↔ HostPort authority host port := by
  constructor
  · intro read
    rcases authority_cases authority with rfl | ⟨named, plain⟩ | ⟨front, digits, cut⟩
    · cases read
    · rw [readAuthority_plain named plain] at read
      cases read
      exact .bare named plain
    · rw [readAuthority_ported cut] at read
      split at read
      · next written =>
        split_ifs at read with named
        cases read
        exact .ported cut named (port?_eq_some_iff.1 written)
      · cases read
  · rintro (⟨named, plain⟩ | ⟨cut, named, written⟩)
    · exact readAuthority_plain named plain
    · rw [readAuthority_ported cut, port?_eq_some_iff.2 written]
      exact if_neg named

theorem port?_eq_none_iff : port? digits = none ↔ ∀ port, ¬ PortText digits port := by
  simp only [← port?_eq_some_iff, Option.eq_none_iff_forall_ne_some]

theorem readAuthority_eq_error_iff : readAuthority authority = .error fault ↔
    (authority = [] ∨ ∃ digits port, PortCut authority [] digits ∧ PortText digits port) ∧
        fault = .host ∨
      (∃ host digits, PortCut authority host digits ∧ ∀ port, ¬ PortText digits port) ∧
        fault = .port := by
  constructor
  · intro failed
    rcases authority_cases authority with rfl | ⟨named, plain⟩ | ⟨front, digits, cut⟩
    · cases failed
      exact .inl ⟨.inl rfl, rfl⟩
    · rw [readAuthority_plain named plain] at failed
      cases failed
    · rw [readAuthority_ported cut] at failed
      split at failed
      · next port written =>
        split_ifs at failed with unnamed
        cases failed
        subst unnamed
        exact .inl ⟨.inr ⟨digits, port, cut, port?_eq_some_iff.1 written⟩, rfl⟩
      · next unwritten =>
        cases failed
        exact .inr ⟨⟨front, digits, cut, port?_eq_none_iff.1 unwritten⟩, rfl⟩
  · rintro (⟨rfl | ⟨digits, port, cut, written⟩, rfl⟩ | ⟨⟨host, digits, cut, unwritten⟩, rfl⟩)
    · rfl
    · rw [readAuthority_ported cut, port?_eq_some_iff.2 written]
      rfl
    · rw [readAuthority_ported cut, port?_eq_none_iff.2 unwritten]

/-! ## Addresses -/

theorem ofChars_cons (c : Char) (text : List Char) :
    ofChars (c :: text) = readScheme (c :: text) >>= fun (s, rest) =>
      readAuthority (rest.takeWhile (· ≠ '/')) >>= fun (host, port) =>
        .ok ⟨s, String.ofList host, port, String.ofList (rest.dropWhile (· ≠ '/'))⟩ := rfl

theorem opens_nil_iff : Opens [] s rest ↔ s = .http ∧ rest = [] := by
  have unmarked : splitScheme? [] = none := rfl
  rw [← readScheme_eq_ok_iff, readScheme, unmarked]
  simp [eq_comm]

/-- The parts of an address are read one after the other. -/
theorem names_iff : Names text e ↔ ∃ rest, readScheme text = .ok (e.scheme, rest) ∧
    readAuthority (rest.takeWhile (· ≠ '/')) = .ok (e.host.toList, e.port) ∧
      rest.dropWhile (· ≠ '/') = e.path.toList := by
  simp only [Names, readScheme_eq_ok_iff, readAuthority_eq_ok_iff, pathCut_iff]
  refine exists_congr fun rest => ⟨?_, ?_⟩
  · rintro ⟨_, opens, ⟨rfl, path⟩, named⟩
    exact ⟨opens, named, path⟩
  · rintro ⟨opens, named, path⟩
    exact ⟨_, opens, ⟨rfl, path⟩, named⟩

theorem ofChars_eq_ok_iff : ofChars text = .ok e ↔ Names text e := by
  rw [names_iff]
  cases text with
  | nil =>
    refine iff_of_false nofun ?_
    rintro ⟨rest, opens, read, -⟩
    obtain ⟨-, rfl⟩ := opens_nil_iff.1 (readScheme_eq_ok_iff.1 opens)
    cases read
  | cons c text =>
    rw [ofChars_cons, bind_eq_ok_iff]
    constructor
    · rintro ⟨⟨s, rest⟩, opens, others⟩
      obtain ⟨⟨host, port⟩, read, made⟩ := bind_eq_ok_iff.1 others
      cases made
      exact ⟨rest, opens, by simpa using read, by simp⟩
    · rintro ⟨rest, opens, read, path⟩
      refine ⟨_, opens, bind_eq_ok_iff.2 ⟨_, read, ?_⟩⟩
      simp only [path, String.ofList_toList]

theorem fails_nil_iff : Fails [] fault ↔ fault = .empty := by
  constructor
  · rintro (_ | ⟨cut, _⟩ | ⟨filled, _, _⟩ | ⟨opens, cut, last, _⟩ | ⟨opens, cut, last, _⟩)
    · rfl
    · simpa [mark] using cut.cut
    · exact absurd rfl filled
    all_goals
      obtain ⟨-, rfl⟩ := opens_nil_iff.1 opens
      simpa [last.cut] using cut.cut
  · rintro rfl
    exact .empty rfl

/-- The first part that is wrong is the one that fails to be read. -/
theorem fails_iff (filled : text ≠ []) : Fails text fault ↔
    readScheme text = .error fault ∨ ∃ s rest, readScheme text = .ok (s, rest) ∧
      readAuthority (rest.takeWhile (· ≠ '/')) = .error fault := by
  have cut (rest : List Char) : PathCut rest (rest.takeWhile (· ≠ '/')) (rest.dropWhile (· ≠ '/')) :=
    pathCut_iff.2 ⟨rfl, rfl⟩
  simp only [readScheme_eq_error_iff, readScheme_eq_ok_iff, readAuthority_eq_error_iff]
  constructor
  · rintro (nothing | ⟨cut, other⟩ | ⟨_, opens, path⟩ | ⟨opens, path, last, unwritten⟩ |
      ⟨opens, path, last, written⟩)
    · exact absurd nothing filled
    · exact .inl ⟨_, _, cut, other, rfl⟩
    all_goals
      obtain ⟨authority, -⟩ := pathCut_iff.1 path
      refine .inr ⟨_, _, opens, ?_⟩
      rw [authority]
    · exact .inl ⟨.inl rfl, rfl⟩
    · exact .inr ⟨⟨_, _, last, unwritten⟩, rfl⟩
    · exact .inl ⟨.inr ⟨_, _, last, written⟩, rfl⟩
  · rintro (⟨name, after, cut, other, rfl⟩ | ⟨s, rest, opens, ⟨wrong, rfl⟩ | ⟨wrong, rfl⟩⟩)
    · exact .scheme cut other
    · rcases wrong with nothing | ⟨digits, port, last, written⟩
      · exact .noAuthority filled opens (nothing ▸ cut rest)
      · exact .noHost opens (cut rest) last written
    · obtain ⟨host, digits, last, unwritten⟩ := wrong
      exact .port opens (cut rest) last unwritten

theorem ofChars_eq_error_iff : ofChars text = .error fault ↔ Fails text fault := by
  cases text with
  | nil =>
    rw [fails_nil_iff]
    exact ⟨fun failed => by cases failed; rfl, fun same => same ▸ rfl⟩
  | cons c text =>
    rw [ofChars_cons, bind_eq_error_iff, fails_iff (List.cons_ne_nil c text)]
    refine or_congr_right ⟨?_, ?_⟩
    · rintro ⟨⟨s, rest⟩, opens, failed⟩
      rcases bind_eq_error_iff.1 failed with wrong | ⟨_, _, made⟩
      · exact ⟨s, rest, opens, wrong⟩
      · cases made
    · rintro ⟨s, rest, opens, wrong⟩
      exact ⟨⟨s, rest⟩, opens, bind_eq_error_iff.2 (.inl wrong)⟩

theorem exists_hostPort_iff : (∃ host port, HostPort authority host port) ↔
    authority ≠ [] ∧ (':' ∉ authority ∨ ∃ host digits, PortCut authority host digits ∧ host ≠ [] ∧
      ∃ port, PortText digits port) := by
  constructor
  · rintro ⟨host, port, ⟨named, plain⟩ | ⟨cut, named, written⟩⟩
    · exact ⟨named, .inl plain⟩
    · exact ⟨by simp [cut.cut], .inr ⟨host, _, cut, named, port, written⟩⟩
  · rintro ⟨named, plain | ⟨host, digits, cut, filled, port, written⟩⟩
    · exact ⟨_, _, .bare named plain⟩
    · exact ⟨_, _, .ported cut filled written⟩

theorem exists_names_iff : (∃ e, Names text e) ↔ IsAddress text := by
  simp only [IsAddress, ← exists_portText_iff, ← exists_hostPort_iff]
  constructor
  · rintro ⟨e, named⟩
    have filled : text ≠ [] := by
      rintro rfl
      cases ofChars_eq_ok_iff.2 named
    obtain ⟨rest, authority, opens, path, host⟩ := named
    exact ⟨filled, _, _, _, _, opens, path, _, _, host⟩
  · rintro ⟨-, s, rest, authority, path, opens, cut, host, port, named⟩
    exact ⟨⟨s, .ofList host, port, .ofList path⟩, rest, authority, opens, by simpa using cut,
      by simpa using named⟩

end Parts

/-- An address names an endpoint if what is left of it without the blanks at its ends is the text of
one, and then the endpoint that it is the text of. An endpoint is shown as its URL, with the port in
decimal digits. If there is none, the error says so of the whole address. -/
theorem endpoint_grammar (address : String) : ∃ text, Trimmed address.toList text ∧
    ((∃ e, Startup.endpoint address = .ok e) ↔ IsAddress text) ∧
    (∀ e, Startup.endpoint address = .ok e ↔ Names text e) ∧
    (∀ e, Startup.endpoint address = .ok e → toString e = e.url ∧
      e.url = e.scheme.name ++ "://" ++ e.host ++ ":" ++ toString e.port.toNat ++ e.path) ∧
    ∀ error, Startup.endpoint address = .error error ↔
      ∃ fault, Fails text fault ∧ error = .address address fault.message := by
  refine ⟨_, Feed.Lines.trimmed_trim address.toList, ?_⟩
  have named (e : Endpoint) : Startup.endpoint address = .ok e ↔ Names (trim address.toList) e := by
    rw [← ofChars_eq_ok_iff, Startup.endpoint, parse]
    cases ofChars (trim address.toList) <;> simp
  refine ⟨?_, named, fun e _ => ⟨rfl, rfl⟩, fun error => ?_⟩
  · simp only [named, exists_names_iff]
  · simp only [← ofChars_eq_error_iff, Startup.endpoint, parse]
    cases ofChars (trim address.toList) with
    | ok e => simp
    | error fault => simp [eq_comm]

end TxRelay.Endpoint
