import Mathlib.Data.List.TakeWhile
import Mathlib.Tactic
import TxRelay.Proofs.Json.Lexeme
import TxRelay.Proofs.Json.Record

/-!
# The layout of a text

A text spells a tree if its tokens are those of the tree, with blanks before and between them as one
likes. The reader reads from a text exactly the tree that it spells, so that the blanks make no
difference to what the text is decoded to.

Results:
* `read_iff_laidOut`: a text is read as the tree whose tokens it holds.
* `read_eq_ok_iff_laidOut`: a text is decoded as that tree is.
-/

namespace TxRelay.Json

/-! ## Texts of a tree -/

/-- Blanks between tokens. -/
def Blanks (text : List Char) : Prop :=
  ∀ c ∈ text, isSpace c = true

mutual

/-- A text whose tokens are those of a tree. The last character belongs to the last token. -/
inductive Tree.Spelled : Tree → List Char → Prop
  | scalar {t ws lexeme} (blanks : Blanks ws) (read : readScalar lexeme = (t, some [])) :
    Tree.Spelled t (ws ++ lexeme)
  | noItems {ws ws'} (blanks : Blanks ws) (inside : Blanks ws') :
    Tree.Spelled (.array .close) (ws ++ '[' :: (ws' ++ [']']))
  | items {ws head text rest after} (blanks : Blanks ws) (first : Tree.Spelled head text)
      (others : Elements.Spelled rest after) :
    Tree.Spelled (.array (.more head rest)) (ws ++ '[' :: (text ++ after))
  | noMembers {ws ws'} (blanks : Blanks ws) (inside : Blanks ws') :
    Tree.Spelled (.object .close) (ws ++ '\x7b' :: (ws' ++ ['\x7d']))
  | members {ws ws' members text} (blanks : Blanks ws) (inside : Blanks ws')
      (opened : Members.Opened members text) :
    Tree.Spelled (.object members) (ws ++ '\x7b' :: (ws' ++ '"' :: text))

/-- The same of what follows an item of an array. -/
inductive Elements.Spelled : Elements → List Char → Prop
  | close {ws} (blanks : Blanks ws) : Elements.Spelled .close (ws ++ [']'])
  | more {ws head text rest after} (blanks : Blanks ws) (first : Tree.Spelled head text)
      (others : Elements.Spelled rest after) :
    Elements.Spelled (.more head rest) (ws ++ ',' :: (text ++ after))

/-- The same of a member and what follows it, without the opening quote of its name. -/
inductive Members.Opened : Members → List Char → Prop
  | more {name lexeme ws value text rest after} (scanned : scanString lexeme = .closed name [])
      (blanks : Blanks ws) (first : Tree.Spelled value text)
      (others : Members.Spelled rest after) :
    Members.Opened (.more name value rest) (lexeme ++ (ws ++ ':' :: (text ++ after)))

/-- The same of what follows a member of an object. -/
inductive Members.Spelled : Members → List Char → Prop
  | close {ws} (blanks : Blanks ws) : Members.Spelled .close (ws ++ ['\x7d'])
  | more {ws ws' members text} (blanks : Blanks ws) (inside : Blanks ws')
      (opened : Members.Opened members text) :
    Members.Spelled members (ws ++ ',' :: (ws' ++ '"' :: text))

end

/-- A whole text whose tokens are those of a tree; blanks may come behind it. -/
def Tree.LaidOut (t : Tree) (text : List Char) : Prop :=
  ∃ front ws, text = front ++ ws ∧ t.Spelled front ∧ Blanks ws

theorem Blanks.append {ws ws' : List Char} (h : Blanks ws) (h' : Blanks ws') : Blanks (ws ++ ws') :=
  List.forall_mem_append.2 ⟨h, h'⟩

/-- Blanks may come before a text. -/
theorem Tree.Spelled.blanks {t : Tree} {ws text : List Char} (h : Blanks ws)
    (spelled : t.Spelled text) : t.Spelled (ws ++ text) := by
  cases spelled with
  | scalar blanks read =>
    rw [← List.append_assoc]
    exact .scalar (h.append blanks) read
  | noItems blanks inside =>
    rw [← List.append_assoc]
    exact .noItems (h.append blanks) inside
  | items blanks first others =>
    rw [← List.append_assoc]
    exact .items (h.append blanks) first others
  | noMembers blanks inside =>
    rw [← List.append_assoc]
    exact .noMembers (h.append blanks) inside
  | members blanks inside opened =>
    rw [← List.append_assoc]
    exact .members (h.append blanks) inside opened

/-- What the first token of a text begins with. -/
theorem Tree.Spelled.cons {t : Tree} {text : List Char} (h : t.Spelled text) :
    ∃ ws c tail, text = ws ++ c :: tail ∧ Blanks ws ∧ isSpace c = false ∧ c ≠ ']' := by
  cases h with
  | scalar blanks read =>
    obtain ⟨c, tail, rfl, space, bracket, -⟩ := readScalar_cons read
    exact ⟨_, c, tail, rfl, blanks, space, bracket⟩
  | noItems blanks | items blanks => exact ⟨_, '[', _, rfl, blanks, by decide, by decide⟩
  | noMembers blanks | members blanks => exact ⟨_, '\x7b', _, rfl, blanks, by decide, by decide⟩

/-! ## The reader, token by token -/

section Steps

variable {fuel : ℕ} {ws ws' text after rest : List Char}

theorem dropWhile_blanks (blanks : Blanks ws) (text : List Char) :
    (ws ++ text).dropWhile isSpace = text.dropWhile isSpace :=
  List.dropWhile_append_of_pos blanks

theorem dropWhile_token {c : Char} (blanks : Blanks ws) (space : isSpace c = false)
    (text : List Char) : (ws ++ c :: text).dropWhile isSpace = c :: text := by
  rw [dropWhile_blanks blanks, List.dropWhile_cons_of_neg (by simp [space])]

theorem readTree_blanks (blanks : Blanks ws) (fuel : ℕ) (text : List Char) :
    readTree fuel (ws ++ text) = readTree fuel text := by
  cases fuel with
  | zero => rfl
  | succ fuel => rw [readTree, readTree, dropWhile_blanks blanks]

theorem readTree_dropWhile (fuel : ℕ) (text : List Char) :
    readTree fuel (text.dropWhile isSpace) = readTree fuel text := by
  have blanks : Blanks (text.takeWhile isSpace) := fun c hc => List.mem_takeWhile_imp hc
  rw [← readTree_blanks blanks, List.takeWhile_append_dropWhile]

theorem readTree_scalar {t : Tree} (read : readScalar text = (t, some rest)) :
    readTree (fuel + 1) text = (t, some rest) := by
  obtain ⟨c, tail, rfl, space, -, bracket, brace⟩ := readScalar_cons read
  rw [readTree, List.dropWhile_cons_of_neg (by simp [space])]
  split
  · next same => exact absurd (List.cons.inj same).1 bracket
  · next same => exact absurd (List.cons.inj same).1 brace
  · exact read

theorem readTree_noItems (inside : Blanks ws) :
    readTree (fuel + 1) ('[' :: (ws ++ ']' :: rest)) = (.array .close, some rest) := by
  rw [readTree, List.dropWhile_cons_of_neg (by decide)]
  simp only [dropWhile_token inside (show isSpace ']' = false by decide)]

theorem readTree_items {head : Tree} {tail : Elements} {c : Char} {item : List Char}
    (blanks : Blanks ws) (space : isSpace c = false) (bracket : c ≠ ']')
    (first : readTree fuel (ws ++ c :: item) = (head, some after))
    (others : readElements fuel after = (tail, some rest)) :
    readTree (fuel + 1) ('[' :: (ws ++ c :: item)) = (.array (.more head tail), some rest) := by
  rw [readTree_blanks blanks] at first
  rw [readTree, List.dropWhile_cons_of_neg (by decide)]
  simp only [dropWhile_token blanks space]
  split
  · next nothing => cases nothing
  · next same => exact absurd (List.cons.inj same).1 bracket
  · simp only [first, others]

theorem readTree_noMembers (inside : Blanks ws) :
    readTree (fuel + 1) ('\x7b' :: (ws ++ '\x7d' :: rest)) = (.object .close, some rest) := by
  rw [readTree, List.dropWhile_cons_of_neg (by decide)]
  simp only [dropWhile_token inside (show isSpace '\x7d' = false by decide)]

theorem readTree_members (inside : Blanks ws) :
    readTree (fuel + 1) ('\x7b' :: (ws ++ '"' :: text)) =
      ((.object (readMember fuel text).1), (readMember fuel text).2) := by
  rw [readTree, List.dropWhile_cons_of_neg (by decide)]
  simp only [dropWhile_token inside (show isSpace '"' = false by decide)]

theorem readElements_close (blanks : Blanks ws) :
    readElements (fuel + 1) (ws ++ ']' :: rest) = (.close, some rest) := by
  rw [readElements, dropWhile_token blanks (by decide)]
  rfl

theorem readElements_more {head : Tree} {tail : Elements} (blanks : Blanks ws)
    (first : readTree fuel text = (head, some after))
    (others : readElements fuel after = (tail, some rest)) :
    readElements (fuel + 1) (ws ++ ',' :: text) = (.more head tail, some rest) := by
  rw [readElements, dropWhile_token blanks (by decide)]
  simp only [first, others]

theorem readMember_more {name : Option String} {value : Tree} {tail : Members} {lexeme : List Char}
    (scanned : scanString lexeme = .closed name (ws ++ ':' :: text)) (blanks : Blanks ws)
    (first : readTree fuel text = (value, some after))
    (others : readMembers fuel after = (tail, some rest)) :
    readMember (fuel + 1) lexeme = (.more name value tail, some rest) := by
  rw [readMember, scanned]
  simp only [dropWhile_token blanks (show isSpace ':' = false by decide), first, others]

theorem readMembers_close (blanks : Blanks ws) :
    readMembers (fuel + 1) (ws ++ '\x7d' :: rest) = (.close, some rest) := by
  rw [readMembers, dropWhile_token blanks (by decide)]
  rfl

theorem readMembers_more (blanks : Blanks ws) (inside : Blanks ws') :
    readMembers (fuel + 1) (ws ++ ',' :: (ws' ++ '"' :: text)) = readMember fuel text := by
  rw [readMembers, dropWhile_token blanks (by decide)]
  simp only [dropWhile_token inside (show isSpace '"' = false by decide)]

end Steps

/-! ## What is spelled is read -/

/-- A number ends before blanks. -/
theorem ends_blanks {ws rest : List Char} (blanks : Blanks ws) (ends : Ends rest) :
    Ends (ws ++ rest) := by
  cases ws with
  | nil => exact ends
  | cons c ws =>
    rintro _ ⟨⟩
    have space := blanks c List.mem_cons_self
    simp only [isSpace, Bool.or_eq_true, decide_eq_true_eq] at space
    rcases space with ((rfl | rfl) | rfl) | rfl <;> decide

theorem Elements.Spelled.ends {items : Elements} {text : List Char} (h : items.Spelled text)
    (rest : List Char) : Ends (text ++ rest) := by
  cases h with
  | close blanks =>
    rw [List.append_assoc]
    exact ends_blanks blanks (ends_bracket rest)
  | more blanks =>
    rw [List.append_assoc]
    exact ends_blanks blanks (ends_comma _)

theorem Members.Spelled.ends {members : Members} {text : List Char} (h : members.Spelled text)
    (rest : List Char) : Ends (text ++ rest) := by
  cases h with
  | close blanks =>
    rw [List.append_assoc]
    exact ends_blanks blanks (ends_brace rest)
  | more blanks =>
    rw [List.append_assoc]
    exact ends_blanks blanks (ends_comma _)

mutual

theorem Tree.Spelled.read : ∀ {t : Tree} {text : List Char}, t.Spelled text →
    ∀ (fuel : ℕ) (rest : List Char), (text ++ rest).length ≤ fuel → Ends rest →
      readTree fuel (text ++ rest) = (t, some rest)
  | _, _, .scalar blanks scalar, fuel, rest, enough, ends => by
    obtain ⟨lexeme', cut, again⟩ := readScalar_lexeme scalar
    rw [List.append_nil] at cut
    subst cut
    obtain ⟨c, tail, rfl, -⟩ := readScalar_cons scalar
    rw [List.append_assoc] at enough ⊢
    rw [readTree_blanks blanks]
    obtain ⟨fuel, rfl⟩ : ∃ k, fuel = k + 1 := ⟨fuel - 1, by
      simp only [List.length_append, List.length_cons] at enough
      omega⟩
    exact readTree_scalar (again rest ends)
  | _, _, .noItems blanks inside, fuel, rest, enough, ends => by
    simp only [List.append_assoc, List.cons_append, List.nil_append, List.length_append,
      List.length_cons] at enough ⊢
    rw [readTree_blanks blanks]
    obtain ⟨fuel, rfl⟩ : ∃ k, fuel = k + 1 := ⟨fuel - 1, by omega⟩
    exact readTree_noItems inside
  | _, _, .items blanks first others, fuel, rest, enough, ends => by
    simp only [List.append_assoc, List.cons_append, List.length_append, List.length_cons]
      at enough ⊢
    rw [readTree_blanks blanks]
    obtain ⟨fuel, rfl⟩ : ∃ k, fuel = k + 1 := ⟨fuel - 1, by omega⟩
    have head := first.read fuel _ (by simp only [List.length_append]; omega)
      (others.ends rest)
    have tail := others.read fuel rest (by simp only [List.length_append]; omega)
    obtain ⟨ws', c, item, rfl, blanks', space, bracket⟩ := first.cons
    rw [List.append_assoc, List.cons_append] at head ⊢
    exact readTree_items blanks' space bracket head tail
  | _, _, .noMembers blanks inside, fuel, rest, enough, ends => by
    simp only [List.append_assoc, List.cons_append, List.nil_append, List.length_append,
      List.length_cons] at enough ⊢
    rw [readTree_blanks blanks]
    obtain ⟨fuel, rfl⟩ : ∃ k, fuel = k + 1 := ⟨fuel - 1, by omega⟩
    exact readTree_noMembers inside
  | _, _, .members blanks inside opened, fuel, rest, enough, ends => by
    simp only [List.append_assoc, List.cons_append, List.length_append, List.length_cons]
      at enough ⊢
    rw [readTree_blanks blanks]
    obtain ⟨fuel, rfl⟩ : ∃ k, fuel = k + 1 := ⟨fuel - 1, by omega⟩
    rw [readTree_members inside,
      opened.read fuel rest (by simp only [List.length_append]; omega)]

theorem Elements.Spelled.read : ∀ {items : Elements} {text : List Char}, items.Spelled text →
    ∀ (fuel : ℕ) (rest : List Char), (text ++ rest).length ≤ fuel →
      readElements fuel (text ++ rest) = (items, some rest)
  | _, _, .close blanks, fuel, rest, enough => by
    simp only [List.append_assoc, List.cons_append, List.nil_append, List.length_append,
      List.length_cons] at enough ⊢
    obtain ⟨fuel, rfl⟩ : ∃ k, fuel = k + 1 := ⟨fuel - 1, by omega⟩
    exact readElements_close blanks
  | _, _, .more blanks first others, fuel, rest, enough => by
    simp only [List.append_assoc, List.cons_append, List.length_append, List.length_cons]
      at enough ⊢
    obtain ⟨fuel, rfl⟩ : ∃ k, fuel = k + 1 := ⟨fuel - 1, by omega⟩
    exact readElements_more blanks
      (first.read fuel _ (by simp only [List.length_append]; omega) (others.ends rest))
      (others.read fuel rest (by simp only [List.length_append]; omega))

theorem Members.Opened.read : ∀ {members : Members} {text : List Char}, members.Opened text →
    ∀ (fuel : ℕ) (rest : List Char), (text ++ rest).length ≤ fuel →
      readMember fuel (text ++ rest) = (members, some rest)
  | _, _, .more scanned blanks first others, fuel, rest, enough => by
    obtain ⟨lexeme', cut, again⟩ := scanString_lexeme scanned
    rw [List.append_nil] at cut
    subst cut
    simp only [List.append_assoc, List.cons_append, List.length_append, List.length_cons]
      at enough ⊢
    obtain ⟨fuel, rfl⟩ : ∃ k, fuel = k + 1 := ⟨fuel - 1, by omega⟩
    exact readMember_more (again _) blanks
      (first.read fuel _ (by simp only [List.length_append]; omega) (others.ends rest))
      (others.read fuel rest (by simp only [List.length_append]; omega))

theorem Members.Spelled.read : ∀ {members : Members} {text : List Char}, members.Spelled text →
    ∀ (fuel : ℕ) (rest : List Char), (text ++ rest).length ≤ fuel →
      readMembers fuel (text ++ rest) = (members, some rest)
  | _, _, .close blanks, fuel, rest, enough => by
    simp only [List.append_assoc, List.cons_append, List.nil_append, List.length_append,
      List.length_cons] at enough ⊢
    obtain ⟨fuel, rfl⟩ : ∃ k, fuel = k + 1 := ⟨fuel - 1, by omega⟩
    exact readMembers_close blanks
  | _, _, .more blanks inside opened, fuel, rest, enough => by
    simp only [List.append_assoc, List.cons_append, List.length_append, List.length_cons]
      at enough ⊢
    obtain ⟨fuel, rfl⟩ : ∃ k, fuel = k + 1 := ⟨fuel - 1, by omega⟩
    rw [readMembers_more blanks inside]
    exact opened.read fuel rest (by simp only [List.length_append]; omega)

end

/-! ## What is read is spelled -/

/-- The blanks at the beginning of a text, and its first token. -/
theorem exists_blanks (text : List Char) :
    ∃ ws, Blanks ws ∧ text = ws ++ text.dropWhile isSpace :=
  ⟨text.takeWhile isSpace, fun _ hc => List.mem_takeWhile_imp hc,
    List.takeWhile_append_dropWhile.symm⟩

mutual

theorem spelled_of_readTree : ∀ {fuel : ℕ} {text rest : List Char} {t : Tree},
    readTree fuel text = (t, some rest) → ∃ front, text = front ++ rest ∧ t.Spelled front
  | 0, _, _, _, h => by cases h
  | fuel + 1, text, rest, t, h => by
    obtain ⟨ws, blanks, cut⟩ := exists_blanks text
    rw [readTree] at h
    generalize text.dropWhile isSpace = token at h cut
    subst cut
    split at h
    · next inner =>
      obtain ⟨ws', inside, cut⟩ := exists_blanks inner
      split at h
      · cases h
      · next after close =>
        cases h
        rw [close] at cut
        subst cut
        exact ⟨_, by simp, .noItems blanks inside⟩
      · have same := readTree_dropWhile fuel inner
        split at h
        next head left first =>
          rw [first] at same
          split at h
          · cases h
          · next after =>
            obtain ⟨front, rfl, spelled⟩ := spelled_of_readTree same.symm
            split at h
            next tail left others =>
              cases h
              obtain ⟨front', rfl, spelled'⟩ := spelled_of_readElements others
              exact ⟨_, by simp, .items blanks spelled spelled'⟩
    · next inner =>
      obtain ⟨ws', inside, cut⟩ := exists_blanks inner
      split at h
      · cases h
      · next after close =>
        cases h
        rw [close] at cut
        subst cut
        exact ⟨_, by simp, .noMembers blanks inside⟩
      · next name quote =>
        rw [quote] at cut
        subst cut
        split at h
        next members left read =>
          cases h
          obtain ⟨front, rfl, opened⟩ := spelled_of_readMember read
          exact ⟨_, by simp, .members blanks inside opened⟩
      · cases h
    · obtain ⟨lexeme, rfl, again⟩ := readScalar_lexeme h
      have scalar := again [] ends_nil
      rw [List.append_nil] at scalar
      exact ⟨ws ++ lexeme, by simp, .scalar blanks scalar⟩

theorem spelled_of_readElements : ∀ {fuel : ℕ} {text rest : List Char} {items : Elements},
    readElements fuel text = (items, some rest) →
      ∃ front, text = front ++ rest ∧ items.Spelled front
  | 0, _, _, _, h => by cases h
  | fuel + 1, text, rest, items, h => by
    obtain ⟨ws, blanks, cut⟩ := exists_blanks text
    rw [readElements] at h
    generalize text.dropWhile isSpace = token at h cut
    subst cut
    split at h
    · cases h
    · cases h
      exact ⟨_, by simp, .close blanks⟩
    · next inner =>
      split at h
      next head left first =>
        split at h
        · cases h
        · next after =>
          obtain ⟨front, rfl, spelled⟩ := spelled_of_readTree first
          split at h
          next tail left others =>
            cases h
            obtain ⟨front', rfl, spelled'⟩ := spelled_of_readElements others
            exact ⟨_, by simp, .more blanks spelled spelled'⟩
    · cases h

theorem spelled_of_readMember : ∀ {fuel : ℕ} {text rest : List Char} {members : Members},
    readMember fuel text = (members, some rest) →
      ∃ front, text = front ++ rest ∧ members.Opened front
  | 0, _, _, _, h => by cases h
  | fuel + 1, text, rest, members, h => by
    rw [readMember] at h
    split at h
    · cases h
    · next name after scanned =>
      obtain ⟨lexeme, rfl, again⟩ := scanString_lexeme scanned
      have alone := again []
      rw [List.append_nil] at alone
      obtain ⟨ws, blanks, cut⟩ := exists_blanks after
      generalize after.dropWhile isSpace = token at h cut
      subst cut
      split at h
      · cases h
      · next inner =>
        split at h
        next value left first =>
          split at h
          · cases h
          · next after =>
            obtain ⟨front, rfl, spelled⟩ := spelled_of_readTree first
            split at h
            next tail left others =>
              cases h
              obtain ⟨front', rfl, spelled'⟩ := spelled_of_readMembers others
              exact ⟨_, by simp, .more alone blanks spelled spelled'⟩
      · cases h

theorem spelled_of_readMembers : ∀ {fuel : ℕ} {text rest : List Char} {members : Members},
    readMembers fuel text = (members, some rest) →
      ∃ front, text = front ++ rest ∧ members.Spelled front
  | 0, _, _, _, h => by cases h
  | fuel + 1, text, rest, members, h => by
    obtain ⟨ws, blanks, cut⟩ := exists_blanks text
    rw [readMembers] at h
    generalize text.dropWhile isSpace = token at h cut
    subst cut
    split at h
    · cases h
    · cases h
      exact ⟨_, by simp, .close blanks⟩
    · next inner =>
      obtain ⟨ws', inside, cut⟩ := exists_blanks inner
      split at h
      · cases h
      · next name quote =>
        rw [quote] at cut
        subst cut
        obtain ⟨front, rfl, opened⟩ := spelled_of_readMember h
        exact ⟨_, by simp, .more blanks inside opened⟩
      · cases h
    · cases h

end

/-! ## Whole texts -/

/-- The tree of a text that is whole is the one whose tokens it holds. -/
theorem read_iff_laidOut {text : List Char} {t : Tree} :
    Document.read text = ⟨t, true⟩ ↔ t.LaidOut text := by
  constructor
  · intro h
    rw [Document.read] at h
    split at h
    · next tree rest read =>
      rw [Document.mk.injEq] at h
      obtain ⟨rfl, blank⟩ := h
      obtain ⟨front, rfl, spelled⟩ := spelled_of_readTree read
      exact ⟨front, rest, rfl, spelled, List.all_eq_true.1 blank⟩
    · simp at h
  · rintro ⟨front, ws, rfl, spelled, blanks⟩
    have ends : Ends ws := by simpa using ends_blanks blanks ends_nil
    have read := spelled.read ((front ++ ws).length + 1) ws (by omega) ends
    rw [Document.read, read]
    exact congrArg (Document.mk t) (List.all_eq_true.2 blanks)

/-- Texts are decoded as the trees whose tokens they hold. -/
theorem read_eq_ok_iff_laidOut {α : Type} {c : Codec α} {text : String} {a : α} :
    c.read text = .ok a ↔
      ∃ t : Tree, t.LaidOut text.toList ∧ c.decode .text maxDepth t = .ok a := by
  rw [read_eq_ok]
  constructor
  · rintro ⟨decoded, complete⟩
    refine ⟨_, read_iff_laidOut.1 ?_, decoded⟩
    rw [← complete]
  · rintro ⟨t, laidOut, decoded⟩
    rw [read_iff_laidOut.2 laidOut]
    exact ⟨decoded, rfl⟩

end TxRelay.Json
