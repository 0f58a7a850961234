import Mathlib.Tactic
import TxRelay.Json.Codec
import TxRelay.Proofs.Except
import TxRelay.Proofs.Json.Written

/-!
# Free values

A free value holds its members sorted by name, one member a name, and nests no deeper than the tree
it was read from may. Reading a value freely sorts its members and changes nothing else; a value that
is sorted already comes back as it was.

Results:
* `sortedMembers_perm`: sorting members of different names only puts them in another order.
* `free_tree`: read freely, the tree of a value gives the value with its members sorted.
* `free_eq_ok`: what is read freely is sorted, and its numbers come from the tree.
* `numbers_read`: the integers of a text are within the 64-bit ranges.
-/

namespace TxRelay.Json

open TxRelay.Except

/-! ## Sorted entries -/

section Sorted

variable {α : Type} {name : String} {v : α} {entries : List (String × α)}

/-- Entries in the order of their names, one a name. -/
def Ascending (entries : List (String × α)) : Prop :=
  entries.Pairwise fun m n => m.1 < n.1

theorem mem_insertSorted {m : String × α} (h : m ∈ insertSorted name v entries) :
    m = (name, v) ∨ m ∈ entries := by
  induction entries with
  | nil => simpa [insertSorted] using h
  | cons n entries ih =>
    obtain ⟨other, w⟩ := n
    rw [insertSorted] at h
    split_ifs at h with before same
    · simpa using h
    · rcases List.mem_cons.1 h with rfl | h
      · exact .inl rfl
      · exact .inr (List.mem_cons_of_mem _ h)
    · rcases List.mem_cons.1 h with rfl | h
      · exact .inr List.mem_cons_self
      · exact (ih h).imp_right (List.mem_cons_of_mem _)

theorem ascending_insertSorted (h : Ascending entries) : Ascending (insertSorted name v entries) := by
  induction entries with
  | nil => exact List.pairwise_singleton _ _
  | cons n entries ih =>
    obtain ⟨other, w⟩ := n
    obtain ⟨least, sorted⟩ := List.pairwise_cons.1 h
    rw [insertSorted]
    split_ifs with before same
    · refine List.pairwise_cons.2 ⟨fun m hm => ?_, h⟩
      rcases List.mem_cons.1 hm with rfl | hm
      · exact before
      · exact String.lt_trans before (least m hm)
    · subst same
      exact List.pairwise_cons.2 ⟨least, sorted⟩
    · refine List.pairwise_cons.2 ⟨fun m hm => ?_, ih sorted⟩
      rcases mem_insertSorted hm with rfl | hm
      · exact Std.lt_of_le_of_ne (String.not_lt.1 before) (Ne.symm same)
      · exact least m hm

theorem insertSorted_perm (fresh : name ∉ entries.map Prod.fst) :
    (insertSorted name v entries).Perm ((name, v) :: entries) := by
  induction entries with
  | nil => rfl
  | cons n entries ih =>
    obtain ⟨other, w⟩ := n
    simp only [List.map_cons, List.mem_cons, not_or] at fresh
    rw [insertSorted, if_neg fresh.1]
    split_ifs
    · rfl
    · exact ((ih fresh.2).cons _).trans (List.Perm.swap _ _ _)

/-- Entries put at their places among sorted ones, one after the other. -/
def insertAll (entries done : List (String × α)) : List (String × α) :=
  entries.foldl (fun done m => insertSorted m.1 m.2 done) done

theorem mem_insertAll {done : List (String × α)} {m : String × α} (h : m ∈ insertAll entries done) :
    m ∈ entries ∨ m ∈ done := by
  induction entries generalizing done with
  | nil => exact .inr h
  | cons n entries ih =>
    rcases ih h with h | h
    · exact .inl (List.mem_cons_of_mem n h)
    · exact (mem_insertSorted h).imp_left fun same => List.mem_cons.2 (.inl same)

theorem ascending_insertAll {done : List (String × α)} (h : Ascending done) :
    Ascending (insertAll entries done) := by
  induction entries generalizing done with
  | nil => exact h
  | cons m entries ih => exact ih (ascending_insertSorted h)

/-- Entries of different names are only put in another order. -/
theorem insertAll_perm {done : List (String × α)}
    (distinct : ((done ++ entries).map Prod.fst).Nodup) :
    (insertAll entries done).Perm (done ++ entries) := by
  induction entries generalizing done with
  | nil => simp [insertAll]
  | cons m entries ih =>
    have fresh : m.1 ∉ done.map Prod.fst := by
      simp only [List.map_append, List.map_cons, List.nodup_append] at distinct
      exact fun hm => distinct.2.2 m.1 hm m.1 List.mem_cons_self rfl
    have moved : (insertSorted m.1 m.2 done ++ entries).Perm (done ++ m :: entries) :=
      ((insertSorted_perm fresh).append_right entries).trans List.perm_middle.symm
    exact (ih ((moved.map Prod.fst).nodup_iff.2 distinct)).trans moved

theorem Ascending.nodup (h : Ascending entries) : (entries.map Prod.fst).Nodup := by
  rw [List.Nodup, List.pairwise_map]
  exact h.imp fun {m n} less (same : m.1 = n.1) => String.lt_irrefl n.1 (same ▸ less)

/-- Sorted entries are determined by what they are. -/
theorem Ascending.eq_of_perm {others : List (String × α)} (h : Ascending entries)
    (h' : Ascending others) (perm : entries.Perm others) : entries = others :=
  perm.eq_of_pairwise (fun _ _ _ _ less more => (String.lt_irrefl _ (String.lt_trans less more)).elim)
    h h'

theorem insertAll_of_ascending (h : Ascending entries) {others : List (String × α)}
    (perm : others.Perm entries) : insertAll others [] = entries :=
  have distinct : (others.map Prod.fst).Nodup := (perm.map Prod.fst).nodup_iff.2 h.nodup
  (ascending_insertAll .nil).eq_of_perm h ((insertAll_perm distinct).trans perm)

end Sorted

/-! ## The shape of values -/

/-- A value nests at most so deep, and the names of each object are of one kind. -/
inductive Value.Within (kind : List String → Prop) : ℕ → Value → Prop
  | null {depth} : Within kind depth .null
  | bool {depth} (b : Bool) : Within kind depth (.bool b)
  | number {depth} (n : Number) : Within kind depth (.number n)
  | string {depth} (s : String) : Within kind depth (.string s)
  | array {depth items} (h : ∀ v ∈ items, Within kind depth v) :
    Within kind (depth + 1) (.array items)
  | object {depth members} (names : kind (members.map Prod.fst))
      (h : ∀ m ∈ members, Within kind depth m.2) : Within kind (depth + 1) (.object members)

/-- A value that nests at most so deep. -/
abbrev Value.Shallow : ℕ → Value → Prop :=
  Value.Within fun _ => True

/-- A value that nests at most so deep, the members of each object sorted by name. -/
abbrev Value.Free : ℕ → Value → Prop :=
  Value.Within fun names => names.Pairwise (· < ·)

theorem Value.Free.shallow {depth : ℕ} {v : Value} (h : v.Free depth) : v.Shallow depth := by
  induction h with
  | null => exact .null
  | bool b => exact .bool b
  | number n => exact .number n
  | string s => exact .string s
  | array _ ih => exact .array ih
  | object _ _ ih => exact .object trivial ih

/-! ## Sorting -/

theorem sortedItems_eq (items : List Value) : sortedItems items = items.map Value.sorted := by
  induction items with
  | nil => rfl
  | cons v items ih => rw [sortedItems, ih, List.map_cons]

/-- A member with its value sorted. -/
def sortedMember (m : String × Value) : String × Value :=
  (m.1, m.2.sorted)

theorem sortedMembers_eq (members done : List (String × Value)) :
    sortedMembers members done = insertAll (members.map sortedMember) done := by
  induction members generalizing done with
  | nil => rfl
  | cons m members ih => exact ih _

/-- Sorting members of different names only puts them in another order. -/
theorem sortedMembers_perm {members : List (String × Value)}
    (distinct : (members.map Prod.fst).Nodup) :
    (sortedMembers members []).Perm (members.map sortedMember) := by
  rw [sortedMembers_eq]
  refine insertAll_perm ?_
  rwa [List.nil_append, List.map_map]

theorem sortedMembers_of_ascending {members : List (String × Value)} (h : Ascending members) :
    sortedMembers members [] = members.map sortedMember := by
  have sorted : Ascending (members.map sortedMember) := List.pairwise_map.2 h
  rw [sortedMembers_eq, insertAll_of_ascending sorted (.refl _)]

/-- Every member that is sorted in is the sorted form of one. -/
theorem mem_sortedMembers {members : List (String × Value)} {n : String × Value}
    (h : n ∈ sortedMembers members []) : ∃ m ∈ members, sortedMember m = n := by
  rw [sortedMembers_eq] at h
  exact List.mem_map.1 ((mem_insertAll h).resolve_right List.not_mem_nil)

theorem ascending_sortedMembers (members : List (String × Value)) :
    Ascending (sortedMembers members []) := by
  rw [sortedMembers_eq]
  exact ascending_insertAll .nil

theorem free_sorted {depth : ℕ} {v : Value} (h : v.Shallow depth) : v.sorted.Free depth := by
  induction h with
  | null => exact .null
  | bool b => exact .bool b
  | number n => exact .number n
  | string s => exact .string s
  | array _ ih =>
    rw [Value.sorted, sortedItems_eq]
    refine .array fun v hv => ?_
    obtain ⟨w, hw, rfl⟩ := List.mem_map.1 hv
    exact ih w hw
  | object _ _ ih =>
    refine .object (List.pairwise_map.2 (ascending_sortedMembers _)) fun n hn => ?_
    obtain ⟨m, hm, rfl⟩ := mem_sortedMembers hn
    exact ih m hm

/-- Sorting changes nothing in a free value. -/
theorem sorted_eq_self {depth : ℕ} {v : Value} (h : v.Free depth) : v.sorted = v := by
  induction h with
  | null | bool | number | string => rfl
  | array _ ih => rw [Value.sorted, sortedItems_eq, List.map_congr_left ih, List.map_id']
  | @object depth members names _ ih =>
    have same : ∀ m ∈ members, sortedMember m = m := fun m hm => by rw [sortedMember, ih m hm]
    rw [Value.sorted, sortedMembers_of_ascending (List.pairwise_map.1 names),
      List.map_congr_left same, List.map_id']

theorem numbers_sorted {P : Number → Prop} {v : Value} (h : v.Numbers P) : v.sorted.Numbers P := by
  induction h with
  | null => exact .null
  | bool b => exact .bool b
  | number h => exact .number h
  | string s => exact .string s
  | array _ ih =>
    rw [Value.sorted, sortedItems_eq]
    refine .array fun v hv => ?_
    obtain ⟨w, hw, rfl⟩ := List.mem_map.1 hv
    exact ih w hw
  | object _ ih =>
    refine .object fun n hn => ?_
    obtain ⟨m, hm, rfl⟩ := mem_sortedMembers hn
    exact ih m hm

/-! ## Reading freely -/

theorem free_itemsTree {depth : ℕ} {items : List Value}
    (h : ∀ v ∈ items, v.tree.free depth = .ok v.sorted) :
    (itemsTree items).free depth = .ok (sortedItems items) := by
  induction items with
  | nil => rfl
  | cons v items ih =>
    rw [itemsTree, Elements.free, h v List.mem_cons_self,
      ih fun w hw => h w (List.mem_cons_of_mem v hw)]
    rfl

theorem free_membersTree {depth : ℕ} {members done : List (String × Value)}
    (h : ∀ m ∈ members, m.2.tree.free depth = .ok m.2.sorted) :
    (membersTree members).free depth done = .ok (sortedMembers members done) := by
  induction members generalizing done with
  | nil => rfl
  | cons m members ih =>
    obtain ⟨name, v⟩ := m
    rw [membersTree, Members.free, h (name, v) List.mem_cons_self, sortedMembers,
      ← ih fun n hn => h n (List.mem_cons_of_mem _ hn)]
    rfl

/-- Read freely, the tree of a value gives the value with its members sorted. -/
theorem free_tree {depth : ℕ} {v : Value} (h : v.Shallow depth) :
    v.tree.free depth = .ok v.sorted := by
  induction h with
  | null | bool | number | string => rfl
  | array _ ih => rw [Value.tree, Tree.free, free_itemsTree ih]; rfl
  | object _ _ ih => rw [Value.tree, Tree.free, free_membersTree ih]; rfl

/-- Read freely, a free value comes back. -/
theorem free_tree_self {depth : ℕ} {v : Value} (h : v.Free depth) : v.tree.free depth = .ok v := by
  rw [free_tree h.shallow, sorted_eq_self h]

/-! ## What is read freely -/

mutual

/-- Every number in a tree has a property, those out of range left aside. -/
def Tree.Numbers (P : Number → Prop) : Tree → Prop
  | .number (some n) => P n
  | .array items => items.Numbers P
  | .object members => members.Numbers P
  | .null | .bool _ | .number none | .string _ | .broken _ => True

/-- The same of what follows in an array. -/
def Elements.Numbers (P : Number → Prop) : Elements → Prop
  | .close | .stop _ => True
  | .more head rest => head.Numbers P ∧ rest.Numbers P

/-- The same of what follows in an object. -/
def Members.Numbers (P : Number → Prop) : Members → Prop
  | .close | .stop _ | .noName _ _ => True
  | .more _ value rest => value.Numbers P ∧ rest.Numbers P

end

mutual

/-- What is read freely is sorted, and its numbers are those of the tree. -/
theorem free_eq_ok {P : Number → Prop} {depth : ℕ} {v : Value} :
    ∀ {t : Tree}, t.free depth = .ok v → t.Numbers P → v.Free depth ∧ v.Numbers P
  | .null, h, _ => by
    cases h
    exact ⟨.null, .null⟩
  | .bool b, h, _ => by
    cases h
    exact ⟨.bool b, .bool b⟩
  | .number (some n), h, numbers => by
    cases h
    exact ⟨.number n, .number numbers⟩
  | .string (some s), h, _ => by
    cases h
    exact ⟨.string s, .string s⟩
  | .array items, h, numbers => by
    cases depth with
    | zero => cases h
    | succ depth =>
      obtain ⟨vs, read, rfl⟩ := map_eq_ok_iff.1 h
      have all := free_items_eq_ok read numbers
      exact ⟨.array fun v hv => (all v hv).1, .array fun v hv => (all v hv).2⟩
  | .object members, h, numbers => by
    cases depth with
    | zero => cases h
    | succ depth =>
      obtain ⟨ms, read, rfl⟩ := map_eq_ok_iff.1 h
      obtain ⟨sorted, all⟩ := free_members_eq_ok read numbers .nil (by simp)
      exact ⟨.object (List.pairwise_map.2 sorted) fun m hm => (all m hm).1,
        .object fun m hm => (all m hm).2⟩
  | .number none, h, _ | .string none, h, _ | .broken _, h, _ => by cases h

theorem free_items_eq_ok {P : Number → Prop} {depth : ℕ} {vs : List Value} :
    ∀ {items : Elements}, items.free depth = .ok vs → items.Numbers P →
      ∀ v ∈ vs, v.Free depth ∧ v.Numbers P
  | .close, h, _ => by
    cases h
    simp
  | .stop _, h, _ => by cases h
  | .more head rest, h, numbers => by
    simp only [Elements.free, bind_eq_ok_iff] at h
    obtain ⟨v, first, ws, others, made⟩ := h
    cases made
    exact List.forall_mem_cons.2
      ⟨free_eq_ok first numbers.1, free_items_eq_ok others numbers.2⟩

theorem free_members_eq_ok {P : Number → Prop} {depth : ℕ} {ms done : List (String × Value)} :
    ∀ {members : Members}, members.free depth done = .ok ms → members.Numbers P → Ascending done →
      (∀ m ∈ done, m.2.Free depth ∧ m.2.Numbers P) →
        Ascending ms ∧ ∀ m ∈ ms, m.2.Free depth ∧ m.2.Numbers P
  | .close, h, _, sorted, all => by
    cases h
    exact ⟨sorted, all⟩
  | .stop _, h, _, _, _ | .noName _ _, h, _, _, _ | .more none _ _, h, _, _, _ => by cases h
  | .more (some name) value rest, h, numbers, sorted, all => by
    simp only [Members.free, bind_eq_ok_iff] at h
    obtain ⟨v, first, others⟩ := h
    have good := free_eq_ok first numbers.1
    refine free_members_eq_ok others numbers.2 (ascending_insertSorted sorted) fun m hm => ?_
    rcases mem_insertSorted hm with rfl | hm
    · exact good
    · exact all m hm

end

/-! ## The numbers of a text -/

/-- A number that is no real number. -/
def Number.Integral : Number → Prop
  | .natural _ | .negative _ => True
  | .real _ => False

/-- An integer within the 64-bit ranges, or a real number. -/
def Number.Sound (n : Number) : Prop :=
  n.Integral → n.Exact

theorem unsignedBound_pos : 0 < unsignedBound :=
  Nat.pow_pos Nat.two_pos

theorem keep_lt {significand : ℕ} {digits : List Char} (small : significand < unsignedBound) :
    (keep significand digits).1 < unsignedBound := by
  induction digits generalizing significand with
  | nil => exact small
  | cons c digits ih =>
    rw [keep]
    split_ifs with next
    · exact ih next
    · exact small

theorem exact_of_integer? {numeral : Numeral} {n : Number} (h : numeral.integer? = some n) :
    n.Exact := by
  have small : (keep 0 numeral.whole).1 < unsignedBound := keep_lt unsignedBound_pos
  rw [Numeral.integer?] at h
  split at h
  next =>
    split at h
    next k kept =>
      rw [kept] at small
      split_ifs at h with plain fits
      · cases h
        exact small
      · cases h
        simp only [Bool.and_eq_true, decide_eq_true_eq] at fits
        exact fits
    next => cases h
  next => cases h

theorem sound_of_real? {numeral : Numeral} {n : Number} (h : numeral.real? = some n) :
    n.Sound := by
  obtain ⟨x, -, real⟩ := Option.bind_eq_some_iff.1 h
  cases real
  exact fun integral => integral.elim

theorem sound_of_value? {numeral : Numeral} {n : Number} (h : numeral.value? = some n) :
    n.Sound := by
  rw [Numeral.value?] at h
  split at h
  next integer =>
    cases h
    exact fun _ => exact_of_integer? integer
  next => exact sound_of_real? h

theorem numbers_readWord {word rest : List Char} {tree : Tree} (h : tree.Numbers Number.Sound) :
    (readScalar.readWord word tree rest).1.Numbers Number.Sound := by
  rw [readScalar.readWord]
  split
  · exact h
  · trivial

theorem numbers_readScalar (text : List Char) : (readScalar text).1.Numbers Number.Sound := by
  cases text with
  | nil => trivial
  | cons c rest =>
    rw [readScalar]
    split_ifs
    · split
      · trivial
      · trivial
    · split
      next numeral after scanned =>
        cases value : numeral.value? with
        | none => trivial
        | some n => exact sound_of_value? value
      next => trivial
    · exact numbers_readWord trivial
    · exact numbers_readWord trivial
    · exact numbers_readWord trivial
    · trivial

mutual

theorem numbers_readTree : ∀ (fuel : ℕ) (text : List Char),
    (readTree fuel text).1.Numbers Number.Sound
  | 0, _ => trivial
  | fuel + 1, text => by
    rw [readTree]
    split
    · split
      · trivial
      · trivial
      next rest _ _ _ _ =>
        have first := numbers_readTree fuel (rest.dropWhile isSpace)
        split
        next read =>
          rw [read] at first
          split
          · exact ⟨first, trivial⟩
          next after => exact ⟨first, numbers_readElements fuel after⟩
    · split
      · trivial
      · trivial
      · exact numbers_readMember fuel _
      · trivial
    · exact numbers_readScalar _

theorem numbers_readElements : ∀ (fuel : ℕ) (text : List Char),
    (readElements fuel text).1.Numbers Number.Sound
  | 0, _ => trivial
  | fuel + 1, text => by
    rw [readElements]
    split
    · trivial
    · trivial
    next rest _ =>
      have head := numbers_readTree fuel rest
      split
      next read =>
        rw [read] at head
        split
        · exact ⟨head, trivial⟩
        next after => exact ⟨head, numbers_readElements fuel after⟩
    · trivial

theorem numbers_readMember : ∀ (fuel : ℕ) (text : List Char),
    (readMember fuel text).1.Numbers Number.Sound
  | 0, _ => trivial
  | fuel + 1, text => by
    rw [readMember]
    split
    · trivial
    · split
      · exact ⟨trivial, trivial⟩
      next rest _ =>
        have value := numbers_readTree fuel rest
        split
        next read =>
          rw [read] at value
          split
          · exact ⟨value, trivial⟩
          next after => exact ⟨value, numbers_readMembers fuel after⟩
      · exact ⟨trivial, trivial⟩

theorem numbers_readMembers : ∀ (fuel : ℕ) (text : List Char),
    (readMembers fuel text).1.Numbers Number.Sound
  | 0, _ => trivial
  | fuel + 1, text => by
    rw [readMembers]
    split
    · trivial
    · trivial
    · split
      · trivial
      · exact numbers_readMember fuel _
      · trivial
    · trivial

end

/-- The integers of a text are within the 64-bit ranges. -/
theorem numbers_read (text : List Char) : (Document.read text).tree.Numbers Number.Sound := by
  have numbers := numbers_readTree (text.length + 1) text
  rw [Document.read]
  split
  next read => rwa [read] at numbers
  next read => rwa [read] at numbers

end TxRelay.Json
