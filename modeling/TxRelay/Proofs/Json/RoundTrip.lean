import Mathlib.Tactic
import TxRelay.Proofs.Json.Free
import TxRelay.Proofs.Json.Record

/-!
# What is written is read back

A codec keeps a value if what it writes nests no deeper than it may, spells every number exactly and
decodes to the value again, also after the members of its objects were put in another order. Each way
to build a codec keeps what its parts keep, so that a type's codec keeps a value by the very shape of
its declaration.

Results:
* `ofMembers_of_follows`: an object whose members give the fields of a record decodes to it.
* `keeps_record`: a record is kept if every field is; a field that is left out has to be the one that
  its absence stands for.
* `Codec.Keeps.recovers`: the text of a value that is kept is read as that value.
-/

namespace TxRelay.Json

open TxRelay.Except

variable {origin : Origin} {depth : ℕ}

/-! ## Reading the members of an object -/

namespace Fields

variable {β σ : Type}

theorem finish_of_follows {fields : Fields β σ} {slots : σ} {b : β}
    (h : fields.Follows origin depth .close slots b) : fields.finish slots = .ok b := by
  induction fields with
  | nil => rfl
  | cons f rest ih =>
    obtain ⟨slot, slots⟩ := slots
    obtain ⟨a, b⟩ := b
    have value : slot.or f.presence.inObject = some a := by
      cases slot with
      | none => exact h.1
      | some found => exact congrArg some h.1.2.symm
    rw [finish, value, ih h.2]
    rfl

theorem Follows.unpass {members : Members} {name : String} {tree : Tree} {fields : Fields β σ}
    {slots : σ} {b : β}
    (follows : fields.Follows origin depth (.more (some name) tree members) slots b)
    (other : name ∉ fields.names) : fields.Follows origin depth members slots b := by
  induction fields with
  | nil => trivial
  | cons f rest ih =>
    obtain ⟨slot, slots⟩ := slots
    obtain ⟨a, b⟩ := b
    simp only [names, List.mem_cons, not_or] at other
    have same : (Members.more (some name) tree members).named f.name = members.named f.name :=
      if_neg other.1
    refine ⟨?_, ih follows.2 other.2⟩
    rw [← same]
    exact follows.1

/-- A member that can be passed over is stored, and the others give the fields that are left. -/
theorem Follows.stored {members : Members} {name : String} {tree : Tree} {fields : Fields β σ}
    {slots : σ} {b : β} (distinct : fields.names.Nodup) (sound : tree.skip = .ok ())
    (follows : fields.Follows origin depth (.more (some name) tree members) slots b) :
    ∃ found, fields.store origin depth name tree slots = .ok found ∧
      fields.Follows origin depth members found b := by
  induction fields with
  | nil =>
    refine ⟨slots, ?_, trivial⟩
    rw [Fields.store, sound]
  | cons f rest ih =>
    obtain ⟨slot, slots⟩ := slots
    obtain ⟨a, b⟩ := b
    simp only [names, List.nodup_cons] at distinct
    obtain ⟨first, others⟩ := follows
    by_cases isName : name = f.name
    · subst isName
      have place : (Members.more (some f.name) tree members).named f.name =
          tree :: members.named f.name := if_pos rfl
      rw [place] at first
      cases slot with
      | some found => exact absurd first.1 (List.cons_ne_nil _ _)
      | none =>
        cases last : members.named f.name with
        | cons => simp [last, Field.Reads] at first
        | nil =>
          rw [last] at first
          refine ⟨(some a, slots), ?_, ⟨last, rfl⟩, others.unpass distinct.1⟩
          rw [Fields.store, if_pos rfl, show f.codec.decode origin depth tree = .ok a from first]
          rfl
    · obtain ⟨found, stored, left⟩ := ih distinct.2 others
      have same : (Members.more (some name) tree members).named f.name = members.named f.name :=
        if_neg isName
      rw [same] at first
      refine ⟨(slot, found), ?_, first, left⟩
      simp only [Fields.store, if_neg isName, stored, Except.map]

theorem ofMembers_of_follows {fields : Fields β σ} (distinct : fields.names.Nodup)
    {ms : List (String × Value)} {slots : σ} {b : β}
    (h : fields.Follows origin depth (membersTree ms) slots b) :
    fields.ofMembers origin depth slots (membersTree ms) = .ok b := by
  induction ms generalizing slots with
  | nil => exact finish_of_follows h
  | cons m ms ih =>
    obtain ⟨found, stored, left⟩ := h.stored distinct (skip_tree m.2)
    rw [membersTree, ofMembers, stored]
    exact ih left

end Fields

/-! ## Other orders of members -/

theorem named_membersTree (name : String) (ms : List (String × Value)) :
    (membersTree ms).named name = (ms.filter fun m => m.1 = name).map fun m => m.2.tree := by
  induction ms with
  | nil => rfl
  | cons m ms ih =>
    rw [membersTree, Members.named, List.filter_cons, ih]
    by_cases isName : m.1 = name <;> simp [isName]

theorem named_perm {ms ms' : List (String × Value)} (h : ms.Perm ms') (name : String) :
    ((membersTree ms).named name).Perm ((membersTree ms').named name) := by
  rw [named_membersTree, named_membersTree]
  exact (h.filter _).map _

theorem Field.Reads.perm {α : Type} {f : Field α} {place place' : List Tree} {a : α}
    (reads : f.Reads origin depth place a) (h : place.Perm place') :
    f.Reads origin depth place' a := by
  match place with
  | [] => rwa [← h.nil_eq]
  | [tree] => rwa [List.perm_singleton.1 h.symm]
  | _ :: _ :: _ => exact reads.elim

theorem Fields.Follows.perm {β σ : Type} {fields : Fields β σ} {ms ms' : List (String × Value)}
    {slots : σ} {b : β} (follows : fields.Follows origin depth (membersTree ms) slots b)
    (h : ms.Perm ms') : fields.Follows origin depth (membersTree ms') slots b := by
  induction fields with
  | nil => trivial
  | cons f rest ih =>
    obtain ⟨slot, slots⟩ := slots
    obtain ⟨a, b⟩ := b
    refine ⟨?_, ih follows.2⟩
    cases slot with
    | none => exact Field.Reads.perm follows.1 (named_perm h f.name)
    | some found =>
      have none := named_perm h f.name
      rw [follows.1.1] at none
      exact ⟨none.nil_eq.symm, follows.1.2⟩

/-- A way to put the members of objects in another order, at every level of a value. -/
structure Arrangement (arrange : Value → Value) : Prop where
  null : arrange .null = .null
  bool (b : Bool) : arrange (.bool b) = .bool b
  number (n : Number) : arrange (.number n) = .number n
  string (s : String) : arrange (.string s) = .string s
  array (items : List Value) : arrange (.array items) = .array (items.map arrange)
  object (members : List (String × Value)) (distinct : (members.map Prod.fst).Nodup) :
    ∃ ms, arrange (.object members) = .object ms ∧
      ms.Perm (members.map fun m => (m.1, arrange m.2))

/-- The order in which a value is written. -/
abbrev asWritten : Value → Value :=
  id

theorem arrangement_asWritten : Arrangement asWritten where
  null := rfl
  bool _ := rfl
  number _ := rfl
  string _ := rfl
  array items := by rw [List.map_id]; rfl
  object members _ := ⟨members, rfl, by simp⟩

theorem arrangement_sorted : Arrangement Value.sorted where
  null := rfl
  bool _ := rfl
  number _ := rfl
  string _ := rfl
  array items := by rw [Value.sorted, sortedItems_eq]
  object members distinct := ⟨_, rfl, sortedMembers_perm distinct⟩

/-! ## Codecs that keep a value -/

/-- What is written of a value can be read back, however its members are arranged. -/
structure Codec.Keeps {α : Type} (c : Codec α) (arrange : Value → Value) (depth : ℕ) (a : α) :
    Prop where
  exactly : (c.encode a).Exact
  shallow : (c.encode a).Shallow depth
  decodes (origin : Origin) : c.decode origin depth (arrange (c.encode a)).tree = .ok a

/-- The text of a value is decoded as its tree is. -/
theorem read_text {α : Type} {c : Codec α} {v : Value} {r : Except Error α} (exactly : v.Exact)
    (decoded : c.decode .text maxDepth v.tree = r) : c.read v.text = r := by
  rw [Codec.read, Value.text, String.toList_ofList, read_chars exactly, decoded]
  cases r <;> rfl

/-- The text of a value is read as that value. -/
def Codec.Recovers {α : Type} (c : Codec α) (a : α) : Prop :=
  c.read (c.write a) = .ok a

theorem Codec.Keeps.recovers {α : Type} {c : Codec α} {a : α}
    (kept : c.Keeps asWritten maxDepth a) : c.Recovers a :=
  read_text kept.exactly (kept.decodes .text)

/-! ## Scalars and free values -/

section Scalars

variable {α β : Type} {c : Codec α} {arrange : Value → Value}

theorem keeps_text (order : Arrangement arrange) (s : String) :
    Codec.text.Keeps arrange depth s where
  exactly := .string s
  shallow := .string s
  decodes _ := by rw [Codec.text, order.string]; rfl

theorem keeps_flag (order : Arrangement arrange) (b : Bool) : Codec.flag.Keeps arrange depth b where
  exactly := .bool b
  shallow := .bool b
  decodes _ := by rw [Codec.flag, order.bool]; rfl

theorem keeps_natural (order : Arrangement arrange) {expected : String} {n : ℕ}
    (small : n < unsignedBound) : (Codec.natural expected).Keeps arrange depth n where
  exactly := .number small
  shallow := .number _
  decodes _ := by
    rw [Codec.natural, order.number]
    exact if_pos small

/-- Inverse functions keep what they come back from. -/
theorem keeps_iso {forth : α → β} {back : β → α} {b : β} (kept : c.Keeps arrange depth (back b))
    (inverse : forth (back b) = b) : (c.iso forth back).Keeps arrange depth b where
  exactly := kept.exactly
  shallow := kept.shallow
  decodes origin := map_eq_ok_iff.2 ⟨back b, kept.decodes origin, inverse⟩

theorem keeps_word (order : Arrangement arrange) (w : UInt64) : Codec.word.Keeps arrange depth w :=
  keeps_iso (keeps_natural order w.toNat_lt) UInt64.ofNat_toNat

theorem keeps_size (order : Arrangement arrange) (w : UInt64) : Codec.size.Keeps arrange depth w :=
  keeps_iso (keeps_natural order w.toNat_lt) UInt64.ofNat_toNat

theorem keeps_integer (order : Arrangement arrange) (i : Int64) :
    Codec.integer.Keeps arrange depth i := by
  have whole : Int64.ofInt i.toInt = i := i.ofInt_toInt
  have least : -2 ^ 63 ≤ i.toInt := i.le_toInt
  have most : i.toInt < 2 ^ 63 := i.toInt_lt
  cases sign : i.toInt with
  | ofNat n =>
    rw [sign] at whole most
    have fits : n < negativeBound := by
      rw [negativeBound]
      exact Int.ofNat_lt.1 most
    have written : Codec.integer.encode i = .number (.natural n) := by simp [Codec.integer, sign]
    refine ⟨?_, ?_, fun _ => ?_⟩ <;> rw [written]
    · exact .number (fits.trans (by decide))
    · exact .number _
    · rw [order.number]
      exact (if_pos fits).trans (congrArg Except.ok whole)
  | negSucc n =>
    rw [sign] at whole least
    rw [← Int.neg_ofNat_succ] at whole
    have fits : n + 1 ≤ negativeBound := by
      rw [negativeBound]
      have := Int.neg_le_neg least
      rw [Int.neg_negSucc, neg_neg] at this
      exact Int.ofNat_le.1 this
    have written : Codec.integer.encode i = .number (.negative (n + 1)) := by
      simp [Codec.integer, sign]
    refine ⟨?_, ?_, fun _ => ?_⟩ <;> rw [written]
    · exact .number ⟨n.succ_pos, fits⟩
    · exact .number _
    · rw [order.number]
      exact (if_pos fits).trans (congrArg Except.ok whole)

/-- A choice is kept if its name finds it. -/
theorem keeps_choice (order : Arrangement arrange) {all : List α} {name : α → String} {a : α}
    (found : all.find? (fun b => name b = name a) = some a) :
    (Codec.choice all name).Keeps arrange depth a where
  exactly := .string _
  shallow := .string _
  decodes _ := by
    rw [Codec.choice, order.string]
    simp only [Value.tree, Codec.variant, found]

/-- A free value is kept, unless it is arranged anew. -/
theorem keeps_free {v : Value} (free : v.Free depth) (exactly : v.Exact) :
    Codec.free.Keeps asWritten depth v where
  exactly := exactly
  shallow := free.shallow
  decodes _ := free_tree_self free

end Scalars

/-! ## Values that may be absent, lists and maps -/

section Containers

variable {α : Type} {c : Codec α} {arrange : Value → Value}

theorem keeps_none (order : Arrangement arrange) : c.optional.Keeps arrange depth none where
  exactly := .null
  shallow := .null
  decodes _ := by rw [Codec.optional, order.null]; rfl

/-- A value that is there is kept if null is not read as that value. -/
theorem keeps_some {a : α} (kept : c.Keeps arrange depth a)
    (apart : c.decode .text depth .null ≠ .ok a) : c.optional.Keeps arrange depth (some a) where
  exactly := kept.exactly
  shallow := kept.shallow
  decodes origin := by
    cases tree : (arrange (c.encode a)).tree with
    | null => exact absurd (tree ▸ kept.decodes .text) apart
    | bool | number | string | array | object | broken =>
      have decoded := kept.decodes origin
      rw [tree] at decoded
      rw [Codec.optional]
      simp only [tree, decoded, Except.map]

theorem keeps_optional (order : Arrangement arrange) {a : Option α}
    (kept : ∀ v ∈ a, c.Keeps arrange depth v)
    (apart : ∀ v, c.decode .text depth .null ≠ .ok v) : c.optional.Keeps arrange depth a := by
  cases a with
  | none => exact keeps_none order
  | some v => exact keeps_some (kept v rfl) (apart v)

theorem keeps_textOrNull (order : Arrangement arrange) (s : Option String) :
    Codec.text.optional.Keeps arrange depth s :=
  keeps_optional order (fun s _ => keeps_text order s) nofun

theorem decodeItems_itemsTree {item : Tree → Except Error α} {vs : List Value} {as : List α}
    (decoded : List.Forall₂ (fun v a => item v.tree = .ok a) vs as) :
    Codec.decodeItems item (itemsTree vs) = .ok as := by
  induction decoded with
  | nil => rfl
  | cons first _ ih =>
    rw [itemsTree, Codec.decodeItems, first, ih]
    rfl

theorem keeps_list (order : Arrangement arrange) {as : List α}
    (kept : ∀ a ∈ as, c.Keeps arrange depth a) : c.list.Keeps arrange (depth + 1) as where
  exactly := .array (by simpa [Codec.list] using fun a ha => (kept a ha).exactly)
  shallow := .array (by simpa using fun a ha => (kept a ha).shallow)
  decodes origin := by
    rw [Codec.list, order.array, List.map_map]
    exact decodeItems_itemsTree <| List.forall₂_map_left_iff.2 <|
      List.forall₂_same.2 fun a ha => (kept a ha).decodes origin

/-- Entries are decoded in whatever order they come. -/
theorem decodeEntries_membersTree {entries done : List (String × α)} {ms : List (String × Value)}
    (decoded : List.Forall₂ (fun m e => m.1 = e.1 ∧ c.decode origin depth m.2.tree = .ok e.2)
      ms entries) :
    Codec.decodeEntries (c.decode origin depth) done (membersTree ms) =
      .ok (insertAll entries done) := by
  induction decoded generalizing done with
  | nil => rfl
  | @cons m e ms entries first _ ih =>
    rw [membersTree, Codec.decodeEntries, first.2, first.1]
    exact ih

theorem keeps_map (order : Arrangement arrange) {entries : List (String × α)}
    (sorted : Ascending entries) (kept : ∀ m ∈ entries, c.Keeps arrange depth m.2) :
    c.map.Keeps arrange (depth + 1) entries where
  exactly := .object (List.forall_mem_map.2 fun m hm => (kept m hm).exactly)
  shallow := .object trivial (List.forall_mem_map.2 fun m hm => (kept m hm).shallow)
  decodes origin := by
    have distinct : ((entries.map fun m => (m.1, c.encode m.2)).map Prod.fst).Nodup := by
      rw [List.map_map]
      exact sorted.nodup
    obtain ⟨ms, arranged, perm⟩ := order.object _ distinct
    rw [List.map_map] at perm
    -- The members decode, in the order in which they now stand, to entries in that order.
    have each : List.Forall₂ (fun m e => m.1 = e.1 ∧ c.decode origin depth m.2.tree = .ok e.2)
        (entries.map fun m => (m.1, arrange (c.encode m.2))) entries :=
      List.forall₂_map_left_iff.2 <|
        List.forall₂_same.2 fun m hm => ⟨rfl, (kept m hm).decodes origin⟩
    obtain ⟨others, decoded, moved⟩ := List.perm_comp_forall₂ perm each
    rw [Codec.map, arranged]
    refine (decodeEntries_membersTree decoded).trans ?_
    rw [insertAll_of_ascending sorted moved]

end Containers

/-! ## Records -/

/-- A field is kept, and if its value is left out, then it is the one that its absence stands for. -/
structure Field.Keeps {α : Type} (f : Field α) (arrange : Value → Value) (depth : ℕ) (a : α) :
    Prop where
  kept : f.codec.Keeps arrange depth a
  omitted : f.hidden a = true → f.presence.inObject = some a

/-- A field that is never left out is kept as its codec keeps it. -/
theorem Field.Keeps.shown {α : Type} {f : Field α} {arrange : Value → Value} {a : α}
    (kept : f.codec.Keeps arrange depth a) (always : f.hidden a = false) :
    f.Keeps arrange depth a where
  kept := kept
  omitted hidden := absurd hidden (by simp [always])

/-- Leaving out a missing value is undone if it is what an absence stands for. -/
theorem Field.Keeps.hide_isNone {α : Type} {f : Field (Option α)} {arrange : Value → Value}
    {a : Option α} (kept : f.codec.Keeps arrange depth a)
    (absent : f.presence.inObject = some none) : (f.hide Option.isNone).Keeps arrange depth a where
  kept := kept
  omitted hidden := by
    rw [Option.isNone_iff_eq_none.1 hidden]
    exact absent

/-- The same of an empty list. -/
theorem Field.Keeps.hide_isEmpty {α : Type} {f : Field (List α)} {arrange : Value → Value}
    {as : List α} (kept : f.codec.Keeps arrange depth as)
    (absent : f.presence.inObject = some []) : (f.hide List.isEmpty).Keeps arrange depth as where
  kept := kept
  omitted hidden := by
    rw [List.isEmpty_iff.1 hidden]
    exact absent

namespace Fields

/-- Every field of a record is kept. -/
inductive Keeps (arrange : Value → Value) (depth : ℕ) : {β σ : Type} → Fields β σ → β → Prop
  | nil : Keeps arrange depth .nil ()
  | cons {α β σ : Type} {f : Field α} {rest : Fields β σ} {a : α} {b : β}
    (first : f.Keeps arrange depth a) (others : Keeps arrange depth rest b) :
    Keeps arrange depth (.cons f rest) (a, b)

variable {β σ : Type} {fields : Fields β σ} {b : β} {arrange : Value → Value}

theorem names_members_sublist (fields : Fields β σ) (b : β) :
    ((fields.members b).map Prod.fst).Sublist fields.names := by
  induction fields with
  | nil => exact .refl []
  | cons f rest ih =>
    rw [members, names]
    split_ifs
    · exact (ih b.2).cons _
    · exact (ih b.2).cons_cons _

theorem Keeps.members (kept : fields.Keeps arrange depth b) :
    ∀ m ∈ fields.members b, m.2.Exact ∧ m.2.Shallow depth := by
  induction kept with
  | nil => exact fun _ hm => absurd hm List.not_mem_nil
  | cons first _ ih =>
    rw [Fields.members]
    split_ifs
    · exact ih
    · exact List.forall_mem_cons.2 ⟨⟨first.kept.exactly, first.kept.shallow⟩, ih⟩

theorem named_eq_nil {name : String} {ms : List (String × Value)}
    (fresh : name ∉ ms.map Prod.fst) : (membersTree ms).named name = [] := by
  rw [named_membersTree, List.map_eq_nil_iff, List.filter_eq_nil_iff]
  intro m hm
  simpa using fun same => fresh (List.mem_map.2 ⟨m, hm, same⟩)

theorem Keeps.follows (kept : fields.Keeps arrange depth b) (distinct : fields.names.Nodup) :
    fields.Follows origin depth
      (membersTree ((fields.members b).map fun m => (m.1, arrange m.2))) fields.noSlots b := by
  induction kept with
  | nil => trivial
  | @cons _ _ _ f rest a b first _ ih =>
    simp only [names, List.nodup_cons] at distinct
    have others := ih distinct.2
    have fresh : f.name ∉ ((rest.members b).map fun m => (m.1, arrange m.2)).map Prod.fst := by
      rw [List.map_map]
      exact fun hm => distinct.1 ((names_members_sublist rest b).subset hm)
    rw [Fields.members]
    split_ifs with hidden
    · refine ⟨?_, others⟩
      rw [named_eq_nil fresh]
      exact first.omitted hidden
    · refine ⟨?_, others.pass distinct.1⟩
      rw [List.map_cons, membersTree, Members.named, if_pos rfl, named_eq_nil fresh]
      exact first.kept.decodes origin

/-- The members of a record, each arranged and in any order, give its fields. -/
theorem Keeps.ofMembers (kept : fields.Keeps arrange depth b) (distinct : fields.names.Nodup)
    {ms : List (String × Value)}
    (perm : ms.Perm ((fields.members b).map fun m => (m.1, arrange m.2))) :
    fields.ofMembers origin depth fields.noSlots (membersTree ms) = .ok b :=
  ofMembers_of_follows distinct ((kept.follows distinct).perm perm.symm)

end Fields

/-- A record is kept if every field is. -/
theorem keeps_record {α β σ : Type} {arrange : Value → Value} (order : Arrangement arrange)
    {name : String} {fields : Fields β σ} {make : β → α} {parts : α → β} {a : α}
    (distinct : fields.names.Nodup) (kept : fields.Keeps arrange depth (parts a))
    (inverse : make (parts a) = a) :
    (Codec.record name fields make parts).Keeps arrange (depth + 1) a where
  exactly := .object fun m hm => (kept.members m hm).1
  shallow := .object trivial fun m hm => (kept.members m hm).2
  decodes origin := by
    have names := (Fields.names_members_sublist fields (parts a)).nodup distinct
    obtain ⟨ms, arranged, perm⟩ := order.object _ names
    rw [Codec.record, arranged]
    exact map_eq_ok_iff.2 ⟨parts a, kept.ofMembers distinct perm, inverse⟩

/-! ## What was read -/

theorem numbers_named {P : Number → Prop} (name : String) : ∀ {members : Members},
    members.Numbers P → ∀ t ∈ members.named name, t.Numbers P
  | .more (some other) value rest, numbers => by
    rw [Members.named]
    split_ifs
    · exact List.forall_mem_cons.2 ⟨numbers.1, numbers_named name numbers.2⟩
    · exact numbers_named name numbers.2
  | .more none _ rest, numbers => by
    rw [Members.named]
    exact numbers_named name numbers.2
  | .close, _ | .stop _, _ | .noName _ _, _ => fun _ ht => absurd ht List.not_mem_nil

theorem numbers_trees {P : Number → Prop} : ∀ {items : Elements},
    items.Numbers P → ∀ t ∈ items.trees, t.Numbers P
  | .more _ _, numbers => List.forall_mem_cons.2 ⟨numbers.1, numbers_trees numbers.2⟩
  | .close, _ | .stop _, _ => fun _ ht => absurd ht List.not_mem_nil

section Read

variable {α : Type} {c : Codec α} {t : Tree}

theorem numbers_place {P : Number → Prop} {name : String} {index : ℕ} (numbers : t.Numbers P) :
    ∀ value ∈ t.place name index, value.Numbers P := by
  cases t with
  | object members => exact numbers_named name numbers
  | array items =>
    intro value hv
    exact numbers_trees numbers value (List.mem_of_getElem? (Option.mem_toList.1 hv))
  | null | bool | number | string | broken => exact fun _ hv => absurd hv List.not_mem_nil

/-- A field that was read is kept if its codec keeps what it reads and what stands for nothing. -/
theorem Field.Reads.keeps {f : Field α} {place : List Tree} {a : α}
    (reads : f.Reads origin depth place a)
    (missing : f.presence.inObject = some a → f.codec.Keeps asWritten depth a)
    (given : ∀ value ∈ place, f.codec.decode origin depth value = .ok a →
      f.codec.Keeps asWritten depth a) :
    f.codec.Keeps asWritten depth a := by
  match place with
  | [] => exact missing reads
  | [value] => exact given value List.mem_cons_self reads
  | _ :: _ :: _ => exact reads.elim

theorem exact_of_sound {v : Value} (sound : v.Numbers Number.Sound)
    (integral : v.Numbers Number.Integral) : v.Exact := by
  induction sound with
  | null => exact .null
  | bool b => exact .bool b
  | string s => exact .string s
  | number sound => exact .number (sound (Value.numbers_number_iff.1 integral))
  | array _ ih =>
    exact .array fun v hv => ih v hv (Value.numbers_array_iff.1 integral v hv)
  | object _ ih =>
    exact .object fun m hm => ih m hm (Value.numbers_object_iff.1 integral m hm)

/-- A free value that was read is kept if it has no real number. -/
theorem keeps_free_of_read {v : Value} (read : t.free depth = .ok v)
    (numbers : t.Numbers Number.Sound) (integral : v.Numbers Number.Integral) :
    Codec.free.Keeps asWritten depth v := by
  obtain ⟨free, sound⟩ := free_eq_ok read numbers
  exact keeps_free free (exact_of_sound sound integral)

theorem free_eq_null (h : t.free depth = .ok .null) : t = .null := by
  cases t with
  | null => rfl
  | bool | broken => cases h
  | number n => cases n <;> cases h
  | string s => cases s <;> cases h
  | array | object =>
    cases depth with
    | zero => cases h
    | succ =>
      obtain ⟨_, -, made⟩ := map_eq_ok_iff.1 h
      cases made

/-- A value that is there was read from something other than null. -/
theorem keeps_optional_of_read {a : Option α} (read : c.optional.decode origin depth t = .ok a)
    (given : ∀ v ∈ a, t ≠ .null → c.decode origin depth t = .ok v →
      c.Keeps asWritten depth v ∧ c.decode .text depth .null ≠ .ok v) :
    c.optional.Keeps asWritten depth a := by
  cases t with
  | null =>
    cases read
    exact keeps_none arrangement_asWritten
  | bool | number | string | array | object | broken =>
    obtain ⟨v, decoded, rfl⟩ := map_eq_ok_iff.1 read
    obtain ⟨kept, apart⟩ := given v rfl nofun decoded
    exact keeps_some kept apart

theorem exists_of_decodeItems {item : Tree → Except Error α} {as : List α} :
    ∀ {items : Elements}, Codec.decodeItems item items = .ok as →
      ∀ a ∈ as, ∃ value ∈ items.trees, item value = .ok a
  | .close, h => by
    cases h
    exact fun _ ha => absurd ha List.not_mem_nil
  | .stop _, h => by cases h
  | .more head rest, h => by
    simp only [Codec.decodeItems, bind_eq_ok_iff] at h
    obtain ⟨a, first, others, decoded, made⟩ := h
    cases made
    refine List.forall_mem_cons.2 ⟨⟨head, List.mem_cons_self, first⟩, fun b hb => ?_⟩
    obtain ⟨value, hv, each⟩ := exists_of_decodeItems decoded b hb
    exact ⟨value, List.mem_cons_of_mem head hv, each⟩

/-- A list that was read is kept if its items are. -/
theorem keeps_list_of_read {as : List α} (read : c.list.decode origin depth t = .ok as)
    (numbers : t.Numbers Number.Sound)
    (given : ∀ inner value, ∀ a ∈ as, value.Numbers Number.Sound →
      c.decode origin inner value = .ok a → c.Keeps asWritten inner a) :
    c.list.Keeps asWritten depth as := by
  cases t with
  | array items =>
    obtain ⟨inner, rfl, opened⟩ := descend_eq_ok read
    refine keeps_list arrangement_asWritten fun a ha => ?_
    obtain ⟨value, hv, decoded⟩ := exists_of_decodeItems opened a ha
    exact given inner value a ha (numbers_trees numbers value hv) decoded
  | null | bool | number | string | object | broken => cases read

end Read

end TxRelay.Json
