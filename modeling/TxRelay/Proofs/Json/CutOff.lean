import Mathlib.Tactic
import TxRelay.Proofs.Json.Reordering
import TxRelay.Proofs.Json.RoundTrip
import TxRelay.Proofs.Json.Torn

/-!
# What is left of a text is not read

A codec tears with its values if what is left of a value that it reads is to it a text that ends too
early. Each way to build a codec keeps this. A number is the one value whose text may be cut to the
text of another value, and there the array or the object around it turns out to end too early: so a
codec must read a smaller number wherever it reads a greater one.

Results:
* `Value.Torn.free`: a free value is not read from what is left of its text.
* `tears_record`: a record tears if every field does.
* `Codec.Tears.cutsOff`: no part of the text of an object is read, whichever part is left.
-/

namespace TxRelay.Json

open TxRelay.Except

/-- A number without a sign. -/
def Number.Unsigned : Number → Prop
  | .natural _ => True
  | .negative _ | .real _ => False

/-- What is left of a value that a codec reads ends too early. -/
structure Codec.Tears {α : Type} (c : Codec α) : Prop where
  unsigned (a : α) : (c.encode a).Numbers Number.Unsigned
  fewer {depth n m a} (read : c.decode .text depth (.number (some (.natural n))) = .ok a)
    (h : m ≤ n) : ∃ b, c.decode .text depth (.number (some (.natural m))) = .ok b
  torn {depth v t a} (read : c.decode .text depth v.tree = .ok a) (h : Value.Torn v t) :
    c.decode .text depth t = .error (.fault .cutOff)

/-! ## What is passed over and free values -/

mutual

theorem Value.Torn.skip : ∀ {v : Value} {t : Tree}, v.Torn t → t.skip = .error .cutOff
  | _, _, .nothing => rfl
  | _, _, .null => rfl
  | _, _, .bool => rfl
  | _, _, .string => rfl
  | _, _, .array inside => inside.skip
  | _, _, .object inside => inside.skip

theorem ItemsTorn.skip : ∀ {items : List Value} {elements : Elements}, ItemsTorn items elements →
    elements.skip = .error .cutOff
  | _, _, .stop => rfl
  | _, _, .item torn => by rw [Elements.skip, torn.skip]
  | _, _, .digits _ => rfl
  | _, _, .next (v := v) others => by rw [Elements.skip, skip_tree v, others.skip]

theorem MembersTorn.skip : ∀ {ms : List (String × Value)} {members : Members},
    MembersTorn ms members → members.skip = .error .cutOff
  | _, _, .stop => rfl
  | _, _, .name => rfl
  | _, _, .member torn => by rw [Members.skip, torn.skip]
  | _, _, .digits _ => rfl
  | _, _, .next (v := v) others => by rw [Members.skip, skip_tree v, others.skip]

end

mutual

/-- A free value is not read from what is left of its text. -/
theorem Value.Torn.free : ∀ {v w : Value} {t : Tree} {depth : ℕ}, v.Torn t →
    v.tree.free depth = .ok w → t.free depth = .error (.fault .cutOff)
  | _, _, _, _, .nothing, _ => rfl
  | _, _, _, _, .null, _ => rfl
  | _, _, _, _, .bool, _ => rfl
  | _, _, _, _, .string, _ => rfl
  | _, _, _, 0, .array _, read => by cases read
  | _, _, _, depth + 1, .array inside, read => by
    obtain ⟨vs, items, -⟩ := map_eq_ok_iff.1 read
    exact map_eq_error_iff.2 (inside.free items)
  | _, _, _, 0, .object _, read => by cases read
  | _, _, _, depth + 1, .object inside, read => by
    obtain ⟨vs, members, -⟩ := map_eq_ok_iff.1 read
    exact map_eq_error_iff.2 (inside.free members)

theorem ItemsTorn.free : ∀ {items vs : List Value} {elements : Elements} {depth : ℕ},
    ItemsTorn items elements → (itemsTree items).free depth = .ok vs →
    elements.free depth = .error (.fault .cutOff)
  | _, _, _, _, .stop, _ => rfl
  | _, _, _, _, .item torn, read => by
    obtain ⟨v, head, -⟩ := bind_eq_ok_iff.1 read
    rw [Elements.free, torn.free head]
    rfl
  | _, _, _, _, .digits _, _ => rfl
  | _, _, _, _, .next others, read => by
    obtain ⟨v, head, tail⟩ := bind_eq_ok_iff.1 read
    obtain ⟨vs, tail, -⟩ := bind_eq_ok_iff.1 tail
    rw [Elements.free, head, others.free tail]
    rfl

theorem MembersTorn.free : ∀ {ms vs done : List (String × Value)} {members : Members} {depth : ℕ},
    MembersTorn ms members → (membersTree ms).free depth done = .ok vs →
    members.free depth done = .error (.fault .cutOff)
  | _, _, _, _, _, .stop, _ => rfl
  | _, _, _, _, _, .name, _ => rfl
  | _, _, _, _, _, .member torn, read => by
    obtain ⟨v, value, -⟩ := bind_eq_ok_iff.1 read
    rw [Members.free, torn.free value]
    rfl
  | _, _, _, _, _, .digits _, _ => rfl
  | _, _, _, _, _, .next others, read => by
    obtain ⟨v, value, tail⟩ := bind_eq_ok_iff.1 read
    rw [Members.free, value]
    exact others.free tail

end

/-! ## Scalars and choices -/

section Scalars

variable {α β : Type} {c : Codec α}

theorem tears_text : Codec.text.Tears where
  unsigned := .string
  fewer read _ := by cases read
  torn read h := by
    cases h with
    | array | object => cases read
    | nothing | null | bool | string => rfl

theorem tears_flag : Codec.flag.Tears where
  unsigned := .bool
  fewer read _ := by cases read
  torn read h := by
    cases h with
    | array | object => cases read
    | nothing | null | bool | string => rfl

theorem tears_natural (expected : String) : (Codec.natural expected).Tears where
  unsigned _ := .number trivial
  fewer {depth n m a} read h := by
    refine ⟨m, if_pos ?_⟩
    by_contra large
    have outOfRange : ¬ n < unsignedBound := by omega
    rw [Codec.natural] at read
    simp [outOfRange] at read
  torn read h := by
    cases h with
    | array | object => cases read
    | nothing | null | bool | string => rfl

theorem tears_iso {forth : α → β} {back : β → α} (tears : c.Tears) : (c.iso forth back).Tears where
  unsigned b := tears.unsigned (back b)
  fewer read h := by
    obtain ⟨a, read, -⟩ := map_eq_ok_iff.1 read
    obtain ⟨b, read⟩ := tears.fewer read h
    exact ⟨forth b, map_eq_ok_iff.2 ⟨b, read, rfl⟩⟩
  torn read h := by
    obtain ⟨a, read, -⟩ := map_eq_ok_iff.1 read
    exact map_eq_error_iff.2 (tears.torn read h)

theorem tears_word : Codec.word.Tears :=
  tears_iso (tears_natural "u64")

theorem tears_size : Codec.size.Tears :=
  tears_iso (tears_natural "usize")

theorem decodeTagged_torn {all : List α} {name : α → String} {ms : List (String × Value)}
    {members : Members} {a : α} (read : Codec.decodeTagged all name .text (membersTree ms) = .ok a)
    (h : MembersTorn ms members) :
    Codec.decodeTagged all name .text members = .error (.fault .cutOff) := by
  obtain ⟨s, single, -⟩ := decodeTagged_eq_ok read
  -- There is one member, and the value of that is null.
  cases h with
  | stop | name => rfl
  | digits => cases single
  | @member _ v t ms torn =>
    obtain ⟨b, found, -⟩ := bind_eq_ok_iff.1 read
    have isNull := (Members.more.inj single).2.1
    simp only [Codec.decodeTagged, found]
    cases torn with
    | nothing | null => rfl
    | bool | string | array | object => cases isNull
  | @next _ v ms members others =>
    obtain ⟨b, found, -⟩ := bind_eq_ok_iff.1 read
    obtain ⟨-, isNull, only⟩ := Members.more.inj single
    cases ms with
    | cons => cases only
    | nil =>
      cases others
      simp only [Codec.decodeTagged, found, isNull]
      rfl

theorem tears_choice (all : List α) (name : α → String) : (Codec.choice all name).Tears where
  unsigned _ := .string _
  fewer read _ := by cases read
  torn read h := by
    cases h with
    | nothing | string => rfl
    | null | bool | array => cases read
    | object inside =>
      obtain ⟨inner, rfl, opened⟩ := descend_eq_ok read
      exact decodeTagged_torn opened inside

end Scalars

/-! ## Values that may be absent, lists and maps -/

section Containers

variable {α : Type} {c : Codec α} {depth : ℕ}

/-- What may be absent tears if a broken value has its own fault where it is decoded. -/
theorem tears_optional (tears : c.Tears)
    (broken : ∀ depth b, c.decode .text depth (.broken b) = .error (.fault b.used)) :
    c.optional.Tears where
  unsigned a := by
    cases a with
    | none => exact .null
    | some a => exact tears.unsigned a
  fewer read h := by
    obtain ⟨a, read, -⟩ := map_eq_ok_iff.1 read
    obtain ⟨b, read⟩ := tears.fewer read h
    exact ⟨some b, map_eq_ok_iff.2 ⟨b, read, rfl⟩⟩
  torn read h := by
    cases h with
    | nothing | null | bool | string => exact map_eq_error_iff.2 (broken _ _)
    | array inside =>
      obtain ⟨a, read, -⟩ := map_eq_ok_iff.1 read
      exact map_eq_error_iff.2 (tears.torn read (.array inside))
    | object inside =>
      obtain ⟨a, read, -⟩ := map_eq_ok_iff.1 read
      exact map_eq_error_iff.2 (tears.torn read (.object inside))

theorem decodeItems_torn (tears : c.Tears) {items : List Value} {elements : Elements} {as : List α}
    (read : Codec.decodeItems (c.decode .text depth) (itemsTree items) = .ok as)
    (h : ItemsTorn items elements) :
    Codec.decodeItems (c.decode .text depth) elements = .error (.fault .cutOff) := by
  induction items generalizing elements as with
  | nil =>
    cases h
    rfl
  | cons v items ih =>
    obtain ⟨a, head, rest⟩ := bind_eq_ok_iff.1 read
    obtain ⟨as, tail, -⟩ := bind_eq_ok_iff.1 rest
    cases h with
    | stop => rfl
    | item torn =>
      rw [Codec.decodeItems, tears.torn head torn]
      rfl
    | digits fewer =>
      obtain ⟨b, smaller⟩ := tears.fewer head fewer
      rw [Codec.decodeItems, smaller]
      rfl
    | next others =>
      rw [Codec.decodeItems, head, ih tail others]
      rfl

theorem tears_list (tears : c.Tears) : c.list.Tears where
  unsigned as := .array (List.forall_mem_map.2 fun a _ => tears.unsigned a)
  fewer read _ := by cases read
  torn read h := by
    cases h with
    | nothing | null | bool | string => rfl
    | object => cases read
    | array inside =>
      obtain ⟨inner, rfl, opened⟩ := descend_eq_ok read
      exact decodeItems_torn tears opened inside

theorem decodeEntries_torn (tears : c.Tears) {ms : List (String × Value)} {members : Members}
    {done entries : List (String × α)}
    (read : Codec.decodeEntries (c.decode .text depth) done (membersTree ms) = .ok entries)
    (h : MembersTorn ms members) :
    Codec.decodeEntries (c.decode .text depth) done members = .error (.fault .cutOff) := by
  induction ms generalizing members done with
  | nil =>
    cases h
    rfl
  | cons m ms ih =>
    obtain ⟨a, value, tail⟩ := bind_eq_ok_iff.1 read
    cases h with
    | stop | name => rfl
    | member torn =>
      rw [Codec.decodeEntries, tears.torn value torn]
      rfl
    | digits fewer =>
      obtain ⟨b, smaller⟩ := tears.fewer value fewer
      rw [Codec.decodeEntries, smaller]
      rfl
    | next others =>
      rw [Codec.decodeEntries, value]
      exact ih tail others

theorem tears_map (tears : c.Tears) : c.map.Tears where
  unsigned entries := .object (List.forall_mem_map.2 fun m _ => tears.unsigned m.2)
  fewer read _ := by cases read
  torn read h := by
    cases h with
    | nothing | null | bool | string => rfl
    | array => cases read
    | object inside =>
      obtain ⟨inner, rfl, opened⟩ := descend_eq_ok read
      exact decodeEntries_torn tears opened inside

end Containers

/-! ## Records -/

namespace Fields

/-- The codec of every field tears. -/
inductive Tears : {β σ : Type} → Fields β σ → Prop
  | nil : Tears .nil
  | cons {α β σ : Type} {f : Field α} {rest : Fields β σ} (first : f.codec.Tears)
    (others : Tears rest) : Tears (.cons f rest)

variable {β σ : Type} {fields : Fields β σ} {depth : ℕ} {name : String}

theorem Tears.unsigned (tears : fields.Tears) (b : β) :
    ∀ m ∈ fields.members b, m.2.Numbers Number.Unsigned := by
  induction tears with
  | nil => exact fun _ hm => absurd hm List.not_mem_nil
  | cons first _ ih =>
    rw [members]
    split_ifs
    · exact ih b.2
    · exact List.forall_mem_cons.2 ⟨first.unsigned b.1, ih b.2⟩

theorem Tears.store_fewer (tears : fields.Tears) {n m : ℕ} {slots found : σ}
    (stored : fields.store .text depth name (.number (some (.natural n))) slots = .ok found)
    (h : m ≤ n) :
    ∃ found, fields.store .text depth name (.number (some (.natural m))) slots = .ok found := by
  induction tears with
  | nil => exact ⟨slots, rfl⟩
  | @cons _ _ _ f rest first _ ih =>
    obtain ⟨slot, slots⟩ := slots
    simp only [store] at stored ⊢
    split_ifs at stored ⊢ with isName
    · cases slot with
      | some => cases stored
      | none =>
        obtain ⟨a, read, -⟩ := map_eq_ok_iff.1 stored
        obtain ⟨b, smaller⟩ := first.fewer read h
        exact ⟨_, map_eq_ok_iff.2 ⟨b, smaller, rfl⟩⟩
    · obtain ⟨found, stored, -⟩ := map_eq_ok_iff.1 stored
      obtain ⟨found, stored⟩ := ih stored
      exact ⟨_, map_eq_ok_iff.2 ⟨found, stored, rfl⟩⟩

theorem Tears.store_torn (tears : fields.Tears) {v : Value} {t : Tree} {slots found : σ}
    (stored : fields.store .text depth name v.tree slots = .ok found) (h : v.Torn t) :
    fields.store .text depth name t slots = .error (.fault .cutOff) := by
  induction tears with
  | nil => rw [store, h.skip]
  | @cons _ _ _ f rest first _ ih =>
    obtain ⟨slot, slots⟩ := slots
    simp only [store] at stored ⊢
    split_ifs at stored ⊢ with isName
    · cases slot with
      | some => cases stored
      | none =>
        obtain ⟨a, read, -⟩ := map_eq_ok_iff.1 stored
        exact map_eq_error_iff.2 (first.torn read h)
    · obtain ⟨found, stored, -⟩ := map_eq_ok_iff.1 stored
      exact map_eq_error_iff.2 (ih stored)

theorem Tears.ofMembers (tears : fields.Tears) {ms : List (String × Value)} {members : Members}
    {slots : σ} {b : β} (read : fields.ofMembers .text depth slots (membersTree ms) = .ok b)
    (h : MembersTorn ms members) :
    fields.ofMembers .text depth slots members = .error (.fault .cutOff) := by
  induction ms generalizing members slots with
  | nil =>
    cases h
    rfl
  | cons m ms ih =>
    rw [membersTree, Fields.ofMembers] at read
    split at read
    · cases read
    · next found stored =>
      cases h with
      | stop | name => rfl
      | member torn => rw [Fields.ofMembers, tears.store_torn stored torn]
      | digits fewer =>
        obtain ⟨found, smaller⟩ := tears.store_fewer stored fewer
        rw [Fields.ofMembers, smaller]
        rfl
      | next others =>
        rw [Fields.ofMembers, stored]
        exact ih read others

/-- Fields are not read from elements that end too early, or these end behind the last field. -/
def RunsOut {β : Type} (read : Except Error (β × Elements)) : Prop :=
  read = .error (.fault .cutOff) ∨ ∃ b, read = .ok (b, .stop .cutOff)

theorem runsOut_stop (fields : Fields β σ) (expected : String) (index : ℕ) :
    RunsOut (fields.ofElements .text depth expected index (.stop .cutOff)) := by
  cases fields with
  | nil => exact .inr ⟨(), rfl⟩
  | cons => exact .inl rfl

theorem runsOut_more {α : Type} {f : Field α} {t : Tree} {a : α} {elements : Elements}
    {expected : String} {index : ℕ} (field : f.codec.decode .text depth t = .ok a)
    (others : RunsOut (fields.ofElements .text depth expected (index + 1) elements)) :
    RunsOut ((cons f fields).ofElements .text depth expected index (.more t elements)) := by
  rw [Fields.ofElements, field]
  rcases others with fails | ⟨b, made⟩
  · exact .inl (bind_eq_error_iff.2 (.inr ⟨a, rfl, bind_eq_error_iff.2 (.inl fails)⟩))
  · exact .inr ⟨(a, b), bind_eq_ok_iff.2 ⟨a, rfl, bind_eq_ok_iff.2 ⟨_, made, rfl⟩⟩⟩

theorem Tears.ofElements (tears : fields.Tears) {expected : String} {index : ℕ} {items : List Value}
    {elements : Elements} {b : β}
    (read : fields.ofElements .text depth expected index (itemsTree items) = .ok (b, .close))
    (h : ItemsTorn items elements) :
    RunsOut (fields.ofElements .text depth expected index elements) := by
  induction tears generalizing index items elements with
  | nil =>
    cases items with
    | cons => cases read
    | nil =>
      cases h
      exact .inr ⟨(), rfl⟩
  | @cons _ _ _ f fields first _ ih =>
    cases items with
    | nil =>
      cases h
      exact .inl rfl
    | cons v items =>
      obtain ⟨a, head, more⟩ := bind_eq_ok_iff.1 read
      obtain ⟨⟨b, rest⟩, tail, made⟩ := bind_eq_ok_iff.1 more
      cases made
      cases h with
      | stop => exact .inl rfl
      | item torn =>
        rw [Fields.ofElements, first.torn head torn]
        exact .inl rfl
      | digits fewer =>
        obtain ⟨a, smaller⟩ := first.fewer head fewer
        exact runsOut_more smaller (runsOut_stop ..)
      | next others => exact runsOut_more head (ih tail others)

end Fields

/-- A record tears if every field does. -/
theorem tears_record {α β σ : Type} {name : String} {fields : Fields β σ} {make : β → α}
    {parts : α → β} (tears : fields.Tears) : (Codec.record name fields make parts).Tears where
  unsigned a := .object (tears.unsigned (parts a))
  fewer read _ := by cases read
  torn {depth v t a} read h := by
    cases h with
    | nothing | null | bool | string => rfl
    | array inside =>
      obtain ⟨inner, rfl, opened⟩ := descend_eq_ok read
      obtain ⟨⟨b, rest⟩, elements, ended⟩ := bind_eq_ok_iff.1 opened
      obtain ⟨_, closed, -⟩ := bind_eq_ok_iff.1 ended
      cases rest with
      | stop | more => cases closed
      | close =>
        rcases tears.ofElements elements inside with fails | ⟨b, made⟩
        · exact bind_eq_error_iff.2 (.inl fails)
        · exact bind_eq_error_iff.2 (.inr ⟨_, made, rfl⟩)
    | object inside =>
      obtain ⟨inner, rfl, opened⟩ := descend_eq_ok read
      obtain ⟨b, members, -⟩ := map_eq_ok_iff.1 opened
      exact map_eq_error_iff.2 (tears.ofMembers members inside)

/-! ## Whole texts -/

/-- Whatever is left of the text of a value after a cut is a text that ends too early. -/
def Codec.CutsOff {α : Type} (c : Codec α) (a : α) : Prop :=
  ∀ front rest : String, front ++ rest = c.write a → rest ≠ "" →
    c.read front = .error (.fault .cutOff)

theorem isCount_of_exact {v : Value} (exactly : v.Exact) (unsigned : v.Numbers Number.Unsigned) :
    v.Numbers Number.IsCount := by
  induction exactly with
  | null => exact .null
  | bool b => exact .bool b
  | string s => exact .string s
  | @number n exactly =>
    refine .number ?_
    cases n with
    | natural n => exact exactly
    | negative | real => exact (Value.numbers_number_iff.1 unsigned).elim
  | array _ ih =>
    exact .array fun v hv => ih v hv (Value.numbers_array_iff.1 unsigned v hv)
  | object _ ih =>
    exact .object fun m hm => ih m hm (Value.numbers_object_iff.1 unsigned m hm)

/-- No part of the text of an object is read, whichever part is left. -/
theorem Codec.Tears.cutsOff {α : Type} {c : Codec α} (tears : c.Tears) {a : α}
    (kept : c.Keeps asWritten maxDepth a) {ms : List (String × Value)}
    (object : c.encode a = .object ms) : c.CutsOff a := by
  intro front rest whole missing
  have counts := isCount_of_exact kept.exactly (tears.unsigned a)
  have cut : Cut front.toList (Value.object ms).chars := by
    have parts := congrArg String.toList whole
    rw [Codec.write, Value.text, String.toList_ofList, String.toList_append, object] at parts
    refine ⟨⟨_, parts⟩, fun same => missing ?_⟩
    rw [same] at parts
    exact String.toList_eq_nil_iff.1 (List.append_right_eq_self.1 parts)
  obtain ⟨t, read, torn⟩ := read_torn (object ▸ counts) cut
  have decoded := kept.decodes .text
  rw [Codec.read, read, tears.torn decoded (object ▸ torn)]

end TxRelay.Json
