import Mathlib.Tactic
import TxRelay.Proofs.Json.Reordering
import TxRelay.Proofs.Json.RoundTrip

/-!
# Object form and positional form

A record is written as an object, which names its fields, or as an array of them in the order of
declaration, and so is each record inside it, whichever form the outer one has. Both forms give the
record back. An object may leave out a field whose absence stands for its value. An array may do so
only with the last ones, and with fewer of them: a field may be one that an object need not have and an
array must.

Results:
* `Codec.Shape.Kept.gives`: a value is read back from every form.
* `Codec.Shape.gives_of_cut`: an array that was cut short before an element that it must have is of
  invalid length, wherever in a value it stands.
-/

namespace TxRelay.Json

open TxRelay.Except

variable {depth : ℕ}

/-! ## Forms of a value -/

mutual

/-- The value is written so. Each record in it is an object or an array, as one likes. -/
def Codec.Shape.Forms : {α : Type} → {c : Codec α} → c.Shape → α → Value → Prop
  | _, c, .scalar _, a, v => v = c.encode a
  | _, _, .choice all name, a, v => v = (Codec.choice all name).encode a
  | _, _, .free, a, v => v = a
  | _, _, .map (c := c) _, a, v => v = c.map.encode a
  | _, _, .optional _, none, v => v = .null
  | _, _, .optional s, some a, v => s.Forms a v
  | _, _, .list s, as, v => ∃ vs, v = .array vs ∧ List.Forall₂ s.Forms as vs
  | _, _, @Codec.Shape.record _ _ _ _ _ _ parts _ fields, a, v =>
    (∃ vs, v = .array vs ∧ fields.FormsItems (parts a) vs) ∨
      ∃ ms ms', v = .object ms' ∧ ms.Perm ms' ∧ fields.FormsMembers (parts a) ms

/-- Elements for the fields in their order. The last ones may be left out if each is what its absence
stands for. -/
def Fields.Shape.FormsItems : {β σ : Type} → {fields : Fields β σ} → fields.Shape → β →
    List Value → Prop
  | _, _, _, .nil, _, vs => vs = []
  | _, _, _, .cons (f := f) _ others, (a, b), [] =>
    f.presence.inArray = some a ∧ others.FormsItems b []
  | _, _, _, .cons first others, (a, b), v :: vs => first.Forms a v ∧ others.FormsItems b vs

/-- Members for the fields, in the order of declaration. Any of them may be left out that is what its
absence stands for. -/
def Fields.Shape.FormsMembers : {β σ : Type} → {fields : Fields β σ} → fields.Shape → β →
    List (String × Value) → Prop
  | _, _, _, .nil, _, ms => ms = []
  | _, _, _, .cons (f := f) first others, (a, b), ms =>
    (f.presence.inObject = some a ∧ others.FormsMembers b ms) ∨
      ∃ v rest, ms = (f.name, v) :: rest ∧ first.Forms a v ∧ others.FormsMembers b rest

end

/-- The first field from a position on that an array must have. -/
def Fields.needed : {β σ : Type} → Fields β σ → ℕ → Option ℕ
  | _, _, nil, _ => none
  | _, _, cons _ rest, n + 1 => (rest.needed n).map Nat.succ
  | _, _, cons f rest, 0 =>
    match f.presence.inArray with
    | none => some 0
    | some _ => (rest.needed 0).map Nat.succ

mutual

/-- The second value is the first with one array cut short that is the positional form of a record. It
lacks an element that it must have, which is the error. -/
def Codec.Shape.Cut : {α : Type} → {c : Codec α} → c.Shape → Value → Value → Error → Prop
  | _, _, .scalar _, _, _, _ | _, _, .choice _ _, _, _, _ | _, _, .free, _, _, _
  | _, _, .map _, _, _, _ => False
  | _, _, .optional s, v, v', e => s.Cut v v' e
  | _, _, .list s, v, v', e => ∃ front w w' back, v = .array (front ++ w :: back) ∧
    v' = .array (front ++ w' :: back) ∧ s.Cut w w' e
  | _, _, @Codec.Shape.record _ _ _ name names _ _ _ fields, v, v', e =>
    (∃ vs left index, v = .array (vs ++ left) ∧ v' = .array vs ∧
      names.needed vs.length = some index ∧ e = .invalidLength index (lengthText name names.size)) ∨
    (∃ front w w' back, v = .array (front ++ w :: back) ∧ v' = .array (front ++ w' :: back) ∧
      fields.CutItem front.length w w' e) ∨
    ∃ front member w w' back, v = .object (front ++ (member, w) :: back) ∧
      v' = .object (front ++ (member, w') :: back) ∧ fields.CutMember member w w' e

/-- The same of the element of an index. -/
def Fields.Shape.CutItem : {β σ : Type} → {fields : Fields β σ} → fields.Shape → ℕ → Value →
    Value → Error → Prop
  | _, _, _, .nil, _, _, _, _ => False
  | _, _, _, .cons first _, 0, v, v', e => first.Cut v v' e
  | _, _, _, .cons _ others, n + 1, v, v', e => others.CutItem n v v' e

/-- The same of the member of a name. -/
def Fields.Shape.CutMember : {β σ : Type} → {fields : Fields β σ} → fields.Shape → String →
    Value → Value → Error → Prop
  | _, _, _, .nil, _, _, _, _ => False
  | _, _, _, .cons (f := f) first others, name, v, v', e =>
    if name = f.name then first.Cut v v' e else others.CutMember name v v' e

end

/-! ## What a value gives -/

/-- The text of a value spells it exactly, and it is decoded so. -/
structure Codec.Gives {α : Type} (c : Codec α) (depth : ℕ) (v : Value) (r : Except Error α) :
    Prop where
  exactly : v.Exact
  decodes : c.decode .text depth v.tree = r

theorem Codec.Gives.read {α : Type} {c : Codec α} {v : Value} {r : Except Error α}
    (gives : c.Gives maxDepth v r) : c.read v.text = r :=
  read_text gives.exactly gives.decodes

theorem Codec.Keeps.gives {α : Type} {c : Codec α} {a : α} (kept : c.Keeps asWritten depth a) :
    c.Gives depth (c.encode a) (.ok a) :=
  ⟨kept.exactly, kept.decodes .text⟩

mutual

/-- Every part of a value that is no record is kept by its codec, and every record is made of its
parts. -/
inductive Codec.Shape.Kept : {α : Type} → {c : Codec α} → c.Shape → ℕ → α → Prop
  | scalar {α : Type} {c : Codec α} {h : c.Scalar} {depth : ℕ} {a : α}
    (kept : c.Keeps asWritten depth a) : Codec.Shape.Kept (.scalar h) depth a
  | choice {α : Type} {all : List α} {name : α → String} {depth : ℕ} {a : α}
    (kept : (Codec.choice all name).Keeps asWritten depth a) :
    Codec.Shape.Kept (.choice all name) depth a
  | free {depth : ℕ} {v : Value} (kept : Codec.free.Keeps asWritten depth v) :
    Codec.Shape.Kept .free depth v
  | map {α : Type} {c : Codec α} {h : c.Scalar} {depth : ℕ} {entries : List (String × α)}
    (kept : c.map.Keeps asWritten depth entries) : Codec.Shape.Kept (.map h) depth entries
  | none {α : Type} {c : Codec α} {s : c.Shape} {depth : ℕ} :
    Codec.Shape.Kept (.optional s) depth none
  | some {α : Type} {c : Codec α} {s : c.Shape} {depth : ℕ} {a : α}
    (kept : Codec.Shape.Kept s depth a) (apart : c.decode .text depth .null ≠ .ok a) :
    Codec.Shape.Kept (.optional s) depth (some a)
  | list {α : Type} {c : Codec α} {s : c.Shape} {depth : ℕ} {as : List α}
    (kept : ∀ a ∈ as, Codec.Shape.Kept s depth a) : Codec.Shape.Kept (.list s) (depth + 1) as
  | record {α β σ : Type} {name : String} {fields : Fields β σ} {make : β → α} {parts : α → β}
    {distinct : fields.names.Nodup} {each : fields.Shape} {depth : ℕ} {a : α}
    (kept : Fields.Shape.Kept each depth (parts a)) (inverse : make (parts a) = a) :
    Codec.Shape.Kept (@Codec.Shape.record α β σ name fields make parts distinct each) (depth + 1) a

/-- The same of fields. -/
inductive Fields.Shape.Kept : {β σ : Type} → {fields : Fields β σ} → fields.Shape → ℕ → β → Prop
  | nil {depth : ℕ} : Fields.Shape.Kept .nil depth ()
  | cons {α β σ : Type} {f : Field α} {rest : Fields β σ} {first : f.codec.Shape}
    {others : rest.Shape} {depth : ℕ} {a : α} {b : β} (kept : Codec.Shape.Kept first depth a)
    (each : Fields.Shape.Kept others depth b) : Fields.Shape.Kept (.cons first others) depth (a, b)

end

/-! ## Every form is read -/

theorem gives_list {α : Type} {c : Codec α} {as : List α} {vs : List Value}
    (each : List.Forall₂ (fun a v => c.Gives depth v (.ok a)) as vs) :
    c.list.Gives (depth + 1) (.array vs) (.ok as) := by
  obtain ⟨exactly, decoded⟩ := (List.forall₂_and_left vs as).1
    (each.flip.imp fun _ _ gives => ⟨gives.exactly, gives.decodes⟩)
  exact ⟨.array exactly, decodeItems_itemsTree decoded⟩

theorem Fields.Shape.FormsMembers.names : {β σ : Type} → {fields : Fields β σ} →
    {s : fields.Shape} → {b : β} → {ms : List (String × Value)} → s.FormsMembers b ms →
    (ms.map Prod.fst).Sublist fields.names
  | _, _, _, .nil, _, ms, h => by
    rw [Fields.Shape.FormsMembers] at h
    rw [h]
    exact .slnil
  | _, _, _, .cons _ others, (_, _), ms, h => by
    rw [Fields.Shape.FormsMembers] at h
    rcases h with ⟨-, h⟩ | ⟨v, rest, rfl, -, h⟩
    · exact h.names.cons _
    · exact h.names.cons_cons _

mutual

/-- A value is read from every form of it, if its parts are kept. -/
theorem Codec.Shape.Kept.gives : {α : Type} → {c : Codec α} → {s : c.Shape} → {depth : ℕ} →
    {a : α} → s.Kept depth a → ∀ {v : Value}, s.Forms a v → c.Gives depth v (.ok a)
  | _, _, _, _, _, .scalar kept, _, h | _, _, _, _, _, .choice kept, _, h
  | _, _, _, _, _, .map kept, _, h | _, _, _, _, _, .free kept, _, h => by
    rw [Codec.Shape.Forms] at h
    rw [h]
    exact kept.gives
  | _, _, _, _, _, .none, _, h => by
    rw [Codec.Shape.Forms] at h
    rw [h]
    exact ⟨.null, rfl⟩
  | _, _, _, depth, _, .some (c := c) (a := a) kept apart, v, h => by
    rw [Codec.Shape.Forms] at h
    have gives : c.Gives depth v (.ok a) := kept.gives h
    refine ⟨gives.exactly, ?_⟩
    have given : v.tree ≠ .null := fun null => apart (null ▸ gives.decodes)
    rw [decode_optional given, gives.decodes]
    rfl
  | _, _, .list (c := c) s, depth + 1, as, .list kept, _, h => by
    rw [Codec.Shape.Forms] at h
    obtain ⟨vs, rfl, forms⟩ := h
    have each : ∀ a ∈ as, ∀ {v}, s.Forms a v → c.Gives depth v (.ok a) :=
      fun a ha _ form => (kept a ha).gives form
    exact gives_list (((List.forall₂_and_left _ _).2 ⟨each, forms⟩).imp fun _ _ h => h.1 h.2)
  | _, _, .record distinct _, _, _, .record kept inverse, _, h => by
    rw [Codec.Shape.Forms] at h
    rcases h with ⟨vs, rfl, forms⟩ | ⟨ms, ms', rfl, perm, forms⟩
    · obtain ⟨exactly, elements⟩ := kept.elements forms
      exact ⟨.array exactly, decode_record_array.2 ⟨_, elements _ 0, inverse⟩⟩
    · obtain ⟨exactly, follows⟩ := kept.follows distinct forms
      refine ⟨.object fun m hm => exactly m (perm.symm.subset hm), ?_⟩
      exact decode_record_object.2
        ⟨_, Fields.ofMembers_of_follows distinct (follows.perm perm), inverse⟩

theorem Fields.Shape.Kept.elements : {β σ : Type} → {fields : Fields β σ} → {s : fields.Shape} →
    {depth : ℕ} → {b : β} → s.Kept depth b → ∀ {vs : List Value}, s.FormsItems b vs →
    (∀ v ∈ vs, v.Exact) ∧ ∀ expected index,
      fields.ofElements .text depth expected index (itemsTree vs) = .ok (b, .close)
  | _, _, _, _, _, _, .nil, vs, h => by
    rw [Fields.Shape.FormsItems] at h
    rw [h]
    exact ⟨nofun, fun _ _ => rfl⟩
  | _, _, _, _, _, _, .cons kept each, [], h => by
    rw [Fields.Shape.FormsItems] at h
    refine ⟨nofun, fun expected index => ?_⟩
    rw [itemsTree, Fields.ofElements, h.1]
    exact map_eq_ok_iff.2 ⟨_, (each.elements h.2).2 expected (index + 1), rfl⟩
  | _, _, _, _, _, _, .cons kept each, v :: vs, h => by
    rw [Fields.Shape.FormsItems] at h
    have first := kept.gives h.1
    obtain ⟨exactly, elements⟩ := each.elements h.2
    refine ⟨List.forall_mem_cons.2 ⟨first.exactly, exactly⟩, fun expected index => ?_⟩
    rw [itemsTree, Fields.ofElements, first.decodes, elements expected (index + 1)]
    rfl

theorem Fields.Shape.Kept.follows : {β σ : Type} → {fields : Fields β σ} → {s : fields.Shape} →
    {depth : ℕ} → {b : β} → s.Kept depth b → fields.names.Nodup →
    ∀ {ms : List (String × Value)}, s.FormsMembers b ms →
    (∀ m ∈ ms, m.2.Exact) ∧ fields.Follows .text depth (membersTree ms) fields.noSlots b
  | _, _, _, _, _, _, .nil, _, ms, h => by
    rw [Fields.Shape.FormsMembers] at h
    rw [h]
    exact ⟨nofun, trivial⟩
  | _, _, _, _, _, _, .cons (f := f) kept each, distinct, ms, h => by
    rw [Fields.Shape.FormsMembers] at h
    rw [Fields.names, List.nodup_cons] at distinct
    rcases h with ⟨absent, h⟩ | ⟨v, rest, rfl, form, h⟩
    · obtain ⟨exactly, follows⟩ := each.follows distinct.2 h
      refine ⟨exactly, ?_, follows⟩
      rw [Fields.named_eq_nil fun hm => distinct.1 (h.names.subset hm)]
      exact absent
    · have first := kept.gives form
      obtain ⟨exactly, follows⟩ := each.follows distinct.2 h
      refine ⟨List.forall_mem_cons.2 ⟨first.exactly, exactly⟩, ?_, follows.pass distinct.1⟩
      rw [membersTree, Members.named, if_pos rfl,
        Fields.named_eq_nil fun hm => distinct.1 (h.names.subset hm)]
      exact first.decodes

end

/-! ## Arrays that were cut short -/

theorem Codec.Shape.Cut.ne_null : {α : Type} → {c : Codec α} → {s : c.Shape} → {v v' : Value} →
    {e : Error} → s.Cut v v' e → v ≠ .null ∧ v' ≠ .null
  | _, _, .scalar _, _, _, _, h | _, _, .choice _ _, _, _, _, h | _, _, .free, _, _, _, h
  | _, _, .map _, _, _, _, h => by
    rw [Codec.Shape.Cut] at h
    exact h.elim
  | _, _, .optional s, _, _, _, h => by
    rw [Codec.Shape.Cut] at h
    exact h.ne_null
  | _, _, .list s, _, _, _, h => by
    rw [Codec.Shape.Cut] at h
    obtain ⟨front, w, w', back, rfl, rfl, -⟩ := h
    exact ⟨nofun, nofun⟩
  | _, _, .record _ fields, _, _, _, h => by
    rw [Codec.Shape.Cut] at h
    rcases h with ⟨vs, left, index, rfl, rfl, -, -⟩ | ⟨front, w, w', back, rfl, rfl, -⟩ |
      ⟨front, member, w, w', back, rfl, rfl, -⟩
    · exact ⟨nofun, nofun⟩
    · exact ⟨nofun, nofun⟩
    · exact ⟨nofun, nofun⟩

theorem tree_ne_null {v : Value} (h : v ≠ .null) : v.tree ≠ .null := by
  cases v with
  | null => exact absurd rfl h
  | bool | number | string | array | object => exact nofun

/-- One item that fails is where a list fails. -/
theorem decodeItems_of_cut {α : Type} {item : Tree → Except Error α} {front back : List Value}
    {w w' : Value} {e : Error} {as : List α}
    (read : Codec.decodeItems item (itemsTree (front ++ w :: back)) = .ok as) :
    ∃ a, item w.tree = .ok a ∧ (item w'.tree = .error e →
      Codec.decodeItems item (itemsTree (front ++ w' :: back)) = .error e) := by
  induction front generalizing as with
  | nil =>
    simp only [List.nil_append, itemsTree, Codec.decodeItems, bind_eq_ok_iff] at read ⊢
    obtain ⟨a, head, -⟩ := read
    refine ⟨a, head, fun fails => ?_⟩
    rw [fails]
    rfl
  | cons v front ih =>
    simp only [List.cons_append, itemsTree, Codec.decodeItems, bind_eq_ok_iff] at read ⊢
    obtain ⟨b, head, bs, tail, -⟩ := read
    obtain ⟨a, given, fails⟩ := ih tail
    refine ⟨a, given, fun cut => ?_⟩
    rw [head, fails cut]
    rfl

namespace Fields

variable {β σ : Type} {expected : String}

/-- At the end of an array the first element that it must have is missing. -/
theorem ofElements_close {fields : Fields β σ} {start index : ℕ}
    (needed : fields.needed 0 = some index) :
    fields.ofElements .text depth expected start .close =
      .error (.invalidLength (start + index) expected) := by
  induction fields generalizing start index with
  | nil => cases needed
  | cons f rest ih =>
    cases absent : f.presence.inArray with
    | none =>
      simp only [Fields.needed, absent, Option.some.injEq] at needed
      subst needed
      simp only [ofElements, absent, Nat.add_zero]
    | some a =>
      simp only [Fields.needed, absent] at needed
      obtain ⟨index, inner, rfl⟩ := Option.map_eq_some_iff.1 needed
      simp only [ofElements, absent, ih inner, Except.map]
      rw [Nat.succ_eq_add_one, Nat.add_comm index, Nat.add_assoc]

/-- Elements that are enough for the fields are too few without those that an array must have. -/
theorem ofElements_cut_short {fields : Fields β σ} {vs left : List Value} {start index : ℕ}
    {r : β × Elements} (needed : fields.needed vs.length = some index)
    (read : fields.ofElements .text depth expected start (itemsTree (vs ++ left)) = .ok r) :
    fields.ofElements .text depth expected start (itemsTree vs) =
      .error (.invalidLength (start + index) expected) := by
  induction fields generalizing vs start index with
  | nil => cases needed
  | cons f rest ih =>
    cases vs with
    | nil => exact ofElements_close needed
    | cons v vs =>
      rw [List.length_cons, Fields.needed] at needed
      obtain ⟨index, inner, rfl⟩ := Option.map_eq_some_iff.1 needed
      simp only [List.cons_append, itemsTree, ofElements, bind_eq_ok_iff] at read
      obtain ⟨a, head, others, tail, -⟩ := read
      have fails := ih inner tail
      rw [itemsTree, ofElements, head]
      simp only [bind, Except.bind, fails]
      rw [Nat.succ_eq_add_one, Nat.add_comm index, Nat.add_assoc]

/-- One member that fails is where an object fails. -/
theorem ofMembers_of_cut {fields : Fields β σ} {front back : List (String × Value)} {name : String}
    {w w' : Value} {e : Error} {slots : σ} {b : β}
    (read : fields.ofMembers .text depth slots (membersTree (front ++ (name, w) :: back)) = .ok b) :
    ∃ before found, fields.store .text depth name w.tree before = .ok found ∧
      (fields.store .text depth name w'.tree before = .error e →
        fields.ofMembers .text depth slots (membersTree (front ++ (name, w') :: back)) =
          .error e) := by
  induction front generalizing slots with
  | nil =>
    obtain ⟨found, stored, -⟩ := ofMembers_more.1 read
    refine ⟨slots, found, stored, fun fails => ?_⟩
    rw [List.nil_append, membersTree, ofMembers, fails]
  | cons m front ih =>
    obtain ⟨one, first, others⟩ := ofMembers_more.1 read
    obtain ⟨before, found, stored, fails⟩ := ih others
    refine ⟨before, found, stored, fun cut => ?_⟩
    rw [List.cons_append, membersTree, ofMembers, first]
    exact fails cut

end Fields

theorem decode_record_array_error {α β σ : Type} {name : String} {fields : Fields β σ}
    {make : β → α} {parts : α → β} {items : Elements} {e : Error}
    (fails : fields.ofElements .text depth (lengthText name fields.size) 0 items = .error e) :
    (Codec.record name fields make parts).decode .text (depth + 1) (.array items) = .error e := by
  simp only [Codec.record, descend, fails]
  rfl

theorem exact_replace {front back : List Value} {w w' : Value}
    (h : ∀ v ∈ front ++ w :: back, v.Exact) (exactly : w'.Exact) :
    ∀ v ∈ front ++ w' :: back, v.Exact := by
  simp only [List.forall_mem_append, List.forall_mem_cons] at h ⊢
  exact ⟨h.1, exactly, h.2.2⟩

mutual

/-- A value that was read is read no more after one of its positional records was cut short. -/
theorem Codec.Shape.gives_of_cut : {α : Type} → {c : Codec α} → (s : c.Shape) → {depth : ℕ} →
    {v v' : Value} → {e : Error} → {a : α} → s.Cut v v' e → c.Gives depth v (.ok a) →
    c.Gives depth v' (.error e)
  | _, _, .scalar _, _, _, _, _, _, h, _ | _, _, .choice _ _, _, _, _, _, _, h, _
  | _, _, .free, _, _, _, _, _, h, _ | _, _, .map _, _, _, _, _, _, h, _ => by
    rw [Codec.Shape.Cut] at h
    exact h.elim
  | _, _, .optional s, depth, v, v', e, a, h, gives => by
    rw [Codec.Shape.Cut] at h
    obtain ⟨before, after⟩ := h.ne_null
    have read := gives.decodes
    rw [decode_optional (tree_ne_null before)] at read
    obtain ⟨x, inner, -⟩ := map_eq_ok_iff.1 read
    have fails := s.gives_of_cut h ⟨gives.exactly, inner⟩
    refine ⟨fails.exactly, ?_⟩
    rw [decode_optional (tree_ne_null after), fails.decodes]
    rfl
  | _, _, .list s, depth, _, _, e, as, h, gives => by
    rw [Codec.Shape.Cut] at h
    obtain ⟨front, w, w', back, rfl, rfl, h⟩ := h
    obtain ⟨inner, rfl, opened⟩ := descend_eq_ok gives.decodes
    have exactly := Value.numbers_array_iff.1 gives.exactly
    obtain ⟨a, given, cut⟩ := decodeItems_of_cut opened
    have fails := s.gives_of_cut h ⟨exactly w (by simp), given⟩
    exact ⟨.array (exact_replace exactly fails.exactly), cut fails.decodes⟩
  | _, _, .record _ fields, 0, _, _, e, a, h, gives => by
    rw [Codec.Shape.Cut] at h
    rcases h with ⟨vs, left, index, rfl, -⟩ | ⟨front, w, w', back, rfl, -⟩ |
      ⟨front, member, w, w', back, rfl, -⟩ <;> cases gives.decodes
  | _, _, .record _ fields, depth + 1, _, _, e, a, h, gives => by
    rw [Codec.Shape.Cut] at h
    rcases h with ⟨vs, left, index, rfl, rfl, needed, rfl⟩ | ⟨front, w, w', back, rfl, rfl, h⟩ |
      ⟨front, member, w, w', back, rfl, rfl, h⟩
    · have exactly := List.forall_mem_append.1 (Value.numbers_array_iff.1 gives.exactly)
      obtain ⟨b, elements, -⟩ := decode_record_array.1 gives.decodes
      refine ⟨.array exactly.1, decode_record_array_error ?_⟩
      rw [Fields.ofElements_cut_short needed elements, Nat.zero_add]
    · have exactly := Value.numbers_array_iff.1 gives.exactly
      obtain ⟨b, elements, -⟩ := decode_record_array.1 gives.decodes
      obtain ⟨whole, fails⟩ := fields.ofElements_of_cut h (exactly w (by simp)) elements
      exact ⟨.array (exact_replace exactly whole), decode_record_array_error fails⟩
    · have exactly := Value.numbers_object_iff.1 gives.exactly
      obtain ⟨b, members, -⟩ := decode_record_object.1 gives.decodes
      obtain ⟨before, found, stored, cut⟩ := Fields.ofMembers_of_cut members
      obtain ⟨whole, fails⟩ := fields.store_of_cut h (exactly (member, w) (by simp)) stored
      refine ⟨.object ?_, ?_⟩
      · simp only [List.forall_mem_append, List.forall_mem_cons] at exactly ⊢
        exact ⟨exactly.1, whole, exactly.2.2⟩
      · exact congrArg (Except.map _) (cut fails)

theorem Fields.Shape.ofElements_of_cut : {β σ : Type} → {fields : Fields β σ} → (s : fields.Shape) →
    {depth : ℕ} → {expected : String} → {start : ℕ} → {front back : List Value} →
    {w w' : Value} → {e : Error} → {r : β × Elements} → s.CutItem front.length w w' e → w.Exact →
    fields.ofElements .text depth expected start (itemsTree (front ++ w :: back)) = .ok r →
    w'.Exact ∧
      fields.ofElements .text depth expected start (itemsTree (front ++ w' :: back)) = .error e
  | _, _, _, .nil, _, _, _, _, _, _, _, _, _, h, _, _ => by
    rw [Fields.Shape.CutItem] at h
    exact h.elim
  | _, _, _, .cons first _, _, _, _, [], _, _, _, _, _, h, exactly, read => by
    rw [List.length_nil, Fields.Shape.CutItem] at h
    simp only [List.nil_append, itemsTree, Fields.ofElements, bind_eq_ok_iff] at read ⊢
    obtain ⟨a, head, -⟩ := read
    have fails := first.gives_of_cut h ⟨exactly, head⟩
    refine ⟨fails.exactly, ?_⟩
    rw [fails.decodes]
    rfl
  | _, _, _, .cons _ others, _, _, _, _ :: _, _, _, _, _, _, h, exactly, read => by
    rw [List.length_cons, Fields.Shape.CutItem] at h
    simp only [List.cons_append, itemsTree, Fields.ofElements, bind_eq_ok_iff] at read ⊢
    obtain ⟨a, head, rest, tail, -⟩ := read
    obtain ⟨whole, fails⟩ := others.ofElements_of_cut h exactly tail
    refine ⟨whole, ?_⟩
    rw [head, fails]
    rfl

theorem Fields.Shape.store_of_cut : {β σ : Type} → {fields : Fields β σ} → (s : fields.Shape) →
    {depth : ℕ} → {name : String} → {w w' : Value} → {e : Error} → {slots found : σ} →
    s.CutMember name w w' e → w.Exact →
    fields.store .text depth name w.tree slots = .ok found →
    w'.Exact ∧ fields.store .text depth name w'.tree slots = .error e
  | _, _, _, .nil, _, _, _, _, _, _, _, h, _, _ => by
    rw [Fields.Shape.CutMember] at h
    exact h.elim
  | _, _, _, .cons (f := f) first others, _, name, _, _, _, (slot, slots), _, h, exactly, stored => by
    rw [Fields.Shape.CutMember] at h
    simp only [Fields.store] at stored ⊢
    split_ifs at h stored ⊢ with isName
    · cases slot with
      | some => cases stored
      | none =>
        obtain ⟨a, decoded, -⟩ := map_eq_ok_iff.1 stored
        have fails := first.gives_of_cut h ⟨exactly, decoded⟩
        refine ⟨fails.exactly, ?_⟩
        simp only [fails.decodes, Except.map]
    · obtain ⟨left, inner, -⟩ := map_eq_ok_iff.1 stored
      obtain ⟨whole, fails⟩ := others.store_of_cut h exactly inner
      refine ⟨whole, ?_⟩
      rw [fails]
      rfl

end

/-! ## Texts of a value -/

section Texts

variable {α β σ : Type} {c : Codec α} {s : c.Shape} {a : α}

/-- A value is read back from whatever form it is written in. After a positional record in it was cut
short, the text is of invalid length. -/
def Codec.Shape.ReadsForms (s : c.Shape) (a : α) : Prop :=
  (∀ v, s.Forms a v → c.read v.text = .ok a) ∧
    ∀ v v' e, s.Forms a v → s.Cut v v' e → c.read v'.text = .error e

theorem Codec.Shape.Kept.readsForms (kept : s.Kept maxDepth a) : s.ReadsForms a :=
  ⟨fun _ form => (kept.gives form).read,
    fun _ _ _ form cut => (s.gives_of_cut cut (kept.gives form)).read⟩

/-- All elements of the positional form but the last are too few. -/
def Codec.Shape.NeedsLast (s : c.Shape) (name : String) (before : ℕ) (a : α) : Prop :=
  ∀ vs last, vs.length = before → s.Forms a (.array (vs ++ [last])) →
    c.read (Value.array vs).text = .error (.invalidLength before (lengthText name (before + 1)))

/-- The last field of a record is needed in an array if it has no default. -/
theorem Codec.Shape.Kept.needsLast {name : String} {fields : Fields β σ} {make : β → α}
    {parts : α → β} {distinct : fields.names.Nodup} {each : fields.Shape} {before : ℕ}
    (kept : (@Codec.Shape.record α β σ name fields make parts distinct each).Kept maxDepth a)
    (needed : fields.needed before = .some before) (size : fields.size = before + 1) :
    (@Codec.Shape.record α β σ name fields make parts distinct each).ReadsForms a ∧
      (@Codec.Shape.record α β σ name fields make parts distinct each).NeedsLast name before a := by
  refine ⟨kept.readsForms, ?_⟩
  rintro vs last rfl form
  refine kept.readsForms.2 _ _ _ form ?_
  rw [Codec.Shape.Cut]
  exact .inl ⟨vs, [last], vs.length, rfl, rfl, needed, by rw [size]⟩

end Texts

/-! ## Parts that are kept -/

section Parts

theorem kept_text (text : String) : Codec.Shape.text.Kept depth text :=
  .scalar (keeps_text arrangement_asWritten text)

theorem kept_flag (b : Bool) : Codec.Shape.flag.Kept depth b :=
  .scalar (keeps_flag arrangement_asWritten b)

theorem kept_word (w : UInt64) : Codec.Shape.word.Kept depth w :=
  .scalar (keeps_word arrangement_asWritten w)

theorem kept_size (w : UInt64) : Codec.Shape.size.Kept depth w :=
  .scalar (keeps_size arrangement_asWritten w)

theorem kept_natural {expected : String} {n : ℕ} (small : n < unsignedBound) :
    (Codec.Shape.natural expected).Kept depth n :=
  .scalar (keeps_natural arrangement_asWritten small)

theorem kept_entries {entries : List (String × String)} (sorted : Ascending entries) :
    (Codec.Shape.map scalar_text).Kept (depth + 1) entries :=
  .map (keeps_map arrangement_asWritten sorted fun m _ => keeps_text arrangement_asWritten m.2)

theorem kept_optional {α : Type} {c : Codec α} {s : c.Shape} {a : Option α}
    (kept : ∀ v ∈ a, s.Kept depth v) (apart : ∀ v, c.decode .text depth .null ≠ .ok v) :
    (Codec.Shape.optional s).Kept depth a := by
  cases a with
  | none => exact .none
  | some v => exact .some (kept v rfl) (apart v)

theorem kept_textOrNull (text : Option String) : Codec.Shape.textOrNull.Kept depth text :=
  kept_optional (fun text _ => kept_text text) nofun

theorem kept_texts (texts : List String) : Codec.Shape.texts.Kept (depth + 1) texts :=
  .list fun text _ => kept_text text

end Parts

end TxRelay.Json
