import Mathlib.Tactic
import TxRelay.Proofs.Json.Record

/-!
# How a codec is built

The shape of a codec is the way in which it is built of others, down to scalars. What holds of every
codec of the wire is proved along its shape.

One tree carries another if it decodes to whatever the other decodes to. A record carries what its
fields carry, also if its object has members of other names besides.

Results:
* `store_of_carries`, `ofElements_of_carries`: a record reads the same from trees that its fields carry.
* `ofMembers_of_changes`: the same of an object in which members were changed and put in.
* `ofMembers_perm`: members of different names may come in any order.
-/

namespace TxRelay.Json

open TxRelay.Except

/-! ## Whole trees -/

/-- The elements of an array that ends. -/
def Elements.of : List Tree → Elements
  | [] => .close
  | t :: rest => .more t (of rest)

/-- The members of an object that ends. -/
def Members.of : List (Option String × Tree) → Members
  | [] => .close
  | (name, t) :: rest => .more name t (of rest)

/-- A tree that is neither an array nor an object. -/
def Tree.Leaf : Tree → Prop
  | .array _ | .object _ => False
  | _ => True

/-! ## Shapes -/

/-- Only leaves are decoded, and each the same wherever it stands. -/
structure Codec.Scalar {α : Type} (c : Codec α) : Prop where
  leaf {origin depth t a} (h : c.decode origin depth t = .ok a) : t.Leaf
  anywhere {origin depth t a} (h : c.decode origin depth t = .ok a) (origin' : Origin)
    (depth' : ℕ) : c.decode origin' depth' t = .ok a

mutual

/-- How a codec is built. -/
inductive Codec.Shape : {α : Type} → Codec α → Type 1
  | scalar {α : Type} {c : Codec α} (h : c.Scalar) : Codec.Shape c
  | choice {α : Type} (all : List α) (name : α → String) : Codec.Shape (.choice all name)
  | free : Codec.Shape .free
  | optional {α : Type} {c : Codec α} (s : Codec.Shape c) : Codec.Shape c.optional
  | list {α : Type} {c : Codec α} (s : Codec.Shape c) : Codec.Shape c.list
  | map {α : Type} {c : Codec α} (h : c.Scalar) : Codec.Shape c.map
  /-- A record of which no two fields have the same name. -/
  | record {α β σ : Type} {name : String} {fields : Fields β σ} {make : β → α} {parts : α → β}
    (distinct : fields.names.Nodup) (each : Fields.Shape fields) :
    Codec.Shape (.record name fields make parts)

/-- How the codecs of fields are built. -/
inductive Fields.Shape : {β σ : Type} → Fields β σ → Type 1
  | nil : Fields.Shape .nil
  | cons {α β σ : Type} {f : Field α} {rest : Fields β σ} (first : Codec.Shape f.codec)
    (others : Fields.Shape rest) : Fields.Shape (.cons f rest)

end

section Scalars

variable {α β : Type} {c : Codec α}

theorem scalar_text : Codec.text.Scalar where
  leaf {origin depth t a} h := by
    cases t with
    | array | object => cases h
    | null | bool | number | string | broken => trivial
  anywhere h _ _ := h

theorem scalar_flag : Codec.flag.Scalar where
  leaf {origin depth t a} h := by
    cases t with
    | array | object => cases h
    | null | bool | number | string | broken => trivial
  anywhere h _ _ := h

theorem scalar_natural (expected : String) : (Codec.natural expected).Scalar where
  leaf {origin depth t a} h := by
    cases t with
    | array | object => cases h
    | null | bool | number | string | broken => trivial
  anywhere h _ _ := h

theorem scalar_integer : Codec.integer.Scalar where
  leaf {origin depth t a} h := by
    cases t with
    | array | object => cases h
    | null | bool | number | string | broken => trivial
  anywhere h _ _ := h

theorem scalar_iso {forth : α → β} {back : β → α} (h : c.Scalar) : (c.iso forth back).Scalar where
  leaf read := by
    obtain ⟨a, read, -⟩ := map_eq_ok_iff.1 read
    exact h.leaf read
  anywhere read origin depth := by
    obtain ⟨a, read, made⟩ := map_eq_ok_iff.1 read
    exact map_eq_ok_iff.2 ⟨a, h.anywhere read origin depth, made⟩

end Scalars

/-- The shape of strings. -/
def Codec.Shape.text : Codec.text.Shape :=
  .scalar scalar_text

/-- The shape of strings that may be missing. -/
def Codec.Shape.textOrNull : Codec.text.optional.Shape :=
  .optional .text

/-- The shape of lists of strings. -/
def Codec.Shape.texts : (Codec.list .text).Shape :=
  .list .text

/-- The shape of booleans. -/
def Codec.Shape.flag : Codec.flag.Shape :=
  .scalar scalar_flag

/-- The shape of natural numbers. -/
def Codec.Shape.natural (expected : String) : (Codec.natural expected).Shape :=
  .scalar (scalar_natural expected)

/-- The shape of words. -/
def Codec.Shape.word : Codec.word.Shape :=
  .scalar (scalar_iso (scalar_natural "u64"))

/-- The shape of sizes. -/
def Codec.Shape.size : Codec.size.Shape :=
  .scalar (scalar_iso (scalar_natural "usize"))

/-- The shape of integers with a sign. -/
def Codec.Shape.integer : Codec.integer.Shape :=
  .scalar scalar_integer

/-! ## Trees that carry others -/

variable {origin origin' : Origin} {depth : ℕ}

/-- The second tree decodes to whatever the first decodes to. -/
def Codec.Carries {α : Type} (c : Codec α) (origin origin' : Origin) (depth : ℕ) (t t' : Tree) :
    Prop :=
  ∀ a, c.decode origin depth t = .ok a → c.decode origin' depth t' = .ok a

theorem decodeItems_of_carries {α : Type} {item item' : Tree → Except Error α}
    {pairs : List (Tree × Tree)} {as : List α}
    (carried : ∀ p ∈ pairs, ∀ a, item p.1 = .ok a → item' p.2 = .ok a)
    (h : Codec.decodeItems item (.of (pairs.map Prod.fst)) = .ok as) :
    Codec.decodeItems item' (.of (pairs.map Prod.snd)) = .ok as := by
  induction pairs generalizing as with
  | nil => exact h
  | cons p pairs ih =>
    obtain ⟨first, rest⟩ := List.forall_mem_cons.1 carried
    simp only [List.map_cons, Elements.of, Codec.decodeItems, bind_eq_ok_iff] at h ⊢
    obtain ⟨a, head, others, tail, made⟩ := h
    exact ⟨a, first a head, others, ih rest tail, made⟩

namespace Fields

variable {β σ : Type}

/-- As the value of a member, the second tree gives whatever the first gives. -/
def Carries (origin origin' : Origin) (depth : ℕ) (name : String) (t t' : Tree) :
    {β σ : Type} → Fields β σ → Prop
  | _, _, nil => t.skip = .ok () → t'.skip = .ok ()
  | _, _, cons f rest =>
    if name = f.name then f.codec.Carries origin origin' depth t t'
    else rest.Carries origin origin' depth name t t'

theorem store_of_carries {name : String} {t t' : Tree} {fields : Fields β σ} {slots found : σ}
    (carries : fields.Carries origin origin' depth name t t')
    (h : fields.store origin depth name t slots = .ok found) :
    fields.store origin' depth name t' slots = .ok found := by
  induction fields with
  | nil =>
    simp only [store] at h ⊢
    cases passed : t.skip with
    | error f =>
      rw [passed] at h
      cases h
    | ok =>
      rw [passed] at h
      rw [carries passed, ← h]
  | cons f rest ih =>
    obtain ⟨slot, slots⟩ := slots
    rw [Carries] at carries
    simp only [store] at h ⊢
    split_ifs at carries h ⊢ with isName
    · cases slot with
      | some => cases h
      | none =>
        obtain ⟨a, decoded, stored⟩ := map_eq_ok_iff.1 h
        exact map_eq_ok_iff.2 ⟨a, carries a decoded, stored⟩
    · obtain ⟨others, inner, stored⟩ := map_eq_ok_iff.1 h
      exact map_eq_ok_iff.2 ⟨others, ih carries inner, stored⟩

theorem carries_refl {name : String} {t : Tree} {fields : Fields β σ} :
    fields.Carries origin origin depth name t t := by
  induction fields with
  | nil => exact id
  | cons f rest ih =>
    rw [Carries]
    split_ifs
    · exact fun _ h => h
    · exact ih

/-! ### Arrays -/

/-- As the elements of the positional form, the second trees give whatever the first give. -/
def CarriesItems (origin origin' : Origin) (depth : ℕ) :
    {β σ : Type} → Fields β σ → List (Tree × Tree) → Prop
  | _, _, nil, _ => True
  | _, _, cons _ _, [] => True
  | _, _, cons f rest, p :: pairs =>
    f.codec.Carries origin origin' depth p.1 p.2 ∧ rest.CarriesItems origin origin' depth pairs

theorem ofElements_of_carries {expected : String} {fields : Fields β σ} {pairs : List (Tree × Tree)}
    {index : ℕ} {b : β} (carries : fields.CarriesItems origin origin' depth pairs)
    (h : fields.ofElements origin depth expected index (.of (pairs.map Prod.fst)) =
      .ok (b, .close)) :
    fields.ofElements origin' depth expected index (.of (pairs.map Prod.snd)) = .ok (b, .close) := by
  induction fields generalizing pairs index with
  | nil =>
    cases pairs with
    | nil => exact h
    | cons => cases h
  | cons f rest ih =>
    cases pairs with
    | nil =>
      -- Only missing elements are left, and what they stand for does not depend on the origin.
      simp only [List.map_nil, Elements.of, ofElements] at h ⊢
      split at h
      · cases h
      · obtain ⟨⟨others, left⟩, inner, made⟩ := map_eq_ok_iff.1 h
        cases made
        have missing : rest.CarriesItems origin origin' depth [] := by cases rest <;> trivial
        exact map_eq_ok_iff.2 ⟨_, ih missing inner, rfl⟩
    | cons p pairs =>
      simp only [List.map_cons, Elements.of, ofElements, bind_eq_ok_iff] at h ⊢
      obtain ⟨a, first, ⟨others, left⟩, inner, made⟩ := h
      cases made
      exact ⟨a, carries.1 a first, _, ih carries.2 inner, rfl⟩

/-! ### Objects -/

/-- What becomes of a member: it has another value, or it is put in. -/
structure Change where
  name : Option String
  old : Option Tree
  new : Tree

/-- The member before, if there was one. -/
def Change.before (c : Change) : Option (Option String × Tree) :=
  c.old.map fun t => (c.name, t)

/-- The member after. -/
def Change.after (c : Change) : Option String × Tree :=
  (c.name, c.new)

/-- Fields read the same after a change: the new value carries the old one, or a member is put in that
is passed over. -/
def Admits (origin origin' : Origin) (depth : ℕ) (fields : Fields β σ) (c : Change) : Prop :=
  ∀ name ∈ c.name,
    (∀ t ∈ c.old, fields.Carries origin origin' depth name t c.new) ∧
    (c.old = none → name ∉ fields.names ∧ c.new.skip = .ok ())

/-- A member of no field's name is passed over. -/
theorem store_other {name : String} {t : Tree} {fields : Fields β σ} {slots : σ}
    (other : name ∉ fields.names) (sound : t.skip = .ok ()) :
    fields.store origin depth name t slots = .ok slots := by
  induction fields with
  | nil => simp only [store, sound]
  | cons f rest ih =>
    obtain ⟨slot, slots⟩ := slots
    rw [names, List.mem_cons, not_or] at other
    simp only [store, if_neg other.1, ih other.2, Except.map]

theorem ofMembers_of_changes {fields : Fields β σ} {changes : List Change} {slots : σ} {b : β}
    (admitted : ∀ c ∈ changes, fields.Admits origin origin' depth c)
    (named : ∀ c ∈ changes, c.old = none → c.name ≠ none)
    (h : fields.ofMembers origin depth slots (.of (changes.filterMap Change.before)) = .ok b) :
    fields.ofMembers origin' depth slots (.of (changes.map Change.after)) = .ok b := by
  induction changes generalizing slots with
  | nil => exact h
  | cons c changes ih =>
    obtain ⟨name, old, new⟩ := c
    obtain ⟨first, rest⟩ := List.forall_mem_cons.1 admitted
    obtain ⟨isNamed, others⟩ := List.forall_mem_cons.1 named
    cases name with
    | none =>
      cases old with
      | none => exact absurd rfl (isNamed rfl)
      | some => cases h
    | some name =>
      obtain ⟨carried, passed⟩ := first name rfl
      cases old with
      | none =>
        obtain ⟨other, sound⟩ := passed rfl
        rw [List.map_cons, Change.after, Members.of, ofMembers, store_other other sound]
        exact ih rest others h
      | some old =>
        simp only [List.filterMap_cons, Change.before, Option.map_some, Members.of, ofMembers] at h
        cases stored : fields.store origin depth name old slots with
        | error e => rw [stored] at h; cases h
        | ok found =>
          rw [stored] at h
          rw [List.map_cons, Change.after, Members.of, ofMembers,
            store_of_carries (carried old rfl) stored]
          exact ih rest others h

/-! ### Other orders -/

/-- Members of different names are stored in either order. -/
theorem store_comm {name name' : String} {t t' : Tree} {fields : Fields β σ} {slots one both : σ}
    (apart : name ≠ name') (first : fields.store origin depth name t slots = .ok one)
    (second : fields.store origin depth name' t' one = .ok both) :
    ∃ other, fields.store origin depth name' t' slots = .ok other ∧
      fields.store origin depth name t other = .ok both := by
  induction fields with
  | nil =>
    -- Both are passed over.
    refine ⟨slots, ?_, ?_⟩
    · simp only [store] at second ⊢
      split at second
      · rfl
      · cases second
    · simp only [store] at first ⊢
      split at first
      · rfl
      · cases first
  | cons f rest ih =>
    obtain ⟨slot, slots⟩ := slots
    simp only [store] at first
    split_ifs at first with isName
    · cases slot with
      | some => cases first
      | none =>
        obtain ⟨a, decoded, rfl⟩ := map_eq_ok_iff.1 first
        have isOther : name' ≠ f.name := fun same => apart (isName.trans same.symm)
        rw [store, if_neg isOther] at second
        obtain ⟨others, inner, rfl⟩ := map_eq_ok_iff.1 second
        refine ⟨(none, others), ?_, ?_⟩
        · rw [store, if_neg isOther, inner]
          rfl
        · rw [store, if_pos isName, decoded]
          rfl
    · obtain ⟨others, inner, rfl⟩ := map_eq_ok_iff.1 first
      simp only [store] at second
      split_ifs at second with isOther
      · cases slot with
        | some => cases second
        | none =>
          obtain ⟨a, decoded, rfl⟩ := map_eq_ok_iff.1 second
          refine ⟨(some a, slots), ?_, ?_⟩
          · rw [store, if_pos isOther, decoded]
            rfl
          · rw [store, if_neg isName, inner]
            rfl
      · obtain ⟨all, outer, rfl⟩ := map_eq_ok_iff.1 second
        obtain ⟨other, before, after⟩ := ih inner outer
        refine ⟨(slot, other), ?_, ?_⟩
        · simp only [store, if_neg isOther, before, Except.map]
        · simp only [store, if_neg isName, after, Except.map]

/-- A member is stored, and then the members behind it are decoded. -/
theorem ofMembers_more {fields : Fields β σ} {name : String} {t : Tree} {rest : Members} {slots : σ}
    {b : β} :
    fields.ofMembers origin depth slots (.more (some name) t rest) = .ok b ↔
      ∃ found, fields.store origin depth name t slots = .ok found ∧
        fields.ofMembers origin depth found rest = .ok b := by
  rw [ofMembers]
  cases stored : fields.store origin depth name t slots with
  | error e => simp
  | ok found => simp

theorem ofMembers_cons {fields : Fields β σ} {m : Option String × Tree}
    {ms : List (Option String × Tree)} {slots : σ} {b : β} :
    fields.ofMembers origin depth slots (.of (m :: ms)) = .ok b ↔
      ∃ name found, m.1 = some name ∧ fields.store origin depth name m.2 slots = .ok found ∧
        fields.ofMembers origin depth found (.of ms) = .ok b := by
  obtain ⟨name, t⟩ := m
  cases name with
  | none => simp [Members.of, ofMembers]
  | some name => simp [Members.of, ofMembers_more]

/-- Members of different names may come in any order. -/
theorem ofMembers_perm {fields : Fields β σ} {ms ms' : List (Option String × Tree)} {slots : σ}
    {b : β} (perm : ms.Perm ms') (distinct : (ms.filterMap Prod.fst).Nodup)
    (h : fields.ofMembers origin depth slots (.of ms) = .ok b) :
    fields.ofMembers origin depth slots (.of ms') = .ok b := by
  induction perm generalizing slots with
  | nil => exact h
  | cons m _ ih =>
    rw [ofMembers_cons] at h ⊢
    obtain ⟨name, found, isName, stored, others⟩ := h
    rw [List.filterMap_cons, isName] at distinct
    exact ⟨name, found, isName, stored, ih distinct.of_cons others⟩
  | swap m n ms =>
    rw [ofMembers_cons] at h
    obtain ⟨name, one, isName, first, h⟩ := h
    rw [ofMembers_cons] at h
    obtain ⟨name', both, isName', second, h⟩ := h
    have apart : name ≠ name' := by
      simp only [List.filterMap_cons, isName, isName'] at distinct
      exact fun same => (List.nodup_cons.1 distinct).1 (same ▸ List.mem_cons_self)
    obtain ⟨other, before, after⟩ := store_comm apart first second
    exact ofMembers_cons.2 ⟨name', other, isName', before,
      ofMembers_cons.2 ⟨name, both, isName, after, h⟩⟩
  | trans perm _ ih ih' =>
    exact ih' ((perm.filterMap _).nodup_iff.1 distinct) (ih distinct h)

end Fields

/-! ### Records -/

section Records

variable {α β σ : Type} {name : String} {fields : Fields β σ} {make : β → α} {parts : α → β}

theorem ended_eq_ok {total : ℕ} {rest : Elements} (h : rest.ended origin total = .ok ()) :
    rest = .close := by
  cases rest with
  | close => rfl
  | stop f => cases h
  | more => cases origin <;> cases h

/-- A record is decoded from an array of its fields with nothing behind them. -/
theorem decode_record_array {items : Elements} {a : α} :
    (Codec.record name fields make parts).decode origin (depth + 1) (.array items) = .ok a ↔
      ∃ b, fields.ofElements origin depth (lengthText name fields.size) 0 items = .ok (b, .close) ∧
        make b = a := by
  simp only [Codec.record, descend, bind_eq_ok_iff]
  constructor
  · rintro ⟨⟨b, rest⟩, elements, ⟨⟩, ended, made⟩
    obtain rfl : rest = .close := ended_eq_ok ended
    exact ⟨b, elements, Except.ok.inj made⟩
  · rintro ⟨b, elements, rfl⟩
    exact ⟨(b, .close), elements, (), rfl, rfl⟩

theorem decode_record_object {members : Members} {a : α} :
    (Codec.record name fields make parts).decode origin (depth + 1) (.object members) = .ok a ↔
      ∃ b, fields.ofMembers origin depth fields.noSlots members = .ok b ∧ make b = a :=
  map_eq_ok_iff

end Records

end TxRelay.Json
