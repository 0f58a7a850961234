import Mathlib.Tactic
import TxRelay.Json.Record
import TxRelay.Proofs.Except

/-!
# What a record is read from

Each field of a record that could be read comes from one place of the tree: in an object from the one
member of its name, in an array from the element of its index. A place that is empty gives the value
that stands for the absence of the field.

Results:
* `reads_of_decode`: every field of a decoded record is read from its place.
* `Field.Reads.eq_none_iff`: a nullable field has no value exactly if its place is empty or null.
-/

namespace TxRelay.Json

open TxRelay.Except

/-! ## Places -/

/-- The values of the members of a name. -/
def Members.named (name : String) : Members → List Tree
  | .more (some other) tree rest =>
    if other = name then tree :: rest.named name else rest.named name
  | .more none _ rest => rest.named name
  | .close | .stop _ | .noName .. => []

/-- The elements of an array. -/
def Elements.trees : Elements → List Tree
  | .more head rest => head :: rest.trees
  | .close | .stop _ => []

/-- What stands in the place of a field. -/
def Tree.place (name : String) (index : ℕ) : Tree → List Tree
  | .object members => members.named name
  | .array items => items.trees[index]?.toList
  | _ => []

/-- A field is absent or null. -/
def Tree.Lacks (name : String) (index : ℕ) (t : Tree) : Prop :=
  ∀ value ∈ t.place name index, value = .null

variable {origin : Origin} {depth : ℕ}

/-- A field has the value that its place gives. -/
def Field.Reads {α : Type} (f : Field α) (origin : Origin) (depth : ℕ) : List Tree → α → Prop
  | [], a => f.presence.inObject = some a
  | [tree], a => f.codec.decode origin depth tree = .ok a
  | _, _ => False

theorem inObject_of_inArray {α : Type} {p : Presence α} {a : α} (h : p.inArray = some a) :
    p.inObject = some a := by
  cases p with
  | required | mayOmit => cases h
  | defaulted => exact h

namespace Fields

variable {β σ : Type}

/-- The names of fields. -/
def names : {β σ : Type} → Fields β σ → List String
  | _, _, nil => []
  | _, _, cons f rest => f.name :: rest.names

/-- The fields from an index on have the values that their places give. -/
def Reads (origin : Origin) (depth : ℕ) (tree : Tree) :
    {β σ : Type} → Fields β σ → ℕ → β → Prop
  | _, _, nil, _, _ => True
  | _, _, cons f rest, index, (a, b) =>
    f.Reads origin depth (tree.place f.name index) a ∧ rest.Reads origin depth tree (index + 1) b

/-! ## Objects -/

/-- The fields have the values that come of those found before and of the members still to come: a
field that was found does not come again. -/
def Follows (origin : Origin) (depth : ℕ) (members : Members) :
    {β σ : Type} → Fields β σ → σ → β → Prop
  | _, _, nil, _, _ => True
  | _, _, cons f rest, (slot, slots), (a, b) =>
    (match slot with
      | none => f.Reads origin depth (members.named f.name) a
      | some found => members.named f.name = [] ∧ a = found) ∧
    rest.Follows origin depth members slots b

theorem follows_of_finish {fields : Fields β σ} {slots : σ} {b : β}
    (h : fields.finish slots = .ok b) : fields.Follows origin depth .close slots b := by
  induction fields with
  | nil => trivial
  | cons f rest ih =>
    obtain ⟨slot, slots⟩ := slots
    obtain ⟨a, b⟩ := b
    cases value : slot.or f.presence.inObject with
    | none => simp [finish, value, bind, Except.bind] at h
    | some a' =>
      simp only [finish, value, bind_eq_ok_iff] at h
      obtain ⟨_, ⟨⟩, others, ended, ⟨⟩⟩ := h
      refine ⟨?_, ih ended⟩
      cases slot with
      | none => exact value
      | some found => exact ⟨rfl, (Option.some.inj value).symm⟩

/-- A member of no field's name changes nothing. -/
theorem Follows.pass {members : Members} {name : String} {tree : Tree} {fields : Fields β σ}
    {slots : σ} {b : β} (follows : fields.Follows origin depth members slots b)
    (other : name ∉ fields.names) :
    fields.Follows origin depth (.more (some name) tree members) slots b := by
  induction fields with
  | nil => trivial
  | cons f rest ih =>
    obtain ⟨slot, slots⟩ := slots
    obtain ⟨a, b⟩ := b
    simp only [names, List.mem_cons, not_or] at other
    have same : (Members.more (some name) tree members).named f.name = members.named f.name :=
      if_neg other.1
    refine ⟨?_, ih follows.2 other.2⟩
    rw [same]
    exact follows.1

theorem Follows.store {members : Members} {name : String} {tree : Tree} {fields : Fields β σ}
    {slots found : σ} {b : β} (distinct : fields.names.Nodup)
    (stored : fields.store origin depth name tree slots = .ok found)
    (follows : fields.Follows origin depth members found b) :
    fields.Follows origin depth (.more (some name) tree members) slots b := by
  induction fields with
  | nil => trivial
  | cons f rest ih =>
    obtain ⟨slot, slots⟩ := slots
    obtain ⟨a, b⟩ := b
    simp only [names, List.nodup_cons] at distinct
    simp only [Fields.store] at stored
    split_ifs at stored with isName
    · subst isName
      cases slot with
      | some => cases stored
      | none =>
        obtain ⟨value, decoded, rfl⟩ := map_eq_ok_iff.1 stored
        obtain ⟨⟨last, rfl⟩, others⟩ := follows
        have place : (Members.more (some f.name) tree members).named f.name = [tree] := by
          simp [Members.named, last]
        refine ⟨?_, others.pass distinct.1⟩
        rw [place]
        exact decoded
    · obtain ⟨others, inner, rfl⟩ := map_eq_ok_iff.1 stored
      have same : (Members.more (some name) tree members).named f.name = members.named f.name :=
        if_neg isName
      refine ⟨?_, ih distinct.2 inner follows.2⟩
      rw [same]
      exact follows.1

theorem follows_of_members {fields : Fields β σ} (distinct : fields.names.Nodup)
    (members : Members) {slots : σ} {b : β}
    (h : fields.ofMembers origin depth slots members = .ok b) :
    fields.Follows origin depth members slots b := by
  -- Induction on the members, whose type is nested in that of trees.
  match members with
  | .close => exact follows_of_finish h
  | .stop _ | .noName .. | .more none _ _ => simp [ofMembers] at h
  | .more (some name) tree rest =>
    simp only [ofMembers] at h
    split at h
    next => cases h
    next found stored => exact (follows_of_members distinct rest h).store distinct stored

theorem Follows.reads {members : Members} {fields : Fields β σ} {b : β}
    (follows : fields.Follows origin depth members fields.noSlots b) (index : ℕ) :
    fields.Reads origin depth (.object members) index b := by
  induction fields generalizing index with
  | nil => trivial
  | cons f rest ih => exact ⟨follows.1, ih follows.2 (index + 1)⟩

/-! ## Arrays -/

theorem reads_of_elements {fields : Fields β σ} {items rest : Elements} {expected : String} {b : β}
    {index count : ℕ} (all : Elements) (left : all.trees.drop index = items.trees)
    (h : fields.ofElements origin depth expected count items = .ok (b, rest)) :
    fields.Reads origin depth (.array all) index b := by
  induction fields generalizing items index count with
  | nil => trivial
  | cons f fields ih =>
    obtain ⟨a, b⟩ := b
    have place : Tree.place f.name index (.array all) = items.trees[0]?.toList := by
      rw [← left, List.getElem?_drop, Nat.add_zero, Tree.place]
    have next (tail : Elements) (follows : items.trees.tail = tail.trees) :
        all.trees.drop (index + 1) = tail.trees := by
      rw [← follows, ← left, List.tail_drop]
    cases items with
    | stop e => simp [ofElements] at h
    | close =>
      simp only [ofElements] at h
      split at h
      next => cases h
      next missing absent =>
        obtain ⟨_, others, made⟩ := map_eq_ok_iff.1 h
        cases made
        refine ⟨?_, ih (next _ rfl) others⟩
        rw [place]
        exact inObject_of_inArray absent
    | more head tail =>
      simp only [ofElements, bind_eq_ok_iff] at h
      obtain ⟨value, decoded, _, others, made⟩ := h
      cases made
      refine ⟨?_, ih (next _ rfl) others⟩
      rw [place]
      exact decoded

end Fields

/-! ## Records -/

theorem read_eq_ok {α : Type} {c : Codec α} {text : String} {a : α} :
    c.read text = .ok a ↔ c.decode .text maxDepth (Document.read text.toList).tree = .ok a ∧
      (Document.read text.toList).complete = true := by
  simp only [Codec.read]
  cases decoded : c.decode .text maxDepth (Document.read text.toList).tree with
  | error e => simp
  | ok b => cases (Document.read text.toList).complete <;> simp

theorem decode_of_read {α : Type} {c : Codec α} {text : String} {a : α} (h : c.read text = .ok a) :
    c.decode .text maxDepth (Document.read text.toList).tree = .ok a :=
  (read_eq_ok.1 h).1

theorem descend_eq_ok {α : Type} {inside : ℕ → Except Error α} {a : α}
    (h : descend depth inside = .ok a) : ∃ inner, depth = inner + 1 ∧ inside inner = .ok a := by
  cases depth with
  | zero => cases h
  | succ inner => exact ⟨inner, rfl, h⟩

theorem reads_of_decode {α β σ : Type} {name : String} {fields : Fields β σ} {make : β → α}
    {parts : α → β} {tree : Tree} {a : α} (distinct : fields.names.Nodup)
    (h : (Codec.record name fields make parts).decode origin depth tree = .ok a) :
    ∃ inner b, depth = inner + 1 ∧ a = make b ∧ fields.Reads origin inner tree 0 b := by
  cases tree with
  | array items =>
    obtain ⟨inner, rfl, opened⟩ := descend_eq_ok h
    simp only [bind_eq_ok_iff] at opened
    obtain ⟨⟨b, rest⟩, elements, -, -, made⟩ := opened
    cases made
    exact ⟨inner, b, rfl, rfl, Fields.reads_of_elements items (by simp) elements⟩
  | object members =>
    obtain ⟨inner, rfl, opened⟩ := descend_eq_ok h
    obtain ⟨b, found, made⟩ := map_eq_ok_iff.1 opened
    exact ⟨inner, b, rfl, made.symm, (Fields.follows_of_members distinct members found).reads 0⟩
  | null | bool | number | string | broken => simp [Codec.record] at h

/-! ## Nullable fields -/

theorem decode_optional_eq_none {α : Type} {c : Codec α} {tree : Tree} {a : Option α}
    (h : c.optional.decode origin depth tree = .ok a) : a = none ↔ tree = .null := by
  cases tree with
  | null => cases h; simp
  | bool | number | string | array | object | broken =>
    obtain ⟨value, -, rfl⟩ := map_eq_ok_iff.1 h
    simp

theorem Field.Reads.eq_none_iff {α : Type} {name : String} {c : Codec α} {hidden : Option α → Bool}
    {place : List Tree} {a : Option α}
    (reads : ((Field.nullable name c).hide hidden).Reads origin depth place a) :
    a = none ↔ ∀ value ∈ place, value = .null := by
  match place with
  | [] =>
    cases reads
    simp
  | [tree] =>
    rw [List.forall_mem_singleton]
    exact decode_optional_eq_none reads
  | _ :: _ :: _ => exact reads.elim

end TxRelay.Json
