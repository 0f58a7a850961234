import Mathlib.Tactic
import TxRelay.Proofs.Json.Free
import TxRelay.Proofs.Json.Shape

/-!
# Other orders of members

Trees are reordered if they differ only in the order of the members of objects, at any depth. Where no
object repeats a name, a codec decodes reordered trees alike, wherever they come from. Reading a value
freely reorders a tree: it sorts the members by name.

Results:
* `Codec.Shape.carries_reordered`: a tree carries those that are reordered from it.
* `reordered_of_free`: what is read freely is reordered from the tree.
* `Codec.Shape.read_iff_ofValue`: a text is read as the value that is read from it freely.
-/

namespace TxRelay.Json

open TxRelay.Except

/-! ## Names that are not repeated -/

/-- The names of members, those aside that hold half of a surrogate pair. -/
def Members.names : Members → List String
  | .more (some name) _ rest => name :: rest.names
  | .more none _ rest => rest.names
  | .close | .stop _ | .noName .. => []

mutual

/-- No object in a tree repeats a name. -/
def Tree.Distinct : Tree → Prop
  | .array items => items.Distinct
  | .object members => members.names.Nodup ∧ members.Distinct
  | .null | .bool _ | .number _ | .string _ | .broken _ => True

/-- The same of what follows in an array. -/
def Elements.Distinct : Elements → Prop
  | .close | .stop _ => True
  | .more head rest => head.Distinct ∧ rest.Distinct

/-- The same of the values of members. -/
def Members.Distinct : Members → Prop
  | .close | .stop _ | .noName .. => True
  | .more _ value rest => value.Distinct ∧ rest.Distinct

end

-- Of the tree of a given text this must not be evaluated: it would read the text.
attribute [irreducible] Tree.Distinct

theorem names_of (ms : List (Option String × Tree)) :
    (Members.of ms).names = ms.filterMap Prod.fst := by
  induction ms with
  | nil => rfl
  | cons m ms ih =>
    obtain ⟨name, t⟩ := m
    cases name with
    | none => exact ih
    | some name => exact congrArg (name :: ·) ih

theorem distinct_elements_of {ts : List Tree} :
    (Elements.of ts).Distinct ↔ ∀ t ∈ ts, t.Distinct := by
  induction ts with
  | nil => simp [Elements.of, Elements.Distinct]
  | cons t ts ih => rw [Elements.of, Elements.Distinct, ih, List.forall_mem_cons]

theorem distinct_members_of {ms : List (Option String × Tree)} :
    (Members.of ms).Distinct ↔ ∀ m ∈ ms, m.2.Distinct := by
  induction ms with
  | nil => simp [Members.of, Members.Distinct]
  | cons m ms ih => rw [Members.of, Members.Distinct, ih, List.forall_mem_cons]

/-! ## Reordered trees -/

/-- Trees that differ only in the order of the members of objects. -/
inductive Tree.Reordered : Tree → Tree → Prop
  | null : Reordered .null .null
  | bool (b : Bool) : Reordered (.bool b) (.bool b)
  | number (n : Option Number) : Reordered (.number n) (.number n)
  | string (s : Option String) : Reordered (.string s) (.string s)
  | array (pairs : List (Tree × Tree)) (each : ∀ p ∈ pairs, Reordered p.1 p.2) :
    Reordered (.array (.of (pairs.map Prod.fst))) (.array (.of (pairs.map Prod.snd)))
  /-- A member has its name, its value before and its value after. -/
  | object (ms ms' : List (Option String × Tree × Tree)) (each : ∀ m ∈ ms, Reordered m.2.1 m.2.2)
      (perm : ms.Perm ms') :
    Reordered (.object (.of (ms.map fun m => (m.1, m.2.1))))
      (.object (.of (ms'.map fun m => (m.1, m.2.2))))

theorem Tree.Reordered.symm {t t' : Tree} (h : t.Reordered t') : t'.Reordered t := by
  induction h with
  | null => exact .null
  | bool b => exact .bool b
  | number n => exact .number n
  | string s => exact .string s
  | array pairs _ ih =>
    have swapped := Tree.Reordered.array (pairs.map Prod.swap) (List.forall_mem_map.2 ih)
    simpa [Function.comp_def] using swapped
  | object ms ms' _ perm ih =>
    have swapped := Tree.Reordered.object (ms'.map fun m => (m.1, m.2.2, m.2.1))
      (ms.map fun m => (m.1, m.2.2, m.2.1))
      (List.forall_mem_map.2 fun m hm => ih m (perm.symm.subset hm)) (perm.symm.map _)
    simpa [Function.comp_def] using swapped

theorem Tree.Reordered.distinct {t t' : Tree} (h : t.Reordered t') (distinct : t.Distinct) :
    t'.Distinct := by
  induction h with
  | null | bool | number | string => trivial
  | array _ _ ih =>
    rw [Tree.Distinct, distinct_elements_of, List.forall_mem_map] at distinct ⊢
    exact fun p hp => ih p hp (distinct p hp)
  | object ms ms' _ perm ih =>
    rw [Tree.Distinct, names_of, distinct_members_of, List.forall_mem_map, List.filterMap_map]
      at distinct ⊢
    refine ⟨(perm.filterMap _).nodup_iff.1 distinct.1, fun m hm => ?_⟩
    have before := perm.symm.subset hm
    exact ih m before (distinct.2 m before)

theorem skip_elements_of {ts : List Tree} (h : ∀ t ∈ ts, t.skip = .ok ()) :
    (Elements.of ts).skip = .ok () := by
  induction ts with
  | nil => rfl
  | cons t ts ih =>
    rw [List.forall_mem_cons] at h
    rw [Elements.of, Elements.skip, h.1, ih h.2]

theorem skip_members_of {ms : List (Option String × Tree)} (h : ∀ m ∈ ms, m.2.skip = .ok ()) :
    (Members.of ms).skip = .ok () := by
  induction ms with
  | nil => rfl
  | cons m ms ih =>
    rw [List.forall_mem_cons] at h
    rw [Members.of, Members.skip, h.1, ih h.2]

/-- A reordered tree is whole and can be passed over. -/
theorem Tree.Reordered.skip {t t' : Tree} (h : t.Reordered t') : t'.skip = .ok () := by
  induction h with
  | null | bool | number | string => rfl
  | array _ _ ih => exact skip_elements_of (List.forall_mem_map.2 ih)
  | object _ _ _ perm ih =>
    exact skip_members_of (List.forall_mem_map.2 fun m hm => ih m (perm.symm.subset hm))

/-! ## Entries of maps -/

section Entries

variable {α : Type} {value value' : Tree → Except Error α}

/-- The members of a map are decoded to its entries, which are then sorted in. -/
theorem decodeEntries_eq_ok {ms : List (Option String × Tree)} {done entries : List (String × α)} :
    Codec.decodeEntries value done (.of ms) = .ok entries ↔
      ∃ read, List.Forall₂ (fun m e => m.1 = some e.1 ∧ value m.2 = .ok e.2) ms read ∧
        insertAll read done = entries := by
  induction ms generalizing done with
  | nil =>
    show Except.ok done = Except.ok entries ↔ _
    simp [insertAll]
  | cons m ms ih =>
    obtain ⟨name, t⟩ := m
    simp only [List.forall₂_cons_left_iff]
    cases name with
    | none => simp [Members.of, Codec.decodeEntries]
    | some name =>
      simp only [Members.of, Codec.decodeEntries, bind_eq_ok_iff, ih]
      constructor
      · rintro ⟨a, first, read, others, rfl⟩
        exact ⟨_, ⟨(name, a), read, ⟨rfl, first⟩, others, rfl⟩, rfl⟩
      · rintro ⟨_, ⟨⟨_, a⟩, read, ⟨⟨⟩, first⟩, others, rfl⟩, rfl⟩
        exact ⟨a, first, read, others, rfl⟩

/-- Members of different names give the same map in any order. -/
theorem decodeEntries_reordered {ms ms' : List (Option String × Tree × Tree)}
    {entries : List (String × α)} (perm : ms.Perm ms')
    (distinct : (ms.filterMap Prod.fst).Nodup)
    (carried : ∀ m ∈ ms, ∀ a, value m.2.1 = .ok a → value' m.2.2 = .ok a)
    (h : Codec.decodeEntries value [] (.of (ms.map fun m => (m.1, m.2.1))) = .ok entries) :
    Codec.decodeEntries value' [] (.of (ms'.map fun m => (m.1, m.2.2))) = .ok entries := by
  obtain ⟨read, each, rfl⟩ := decodeEntries_eq_ok.1 h
  rw [List.forall₂_map_left_iff] at each
  have names : ms.filterMap Prod.fst = read.map Prod.fst := by
    clear perm distinct carried h
    induction each with
    | nil => rfl
    | cons first _ ih => rw [List.filterMap_cons, first.1, List.map_cons, ih]
  have carriedEach : List.Forall₂ (fun m e => m.1 = some e.1 ∧ value' m.2.2 = .ok e.2) ms read := by
    clear perm distinct h names
    induction each with
    | nil => exact .nil
    | cons first _ ih =>
      obtain ⟨head, tail⟩ := List.forall_mem_cons.1 carried
      exact .cons ⟨first.1, head _ first.2⟩ (ih tail)
  obtain ⟨read', moved, same⟩ := List.perm_comp_forall₂ perm.symm carriedEach
  refine decodeEntries_eq_ok.2 ⟨read', List.forall₂_map_left_iff.2 moved, ?_⟩
  rw [names] at distinct
  have sorted : (insertAll read []).Perm read := insertAll_perm distinct
  have sorted' : (insertAll read' []).Perm read' := insertAll_perm ((same.map _).nodup_iff.2 distinct)
  exact (ascending_insertAll .nil).eq_of_perm (ascending_insertAll .nil)
    (sorted'.trans (same.trans sorted.symm))

/-- Members are read freely as the members of a map of free values. -/
theorem free_members_eq (depth : ℕ) : ∀ (members : Members) (done : List (String × Value)),
    members.free depth done = Codec.decodeEntries (Tree.free depth) done members
  | .close, _ | .stop _, _ | .noName .., _ | .more none _ _, _ => rfl
  | .more (some name) t rest, done => by
    rw [Members.free, Codec.decodeEntries]
    congr 1
    funext v
    exact free_members_eq depth rest _

/-- Items are read freely as the items of a list of free values. -/
theorem free_items_eq (depth : ℕ) : ∀ items : Elements,
    items.free depth = Codec.decodeItems (Tree.free depth) items
  | .close | .stop _ => rfl
  | .more head rest => by rw [Elements.free, Codec.decodeItems, free_items_eq depth rest]

end Entries

/-! ## Codecs do not see the order -/

variable {origin origin' : Origin} {depth : ℕ} {t t' : Tree}

theorem free_reordered {v : Value} (reordered : t.Reordered t') (distinct : t.Distinct)
    (h : t.free depth = .ok v) : t'.free depth = .ok v := by
  induction reordered generalizing depth v with
  | null | bool | number | string => exact h
  | array _ _ ih =>
    rw [Tree.Distinct, distinct_elements_of, List.forall_mem_map] at distinct
    cases depth with
    | zero => cases h
    | succ depth =>
      rw [Tree.free, free_items_eq] at h ⊢
      obtain ⟨vs, items, made⟩ := map_eq_ok_iff.1 h
      refine map_eq_ok_iff.2 ⟨vs, decodeItems_of_carries ?_ items, made⟩
      exact fun p hp w => ih p hp (distinct p hp)
  | object _ _ _ perm ih =>
    rw [Tree.Distinct, names_of, distinct_members_of, List.forall_mem_map, List.filterMap_map]
      at distinct
    cases depth with
    | zero => cases h
    | succ depth =>
      rw [Tree.free, free_members_eq] at h ⊢
      obtain ⟨ms, members, made⟩ := map_eq_ok_iff.1 h
      refine map_eq_ok_iff.2 ⟨ms, decodeEntries_reordered perm distinct.1 ?_ members, made⟩
      exact fun m hm w => ih m hm (distinct.2 m hm)

/-- The object form of a choice has one member, and its value is null. -/
theorem decodeTagged_eq_ok {α : Type} {all : List α} {name : α → String} {members : Members} {a : α}
    (h : Codec.decodeTagged all name origin members = .ok a) :
    ∃ s, members = .of [(some s, .null)] ∧
      ∀ origin', Codec.decodeTagged all name origin' members = .ok a := by
  cases members with
  | close => cases origin <;> cases h
  | stop | noName => cases h
  | more s value rest =>
    cases s with
    | none => cases h
    | some s =>
      have opened : (do
          let b ← Codec.variant all name s
          Codec.decodeUnit value
          Codec.decodeOnly rest
          return b) = Except.ok a := by
        cases origin with
        | text => exact h
        | value =>
          cases rest with
          | close => exact h
          | stop | noName | more => cases h
      simp only [bind_eq_ok_iff] at opened
      obtain ⟨b, found, ⟨⟩, isNull, ⟨⟩, only, made⟩ := opened
      obtain rfl : value = .null := by
        cases value with
        | null => rfl
        | bool | number | string | array | object | broken => cases isNull
      obtain rfl : rest = .close := by
        cases rest with
        | close => rfl
        | stop | noName | more => cases only
      refine ⟨s, rfl, fun origin' => ?_⟩
      simp only [Codec.decodeTagged, found, ← made]
      cases origin' <;> rfl

theorem choice_reordered {α : Type} {all : List α} {name : α → String} {a : α}
    (reordered : t.Reordered t') (h : (Codec.choice all name).decode origin depth t = .ok a) :
    (Codec.choice all name).decode origin' depth t' = .ok a := by
  cases reordered with
  | string s =>
    cases s with
    | none => cases h
    | some => exact h
  | object ms ms' each perm =>
    obtain ⟨inner, rfl, opened⟩ := descend_eq_ok h
    obtain ⟨s, single, same⟩ := decodeTagged_eq_ok opened
    -- There is one member, so that there is no other order.
    have stays : Members.of (ms'.map fun m => (m.1, m.2.2)) = .of [(some s, .null)] := by
      match ms with
      | [] => cases single
      | [m] =>
        rw [List.perm_singleton.1 perm.symm]
        obtain ⟨name, old, new⟩ := m
        cases single
        cases each _ List.mem_cons_self
        rfl
      | _ :: _ :: _ => simp [Members.of] at single
    rw [stays, ← single]
    exact same origin'
  | null | bool | number | array => cases origin <;> cases h

theorem decode_optional {α : Type} {c : Codec α} (present : t ≠ .null) :
    c.optional.decode origin depth t = (c.decode origin depth t).map some := by
  cases t with
  | null => exact absurd rfl present
  | bool | number | string | array | object | broken => rfl

theorem Tree.Reordered.eq_null (h : t.Reordered t') : t = .null ↔ t' = .null := by
  cases h <;> simp

/-- An object is decoded alike if its members have values that carry the old ones and stand in another
order. -/
theorem ofMembers_reordered {β σ : Type} {fields : Fields β σ}
    {ms ms' : List (Option String × Tree × Tree)} {slots : σ} {b : β} (perm : ms.Perm ms')
    (distinct : ((ms.map fun m => (m.1, m.2.1)).filterMap Prod.fst).Nodup)
    (carried : ∀ m ∈ ms, ∀ name, fields.Carries origin origin' depth name m.2.1 m.2.2)
    (h : fields.ofMembers origin depth slots (.of (ms.map fun m => (m.1, m.2.1))) = .ok b) :
    fields.ofMembers origin' depth slots (.of (ms'.map fun m => (m.1, m.2.2))) = .ok b := by
  -- The values change where they stand, and then the members change places.
  let changes := ms.map fun m => Fields.Change.mk m.1 (some m.2.1) m.2.2
  have before : changes.filterMap Fields.Change.before = ms.map fun m => (m.1, m.2.1) := by
    rw [List.filterMap_map]
    exact congrFun List.filterMap_eq_map _
  have after : changes.map Fields.Change.after = ms.map fun m => (m.1, m.2.2) := List.map_map
  have names : ((ms.map fun m => (m.1, m.2.2)).filterMap Prod.fst).Nodup := by
    rw [List.filterMap_map] at distinct ⊢
    exact distinct
  refine Fields.ofMembers_perm (perm.map _) names ?_
  rw [← before] at h
  rw [← after]
  refine Fields.ofMembers_of_changes ?_ ?_ h
  · refine List.forall_mem_map.2 fun m hm name _ => ⟨?_, nofun⟩
    rintro _ ⟨⟩
    exact carried m hm name
  · exact List.forall_mem_map.2 fun _ _ => nofun

mutual

/-- A codec decodes reordered trees alike. -/
theorem Codec.Shape.carries_reordered : {α : Type} → {c : Codec α} → (s : c.Shape) →
    {depth : ℕ} → {t t' : Tree} → t.Reordered t' → t.Distinct → c.Carries origin origin' depth t t'
  | _, _, .scalar h, depth, _, _, reordered, _, a, read => by
    have leaf := h.leaf read
    cases reordered with
    | null | bool | number | string => exact h.anywhere read origin' depth
    | array | object => exact leaf.elim
  | _, _, .choice _ _, _, _, _, reordered, _, a, read => choice_reordered reordered read
  | _, _, .free, _, _, _, reordered, distinct, v, read => free_reordered reordered distinct read
  | _, _, .optional s, depth, t, t', reordered, distinct, a, read => by
    by_cases null : t = .null
    · have null' := reordered.eq_null.1 null
      subst null null'
      exact read
    · rw [decode_optional null] at read
      rw [decode_optional (mt reordered.eq_null.2 null)]
      obtain ⟨v, inner, made⟩ := map_eq_ok_iff.1 read
      exact map_eq_ok_iff.2 ⟨v, s.carries_reordered reordered distinct v inner, made⟩
  | _, _, .list s, depth, _, _, reordered, distinct, as, read => by
    cases reordered with
    | null | bool | number | string | object => cases read
    | array pairs each =>
      rw [Tree.Distinct, distinct_elements_of, List.forall_mem_map] at distinct
      obtain ⟨inner, rfl, opened⟩ := descend_eq_ok read
      exact decodeItems_of_carries
        (fun p hp => s.carries_reordered (each p hp) (distinct p hp)) opened
  | _, _, .map h, depth, _, _, reordered, distinct, entries, read => by
    cases reordered with
    | null | bool | number | string | array => cases read
    | object ms ms' each perm =>
      rw [Tree.Distinct, names_of, List.filterMap_map] at distinct
      obtain ⟨inner, rfl, opened⟩ := descend_eq_ok read
      refine decodeEntries_reordered perm distinct.1 (fun m hm a first => ?_) opened
      have leaf := h.leaf first
      have stays := each m hm
      generalize m.2.1 = old, m.2.2 = new at first leaf stays
      cases stays with
      | null | bool | number | string => exact h.anywhere first origin' inner
      | array | object => exact leaf.elim
  | _, _, .record _ fields, depth, _, _, reordered, distinct, a, read => by
    cases depth with
    | zero => cases reordered <;> cases read
    | succ depth =>
      cases reordered with
      | null | bool | number | string => cases read
      | array pairs each =>
        rw [Tree.Distinct, distinct_elements_of, List.forall_mem_map] at distinct
        obtain ⟨b, elements, made⟩ := decode_record_array.1 read
        refine decode_record_array.2 ⟨b, Fields.ofElements_of_carries ?_ elements, made⟩
        exact fields.carriesItems_reordered each distinct
      | object ms ms' each perm =>
        rw [Tree.Distinct, names_of, distinct_members_of, List.forall_mem_map] at distinct
        obtain ⟨b, members, made⟩ := decode_record_object.1 read
        refine decode_record_object.2 ⟨b, ofMembers_reordered perm distinct.1 ?_ members, made⟩
        exact fun m hm name => fields.carries_reordered name (each m hm) (distinct.2 m hm)

/-- The same of the elements of a positional form. -/
theorem Fields.Shape.carriesItems_reordered : {β σ : Type} → {fields : Fields β σ} →
    (s : fields.Shape) → {depth : ℕ} → {pairs : List (Tree × Tree)} →
    (∀ p ∈ pairs, p.1.Reordered p.2) → (∀ p ∈ pairs, p.1.Distinct) →
    fields.CarriesItems origin origin' depth pairs
  | _, _, _, .nil, _, _, _, _ => trivial
  | _, _, _, .cons _ _, _, [], _, _ => trivial
  | _, _, _, .cons first others, depth, _ :: _, each, distinct => by
    rw [List.forall_mem_cons] at each distinct
    exact ⟨first.carries_reordered each.1 distinct.1,
      others.carriesItems_reordered each.2 distinct.2⟩

/-- The same of the value of a member. -/
theorem Fields.Shape.carries_reordered : {β σ : Type} → {fields : Fields β σ} →
    (s : fields.Shape) → {depth : ℕ} → (name : String) → {t t' : Tree} → t.Reordered t' →
    t.Distinct → fields.Carries origin origin' depth name t t'
  | _, _, _, .nil, _, _, _, _, reordered, _ => fun _ => reordered.skip
  | _, _, _, .cons first others, _, name, _, _, reordered, distinct => by
    rw [Fields.Carries]
    split_ifs
    · exact first.carries_reordered reordered distinct
    · exact others.carries_reordered name reordered distinct

end

/-! ## Reading freely reorders -/

theorem insertSorted_map {α β : Type} (f : α → β) (name : String) (v : α)
    (entries : List (String × α)) :
    insertSorted name (f v) (entries.map (Prod.map id f)) =
      (insertSorted name v entries).map (Prod.map id f) := by
  induction entries with
  | nil => rfl
  | cons n entries ih =>
    simp only [List.map_cons, insertSorted, Prod.map, id]
    split_ifs
    · rfl
    · rfl
    · exact congrArg _ ih

/-- Sorting looks at the names only. -/
theorem insertAll_map {α β : Type} (f : α → β) (entries done : List (String × α)) :
    insertAll (entries.map (Prod.map id f)) (done.map (Prod.map id f)) =
      (insertAll entries done).map (Prod.map id f) := by
  induction entries generalizing done with
  | nil => rfl
  | cons m entries ih =>
    show insertAll _ (insertSorted m.1 (f m.2) (done.map _)) = _
    rw [insertSorted_map, ih]
    rfl

theorem itemsTree_eq (vs : List Value) : itemsTree vs = .of (vs.map Value.tree) := by
  induction vs with
  | nil => rfl
  | cons v vs ih => rw [itemsTree, ih, List.map_cons, Elements.of]

theorem membersTree_eq (ms : List (String × Value)) :
    membersTree ms = .of (ms.map fun m => (some m.1, m.2.tree)) := by
  induction ms with
  | nil => rfl
  | cons m ms ih => rw [membersTree, ih, List.map_cons, Members.of]

mutual

/-- What is read freely is reordered from the tree. -/
theorem reordered_of_free {depth : ℕ} {v : Value} :
    ∀ {t : Tree}, t.free depth = .ok v → t.Distinct → t.Reordered v.tree
  | .null, h, _ => by
    cases h
    exact .null
  | .bool b, h, _ => by
    cases h
    exact .bool b
  | .number (some n), h, _ => by
    cases h
    exact .number (some n)
  | .string (some s), h, _ => by
    cases h
    exact .string (some s)
  | .array items, h, distinct => by
    cases depth with
    | zero => cases h
    | succ depth =>
      rw [Tree.Distinct] at distinct
      obtain ⟨vs, read, rfl⟩ := map_eq_ok_iff.1 h
      obtain ⟨pairs, rfl, rfl, each⟩ := items_of_free read distinct
      rw [Value.tree, itemsTree_eq, List.map_map]
      have reordered := Tree.Reordered.array (pairs.map fun p => (p.1, p.2.tree))
        (List.forall_mem_map.2 each)
      simpa [Function.comp_def] using reordered
  | .object members, h, distinct => by
    cases depth with
    | zero => cases h
    | succ depth =>
      rw [Tree.Distinct] at distinct
      obtain ⟨ms, read, rfl⟩ := map_eq_ok_iff.1 h
      obtain ⟨all, rfl, rfl, each⟩ := members_of_free read distinct.2
      -- The members are sorted together with the trees that they were read from.
      have names : (all.map Prod.fst).Nodup := by
        have given := distinct.1
        rwa [names_of, List.filterMap_map, show (Prod.fst ∘ fun m : String × Tree × Value =>
          (some m.1, m.2.1)) = some ∘ Prod.fst from rfl, List.filterMap_eq_map] at given
      have sorted : (insertAll all []).Perm all := insertAll_perm names
      have reordered := Tree.Reordered.object
        (all.map fun m => (some m.1, m.2.1, m.2.2.tree))
        ((insertAll all []).map fun m => (some m.1, m.2.1, m.2.2.tree))
        (List.forall_mem_map.2 each) (sorted.symm.map _)
      have values := insertAll_map Prod.snd all []
      rw [List.map_nil] at values
      rw [Value.tree, membersTree_eq, values]
      simpa [Function.comp_def] using reordered
  | .number none, h, _ | .string none, h, _ | .broken _, h, _ => by cases h

theorem items_of_free {depth : ℕ} {vs : List Value} : ∀ {items : Elements},
    items.free depth = .ok vs → items.Distinct → ∃ pairs : List (Tree × Value),
      items = .of (pairs.map Prod.fst) ∧ vs = pairs.map Prod.snd ∧
      ∀ p ∈ pairs, p.1.Reordered p.2.tree
  | .close, h, _ => by
    cases h
    exact ⟨[], rfl, rfl, nofun⟩
  | .stop _, h, _ => by cases h
  | .more head rest, h, distinct => by
    simp only [Elements.free, bind_eq_ok_iff] at h
    obtain ⟨v, first, ws, others, made⟩ := h
    cases made
    obtain ⟨pairs, rfl, rfl, each⟩ := items_of_free others distinct.2
    exact ⟨(head, v) :: pairs, rfl, rfl,
      List.forall_mem_cons.2 ⟨reordered_of_free first distinct.1, each⟩⟩

theorem members_of_free {depth : ℕ} {ms done : List (String × Value)} : ∀ {members : Members},
    members.free depth done = .ok ms → members.Distinct → ∃ all : List (String × Tree × Value),
      members = .of (all.map fun m => (some m.1, m.2.1)) ∧
      ms = insertAll (all.map (Prod.map id Prod.snd)) done ∧
      ∀ m ∈ all, m.2.1.Reordered m.2.2.tree
  | .close, h, _ => by
    cases h
    exact ⟨[], rfl, rfl, nofun⟩
  | .stop _, h, _ | .noName _ _, h, _ | .more none _ _, h, _ => by cases h
  | .more (some name) t rest, h, distinct => by
    simp only [Members.free, bind_eq_ok_iff] at h
    obtain ⟨v, first, others⟩ := h
    obtain ⟨all, rfl, rfl, each⟩ := members_of_free others distinct.2
    exact ⟨(name, t, v) :: all, rfl, rfl,
      List.forall_mem_cons.2 ⟨reordered_of_free first distinct.1, each⟩⟩

end

/-! ## The two ways to decode a text -/

/-- A text is read as the value that is read from it freely, if no object in it repeats a name. -/
theorem Codec.Shape.read_iff_ofValue {α : Type} {c : Codec α} (s : c.Shape) {text : String}
    {v : Value} (free : Codec.free.read text = .ok v)
    (distinct : (Document.read text.toList).tree.Distinct) (a : α) :
    c.read text = .ok a ↔ c.ofValue v = .ok a := by
  obtain ⟨tree, complete⟩ := read_eq_ok.1 free
  have reordered := reordered_of_free tree distinct
  rw [read_eq_ok, and_iff_left complete]
  constructor
  · exact fun read => s.carries_reordered reordered distinct a read
  · exact fun read => s.carries_reordered reordered.symm (reordered.distinct distinct) a read

end TxRelay.Json
