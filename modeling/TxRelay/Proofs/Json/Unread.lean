import TxRelay.Proofs.Json.Shape

/-!
# A field that is not looked at

Two trees of a record may differ in the values of one field. If these are read from both trees, the
records differ in that field only, and where one tree is no record the other is none for the same
reason.

Results:
* `decode_record_alike`: the same error, or records that differ in one field only.
-/

namespace TxRelay.Json

open TxRelay.Except (Rel rel_iff)

variable {β σ : Type} {origin : Origin} {depth : ℕ} {free : String}

/-! ## Values and trees that differ in one field -/

namespace Fields

/-- Values of fields that are the same but for the field of one name. -/
def Alike (free : String) : {β σ : Type} → Fields β σ → β → β → Prop
  | _, _, nil, _, _ => True
  | _, _, cons f rest, (a, b), (a', b') => (f.name ≠ free → a = a') ∧ rest.Alike free b b'

/-- The same of the fields found so far. -/
def SlotsAlike (free : String) : {β σ : Type} → Fields β σ → σ → σ → Prop
  | _, _, nil, _, _ => True
  | _, _, cons f rest, (slot, slots), (slot', slots') =>
    Option.Rel (fun a a' => f.name ≠ free → a = a') slot slot' ∧ rest.SlotsAlike free slots slots'

/-- Two values of a member are taken alike. -/
def TakesAlike (free : String) (origin : Origin) (depth : ℕ) (name : String) (t t' : Tree) :
    {β σ : Type} → Fields β σ → Prop
  | _, _, nil => t.skip = t'.skip
  | _, _, cons f rest =>
    if name = f.name then
      Rel (fun a a' => f.name ≠ free → a = a') (f.codec.decode origin depth t)
        (f.codec.decode origin depth t')
    else rest.TakesAlike free origin depth name t t'

/-- The same of the elements of a positional form. -/
def ItemsAlike (free : String) (origin : Origin) (depth : ℕ) :
    {β σ : Type} → Fields β σ → Elements → Elements → Prop
  | _, _, nil, items, items' => items = items'
  | _, _, cons f rest, items, items' => items = items' ∨ ∃ t t' others others',
    items = .more t others ∧ items' = .more t' others' ∧
      Rel (fun a a' => f.name ≠ free → a = a') (f.codec.decode origin depth t)
        (f.codec.decode origin depth t') ∧
      rest.ItemsAlike free origin depth others others'

end Fields

/-- Members of which some have other values. -/
inductive Members.Differ (R : String → Tree → Tree → Prop) : Members → Members → Prop
  | same (members : Members) : Differ R members members
  | more {name t t' rest rest'} (head : R name t t') (tail : Differ R rest rest') :
    Differ R (.more (some name) t rest) (.more (some name) t' rest')

theorem Members.Differ.mono {R S : String → Tree → Tree → Prop} {members members' : Members}
    (h : members.Differ R members') (weaker : ∀ name t t', R name t t' → S name t t') :
    members.Differ S members' := by
  induction h with
  | same members => exact .same members
  | more head _ ih => exact .more (weaker _ _ _ head) ih

namespace Fields

theorem alike_refl : {β σ : Type} → (fields : Fields β σ) → ∀ b, fields.Alike free b b
  | _, _, nil, _ => trivial
  | _, _, cons _ rest, (_, b) => ⟨fun _ => rfl, rest.alike_refl b⟩

theorem slotsAlike_refl : {β σ : Type} → (fields : Fields β σ) → ∀ s, fields.SlotsAlike free s s
  | _, _, nil, _ => trivial
  | _, _, cons _ rest, (slot, s) => by
    refine ⟨?_, rest.slotsAlike_refl s⟩
    cases slot with
    | none => exact .none
    | some a => exact .some fun _ => rfl

theorem takesAlike_refl (fields : Fields β σ) (name : String) (t : Tree) :
    fields.TakesAlike free origin depth name t t := by
  induction fields with
  | nil => rfl
  | cons f rest ih =>
    rw [TakesAlike]
    split_ifs
    · exact .refl (fun _ _ => rfl) _
    · exact ih

/-! ## They are read alike -/

variable {fields : Fields β σ} {slots slots' : σ} {members members' : Members}
  {items items' : Elements}

theorem store_alike {name : String} {t t' : Tree} (found : fields.SlotsAlike free slots slots')
    (taken : fields.TakesAlike free origin depth name t t') :
    Rel (fields.SlotsAlike free) (fields.store origin depth name t slots)
      (fields.store origin depth name t' slots') := by
  induction fields with
  | nil =>
    rw [TakesAlike] at taken
    simp only [store, taken]
    exact .refl (fun _ => trivial) _
  | cons f rest ih =>
    obtain ⟨slot, slots⟩ := slots
    obtain ⟨slot', slots'⟩ := slots'
    obtain ⟨first, others⟩ := found
    rw [TakesAlike] at taken
    simp only [store]
    split_ifs at taken ⊢ with named
    · cases first with
      | some => exact .error _
      | none => exact taken.map fun _ _ same => ⟨.some same, others⟩
    · exact (ih others taken).map fun _ _ others => ⟨first, others⟩

theorem finish_alike (found : fields.SlotsAlike free slots slots') :
    Rel (fields.Alike free) (fields.finish slots) (fields.finish slots') := by
  induction fields with
  | nil => exact .ok trivial
  | cons f rest ih =>
    obtain ⟨slot, slots⟩ := slots
    obtain ⟨slot', slots'⟩ := slots'
    obtain ⟨first, others⟩ := found
    have value : Option.Rel (fun a a' => f.name ≠ free → a = a') (slot.or f.presence.inObject)
        (slot'.or f.presence.inObject) := by
      cases first with
      | some same => exact .some same
      | none =>
        cases f.presence.inObject with
        | none => exact .none
        | some a => exact .some fun _ => rfl
    simp only [finish]
    generalize slot.or f.presence.inObject = a at value ⊢
    generalize slot'.or f.presence.inObject = a' at value ⊢
    cases value with
    | none => exact .error _
    | some same => exact (ih others).bind fun _ _ others => .ok ⟨same, others⟩

/-- A member taken alike before members that are read alike. -/
theorem ofMembers_more_alike {name : String} {t t' : Tree}
    (found : fields.SlotsAlike free slots slots')
    (taken : fields.TakesAlike free origin depth name t t')
    (next : ∀ slots slots', fields.SlotsAlike free slots slots' → Rel (fields.Alike free)
      (fields.ofMembers origin depth slots members) (fields.ofMembers origin depth slots' members')) :
    Rel (fields.Alike free) (fields.ofMembers origin depth slots (.more (some name) t members))
      (fields.ofMembers origin depth slots' (.more (some name) t' members')) := by
  obtain ⟨_, _, stored, stored', found⟩ | ⟨e, failed, failed'⟩ :=
    rel_iff.1 (store_alike found taken)
  · simp only [ofMembers, stored, stored']
    exact next _ _ found
  · simp only [ofMembers, failed, failed']
    exact .error e

theorem ofMembers_alike {members members' : Members} {slots slots' : σ}
    (differ : members.Differ
      (fun name t t' => fields.TakesAlike free origin depth name t t') members')
    (found : fields.SlotsAlike free slots slots') :
    Rel (fields.Alike free) (fields.ofMembers origin depth slots members)
      (fields.ofMembers origin depth slots' members') := by
  match differ with
  | .more taken tail =>
    exact ofMembers_more_alike found taken fun _ _ found => ofMembers_alike tail found
  | .same (.more (some name) t rest) =>
    exact ofMembers_more_alike found (fields.takesAlike_refl name t)
      fun _ _ found => ofMembers_alike (.same rest) found
  | .same .close => exact finish_alike found
  | .same (.stop f) => exact .error _
  | .same (.noName used _) => exact .error _
  | .same (.more none _ _) => exact .error _

theorem ofElements_alike {expected : String} {count : ℕ}
    (alike : fields.ItemsAlike free origin depth items items') :
    Rel (fun p q => fields.Alike free p.1 q.1 ∧ p.2 = q.2)
      (fields.ofElements origin depth expected count items)
      (fields.ofElements origin depth expected count items') := by
  induction fields generalizing items items' count with
  | nil => exact .ok ⟨trivial, alike⟩
  | cons f rest ih =>
    obtain rfl | ⟨t, t', others, others', rfl, rfl, first, later⟩ := alike
    · exact .refl (fun p => ⟨alike_refl _ p.1, rfl⟩) _
    · simp only [ofElements]
      refine first.bind fun a a' same => (ih later).bind ?_
      rintro ⟨b, left⟩ ⟨b', _⟩ ⟨alike, rfl⟩
      exact .ok ⟨⟨same, alike⟩, rfl⟩

theorem ItemsAlike.length (alike : fields.ItemsAlike free origin depth items items') :
    items.length = items'.length := by
  induction fields generalizing items items' with
  | nil => exact congrArg _ alike
  | cons f rest ih =>
    obtain rfl | ⟨t, t', others, others', rfl, rfl, -, later⟩ := alike
    · rfl
    · exact congrArg (· + 1) (ih later)

end Fields

/-! ## Records -/

/-- Trees of a record that are read alike, the value of one field apart. -/
inductive Tree.Alike (free : String) (origin : Origin) (fields : Fields β σ) : Tree → Tree → Prop
  | object {members members'} (differ : ∀ depth,
      members.Differ (fun name t t' => fields.TakesAlike free origin depth name t t') members') :
    Alike free origin fields (.object members) (.object members')
  | array {items items'} (alike : ∀ depth, fields.ItemsAlike free origin depth items items') :
    Alike free origin fields (.array items) (.array items')

theorem decode_record_alike {α : Type} (free : String) {name : String} {fields : Fields β σ} {make : β → α}
    {parts : α → β} {t t' : Tree} (alike : Tree.Alike free origin fields t t') :
    Rel (fun a a' => ∃ b b', a = make b ∧ a' = make b' ∧ fields.Alike free b b')
      ((Codec.record name fields make parts).decode origin depth t)
      ((Codec.record name fields make parts).decode origin depth t') := by
  cases depth with
  | zero => cases alike <;> exact .error _
  | succ depth =>
    cases alike with
    | object differ =>
      exact (Fields.ofMembers_alike (differ depth) (fields.slotsAlike_refl _)).map
        fun b b' alike => ⟨b, b', rfl, rfl, alike⟩
    | array alike =>
      refine (Fields.ofElements_alike (alike depth)).bind ?_
      rintro ⟨b, left⟩ ⟨b', _⟩ ⟨same, rfl⟩
      rw [(alike depth).length]
      exact (Rel.refl (fun _ => rfl) _).bind fun _ _ _ => .ok ⟨b, b', rfl, rfl, same⟩

end TxRelay.Json
