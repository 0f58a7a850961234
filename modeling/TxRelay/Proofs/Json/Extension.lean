import Mathlib.Tactic
import TxRelay.Proofs.Json.Layout
import TxRelay.Proofs.Json.Reordering

/-!
# Members that no one asks for

A tree extends another if it has more members in the objects of records, under names that are no
fields there. Codecs pass such members over, whatever their values are. Together with the order of
members and the blanks between tokens this is all in a text that codecs do not look at.

Results:
* `Codec.Shape.carries_extends`: a tree that extends another carries it.
* `Codec.Shape.tolerates`: a text may be put in another order, be laid out anew and be extended.
-/

namespace TxRelay.Json

open Fields (Change)
open TxRelay.Except

/-! ## Extended trees -/

/-- A member was put in, under a name that is none of some. -/
def Fields.Change.Fresh (c : Change) (names : List String) : Prop :=
  ∃ name, c.name = some name ∧ name ∉ names

mutual

/-- The second tree is the first with more members in the objects of records. -/
def Codec.Shape.Extends : {α : Type} → {c : Codec α} → c.Shape → Tree → Tree → Prop
  | _, _, .scalar _, t, t' | _, _, .choice _ _, t, t' | _, _, .free, t, t' | _, _, .map _, t, t' =>
    t' = t
  | _, _, .optional s, t, t' => s.Extends t t'
  | _, _, .list s, t, t' => t' = t ∨ ∃ pairs : List (Tree × Tree),
    t = .array (.of (pairs.map Prod.fst)) ∧ t' = .array (.of (pairs.map Prod.snd)) ∧
      ∀ p ∈ pairs, s.Extends p.1 p.2
  | _, _, @Codec.Shape.record _ _ _ _ names _ _ _ fields, t, t' => t' = t ∨
    (∃ pairs : List (Tree × Tree), t = .array (.of (pairs.map Prod.fst)) ∧
      t' = .array (.of (pairs.map Prod.snd)) ∧ fields.ExtendsItems pairs) ∨
    ∃ changes : List Change, t = .object (.of (changes.filterMap Change.before)) ∧
      t' = .object (.of (changes.map Change.after)) ∧ ∀ c ∈ changes,
        match c.old with
        | some old => ∀ name ∈ c.name, fields.ExtendsMember name old c.new
        | none => c.Fresh names.names

/-- The same of the elements of a positional form. -/
def Fields.Shape.ExtendsItems : {β σ : Type} → {fields : Fields β σ} → fields.Shape →
    List (Tree × Tree) → Prop
  | _, _, _, .nil, pairs => ∀ p ∈ pairs, p.2 = p.1
  | _, _, _, .cons _ _, [] => True
  | _, _, _, .cons first others, p :: pairs => first.Extends p.1 p.2 ∧ others.ExtendsItems pairs

/-- The same of the value of a member; a member that is no field keeps its value. -/
def Fields.Shape.ExtendsMember : {β σ : Type} → {fields : Fields β σ} → fields.Shape → String →
    Tree → Tree → Prop
  | _, _, _, .nil, _, t, t' => t' = t
  | _, _, _, .cons (f := f) first others, name, t, t' =>
    if name = f.name then first.Extends t t' else others.ExtendsMember name t t'

end

/-! ## What is passed over -/

theorem skip_more_eq_ok {name : Option String} {t : Tree} {rest : Members} :
    (Members.more name t rest).skip = .ok () ↔ t.skip = .ok () ∧ rest.skip = .ok () := by
  rw [Members.skip]
  cases t.skip <;> simp

theorem skip_items_eq_ok {t : Tree} {rest : Elements} :
    (Elements.more t rest).skip = .ok () ↔ t.skip = .ok () ∧ rest.skip = .ok () := by
  rw [Elements.skip]
  cases t.skip <;> simp

theorem skip_of_mem_members {ms : List (Option String × Tree)} (h : (Members.of ms).skip = .ok ()) :
    ∀ m ∈ ms, m.2.skip = .ok () := by
  induction ms with
  | nil => exact nofun
  | cons m ms ih =>
    obtain ⟨first, rest⟩ := skip_more_eq_ok.1 h
    exact List.forall_mem_cons.2 ⟨first, ih rest⟩

theorem skip_of_mem_items {ts : List Tree} (h : (Elements.of ts).skip = .ok ()) :
    ∀ t ∈ ts, t.skip = .ok () := by
  induction ts with
  | nil => exact nofun
  | cons t ts ih =>
    obtain ⟨first, rest⟩ := skip_items_eq_ok.1 h
    exact List.forall_mem_cons.2 ⟨first, ih rest⟩

theorem readScalar_skip {text rest : List Char} {t : Tree} (h : readScalar text = (t, some rest)) :
    t.skip = .ok () := by
  have word {word text : List Char} {tree : Tree} (leaf : tree.skip = .ok ())
      (h : readScalar.readWord word tree text = (t, some rest)) : t.skip = .ok () := by
    unfold readScalar.readWord at h
    split at h
    · cases h
      exact leaf
    · cases h
  cases text with
  | nil => cases h
  | cons c text =>
    rw [readScalar] at h
    split_ifs at h
    · split at h
      · cases h
        rfl
      · cases h
    · split at h
      · cases h
        rfl
      · cases h
    · exact word rfl h
    · exact word rfl h
    · exact word rfl h
    · cases h

mutual

/-- What a text spells can be passed over. -/
theorem Tree.Spelled.skip : ∀ {t : Tree} {text : List Char}, t.Spelled text → t.skip = .ok ()
  | _, _, .scalar _ read => readScalar_skip read
  | _, _, .noItems _ _ => rfl
  | _, _, .noMembers _ _ => rfl
  | _, _, .items _ first others => skip_items_eq_ok.2 ⟨first.skip, others.skip⟩
  | _, _, .members _ _ opened => opened.skip

theorem Elements.Spelled.skip : ∀ {items : Elements} {text : List Char}, items.Spelled text →
    items.skip = .ok ()
  | _, _, .close _ => rfl
  | _, _, .more _ first others => skip_items_eq_ok.2 ⟨first.skip, others.skip⟩

theorem Members.Opened.skip : ∀ {members : Members} {text : List Char}, members.Opened text →
    members.skip = .ok ()
  | _, _, .more _ _ first others => skip_more_eq_ok.2 ⟨first.skip, others.skip⟩

theorem Members.Spelled.skip : ∀ {members : Members} {text : List Char}, members.Spelled text →
    members.skip = .ok ()
  | _, _, .close _ => rfl
  | _, _, .more _ _ opened => opened.skip

end

/-! ## Extended trees are decoded alike -/

theorem Codec.Shape.Extends.eq_null : {α : Type} → {c : Codec α} → {s : c.Shape} → {t t' : Tree} →
    s.Extends t t' → (t = .null ↔ t' = .null)
  | _, _, .scalar _, _, _, more | _, _, .choice _ _, _, _, more | _, _, .free, _, _, more
  | _, _, .map _, _, _, more => by
    rw [Codec.Shape.Extends] at more
    rw [more]
  | _, _, .optional s, _, _, more => by
    rw [Codec.Shape.Extends] at more
    exact more.eq_null
  | _, _, .list s, _, _, more => by
    rw [Codec.Shape.Extends] at more
    rcases more with rfl | ⟨pairs, rfl, rfl, -⟩
    · rfl
    · simp
  | _, _, .record _ fields, _, _, more => by
    rw [Codec.Shape.Extends] at more
    rcases more with rfl | ⟨pairs, rfl, rfl, -⟩ | ⟨changes, rfl, rfl, -⟩
    · rfl
    · simp
    · simp

variable {origin : Origin}

mutual

/-- A tree that extends another and can be passed over carries it. -/
theorem Codec.Shape.carries_extends : {α : Type} → {c : Codec α} → (s : c.Shape) → {depth : ℕ} →
    {t t' : Tree} → s.Extends t t' → t'.skip = .ok () → c.Carries origin origin depth t t'
  | _, _, .scalar _, _, _, _, more, _, _, read | _, _, .choice _ _, _, _, _, more, _, _, read
  | _, _, .free, _, _, _, more, _, _, read | _, _, .map _, _, _, _, more, _, _, read => by
    rw [Codec.Shape.Extends] at more
    rwa [more]
  | _, _, .optional s, depth, t, t', more, whole, a, read => by
    rw [Codec.Shape.Extends] at more
    by_cases null : t = .null
    · have null' := more.eq_null.1 null
      subst null null'
      exact read
    · rw [decode_optional null] at read
      rw [decode_optional (mt more.eq_null.2 null)]
      obtain ⟨v, inner, made⟩ := map_eq_ok_iff.1 read
      exact map_eq_ok_iff.2 ⟨v, s.carries_extends more whole v inner, made⟩
  | _, _, .list s, depth, t, t', more, whole, as, read => by
    rw [Codec.Shape.Extends] at more
    rcases more with rfl | ⟨pairs, rfl, rfl, each⟩
    · exact read
    · obtain ⟨inner, rfl, opened⟩ := descend_eq_ok read
      rw [Tree.skip] at whole
      have items := List.forall_mem_map.1 (skip_of_mem_items whole)
      exact decodeItems_of_carries
        (fun p hp => s.carries_extends (each p hp) (items p hp)) opened
  | _, _, .record _ fields, depth, t, t', more, whole, a, read => by
    rw [Codec.Shape.Extends] at more
    rcases more with rfl | ⟨pairs, rfl, rfl, each⟩ | ⟨changes, rfl, rfl, each⟩
    · exact read
    · cases depth with
      | zero => cases read
      | succ depth =>
        rw [Tree.skip] at whole
        have items := List.forall_mem_map.1 (skip_of_mem_items whole)
        obtain ⟨b, elements, made⟩ := decode_record_array.1 read
        refine decode_record_array.2 ⟨b, Fields.ofElements_of_carries ?_ elements, made⟩
        exact fields.carriesItems_extends each items
    · cases depth with
      | zero => cases read
      | succ depth =>
        rw [Tree.skip] at whole
        have values := List.forall_mem_map.1 (skip_of_mem_members whole)
        obtain ⟨b, members, made⟩ := decode_record_object.1 read
        refine decode_record_object.2 ⟨b, Fields.ofMembers_of_changes ?_ ?_ members, made⟩
        · rintro ⟨name, old, new⟩ hc n ⟨⟩
          have change := each _ hc
          refine ⟨?_, ?_⟩
          · rintro _ ⟨⟩
            exact fields.carries_extends (change n rfl) (values _ hc)
          · rintro ⟨⟩
            obtain ⟨_, ⟨⟩, fresh⟩ := change
            exact ⟨fresh, values _ hc⟩
        · rintro ⟨name, old, new⟩ hc ⟨⟩ ⟨⟩
          obtain ⟨_, ⟨⟩, -⟩ := each _ hc

theorem Fields.Shape.carriesItems_extends : {β σ : Type} → {fields : Fields β σ} →
    (s : fields.Shape) → {depth : ℕ} → {pairs : List (Tree × Tree)} → s.ExtendsItems pairs →
    (∀ p ∈ pairs, p.2.skip = .ok ()) → fields.CarriesItems origin origin depth pairs
  | _, _, _, .nil, _, _, _, _ => trivial
  | _, _, _, .cons _ _, _, [], _, _ => trivial
  | _, _, _, .cons first others, depth, _ :: _, more, whole => by
    rw [List.forall_mem_cons] at whole
    exact ⟨first.carries_extends more.1 whole.1, others.carriesItems_extends more.2 whole.2⟩

theorem Fields.Shape.carries_extends : {β σ : Type} → {fields : Fields β σ} → (s : fields.Shape) →
    {depth : ℕ} → {name : String} → {t t' : Tree} → s.ExtendsMember name t t' →
    t'.skip = .ok () → fields.Carries origin origin depth name t t'
  | _, _, _, .nil, _, _, _, _, _, whole => fun _ => whole
  | _, _, _, .cons first others, depth, name, t, t', more, whole => by
    rw [Fields.Carries]
    rw [Fields.Shape.ExtendsMember] at more
    split_ifs at more ⊢
    · exact first.carries_extends more whole
    · exact others.carries_extends more whole

end

/-! ## What codecs do not look at -/

/-- What a text is decoded to does not change if the members of its objects are put in another order,
then some are put in, and the text is laid out anew. No object of the first text repeats a name. -/
def Codec.Tolerates {α : Type} (c : Codec α) (extended : Tree → Tree → Prop) : Prop :=
  ∀ (text : String) (a : α), c.read text = .ok a → ∃ t : Tree, t.LaidOut text.toList ∧
    (t.Distinct → ∀ (u t' : Tree) (text' : String), t.Reordered u → extended u t' →
      t'.LaidOut text'.toList → c.read text' = .ok a)

/-- A codec tolerates what carries over to trees in another order and to extended trees. -/
theorem tolerates_of_carries {α : Type} {c : Codec α} {extended : Tree → Tree → Prop}
    (moved : ∀ {t u : Tree}, t.Reordered u → t.Distinct → c.Carries .text .text maxDepth t u)
    (more : ∀ {t t' : Tree}, extended t t' → t'.skip = .ok () →
      c.Carries .text .text maxDepth t t') :
    c.Tolerates extended := by
  intro text a read
  obtain ⟨t, laidOut, decoded⟩ := read_eq_ok_iff_laidOut.1 read
  refine ⟨t, laidOut, fun distinct u t' text' reordered extends' laidOut' => ?_⟩
  have whole : t'.skip = .ok () := by
    obtain ⟨front, -, -, spelled, -⟩ := laidOut'
    exact spelled.skip
  have reordered : c.decode .text maxDepth u = .ok a := moved reordered distinct a decoded
  exact read_eq_ok_iff_laidOut.2 ⟨t', laidOut', more extends' whole a reordered⟩

theorem Codec.Shape.tolerates {α : Type} {c : Codec α} (s : c.Shape) : c.Tolerates s.Extends :=
  tolerates_of_carries (fun reordered distinct => s.carries_reordered reordered distinct)
    fun more whole => s.carries_extends more whole

end TxRelay.Json
