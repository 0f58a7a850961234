import TxRelay.Proofs.Conversion.Checks

/-!
# Repairing an event

An event that is refused can be repaired in the one part that its error is about: another text for that
part, a block or a transaction where there was none, or one of the two parts less that contradict each
other. The checks keep their order then, and what passed before passes still, so that the event either
has a message or is refused by a later check.

Results:
* `Repairs.passes`: what passed before a repaired check passes still.
* `exists_repair`: whatever an event is refused for can be repaired.
* `toMessage_refused`: the error of a refused event, and what becomes of it when repaired.
-/

namespace TxRelay.Event

open Conversion

/-! ## Another text for a part -/

/-- A block with another text for a part. -/
def Block.replace (b : Block) (text : Option String) : Block.Part → Block
  | .number => { b with number := text }
  | .hash => { b with hash := text }
  | .timestamp => { b with timestamp := text }

/-- A transaction with another text for a part. -/
def Transaction.replace (t : Transaction) (text : Option String) : Transaction.Part → Transaction
  | .hash => { t with hash := text }
  | .sender => { t with sender := text }
  | .recipient => { t with recipient := text }
  | .nonce => { t with nonce := text }
  | .gas => { t with gas := text }
  | .gasPrice => { t with gasPrice := text }
  | .value => { t with value := text }
  | .input => { t with input := text }

/-- A receipt with another text for a part. -/
def Receipt.replace (r : Receipt) (text : Option String) : Receipt.Part → Receipt
  | .status => { r with status := text }
  | .gasUsed => { r with gasUsed := text }
  | .contractAddress => { r with contractAddress := text }

/-- A log entry with another text for a part; no topic can be absent. -/
def Log.replace (l : Log) (text : Option String) : Log.Part → Log
  | .address => { l with address := text }
  | .topic place => { l with topics := text.elim l.topics (l.topics.set place) }
  | .data => { l with data := text }
  | .index => { l with index := text }

/-- An event with another text for a part, as far as it has that part. -/
def replace (e : Event) (text : Option String) : Part → Event
  | .chain => { e with chainId := text }
  | .block p => { e with block := e.block.map (·.replace text p) }
  | .transaction p => { e with transaction := e.transaction.map (·.replace text p) }
  | .receipt p => { e with receipt := e.receipt.map (·.replace text p) }
  | .log entry p => { e with receipt := e.receipt.map fun r =>
      { r with logs := r.logs.modify entry (·.replace text p) } }

/-- One part of an event is repaired, namely what a check is about. -/
inductive Repairs (e : Event) : Check → Event → Prop
  | part (p : Part) (text : Option String) : Repairs e (.part p) (e.replace text p)
  | block (b : Block) : Repairs e .block { e with block := some b }
  | transaction (t : Transaction) : Repairs e .transaction { e with transaction := some t }
  | recipient : Repairs e .contract (e.replace none (.transaction .recipient))
  | contract : Repairs e .contract (e.replace none (.receipt .contractAddress))

/-- A repaired event is checked in the same order. It passes the checks up to a place of it, and it has a
message or is refused by a later one. -/
structure Advances (e : Event) (n : ℕ) (e' : Event) : Prop where
  order : e'.checks = e.checks
  passes : ∀ k ≤ n, ∀ d ∈ e.checks[k]?, d.Passes e'
  next : (∃ m, e'.toMessage = .ok m) ∨
    ∃ err n' c, e'.toMessage = .error err ∧ n < n' ∧ Offends e' n' c err

section Replace

variable {e e' : Event} {text : Option String} {s : String}

@[simp] theorem Block.text_replace (b : Block) (p : Block.Part) : (b.replace text p).text p = text := by
  cases p <;> rfl

theorem Block.text_replace_ne (b : Block) {p q : Block.Part} (h : q ≠ p) :
    (b.replace text p).text q = b.text q := by
  cases p <;> cases q <;> first | rfl | exact absurd rfl h

@[simp] theorem Transaction.text_replace (t : Transaction) (p : Transaction.Part) :
    (t.replace text p).text p = text := by
  cases p <;> rfl

theorem Transaction.text_replace_ne (t : Transaction) {p q : Transaction.Part} (h : q ≠ p) :
    (t.replace text p).text q = t.text q := by
  cases p <;> cases q <;> first | rfl | exact absurd rfl h

@[simp] theorem Receipt.text_replace (r : Receipt) (p : Receipt.Part) :
    (r.replace text p).text p = text := by
  cases p <;> rfl

theorem Receipt.text_replace_ne (r : Receipt) {p q : Receipt.Part} (h : q ≠ p) :
    (r.replace text p).text q = r.text q := by
  cases p <;> cases q <;> first | rfl | exact absurd rfl h

@[simp] theorem Receipt.logs_replace (r : Receipt) (p : Receipt.Part) :
    (r.replace text p).logs = r.logs := by
  cases p <;> rfl

theorem Log.text_replace_ne (l : Log) {p q : Log.Part} (h : q ≠ p) :
    (l.replace text p).text q = l.text q := by
  cases p with
  | topic place =>
    cases q with
    | topic other =>
      have apart : place ≠ other := fun same => h (by rw [same])
      cases text with
      | none => rfl
      | some s => exact List.getElem?_set_ne apart
    | _ => rfl
  | _ => cases q <;> first | rfl | exact absurd rfl h

@[simp] theorem Log.length_topics_replace (l : Log) (p : Log.Part) :
    (l.replace text p).topics.length = l.topics.length := by
  cases p <;> cases text <;> simp [Log.replace]

theorem text_replace_ne {p q : Part} (h : q ≠ p) : (e.replace text p).text q = e.text q := by
  cases p <;> cases q <;> simp only [replace, Event.text, ne_eq, Part.block.injEq,
    Part.transaction.injEq, Part.receipt.injEq, Part.log.injEq, not_and, Option.bind_map,
    not_true_eq_false, Function.comp_def] at h ⊢
  case block.block => simp only [Block.text_replace_ne _ h]
  case transaction.transaction => simp only [Transaction.text_replace_ne _ h]
  case receipt.receipt => simp only [Receipt.text_replace_ne _ h]
  case receipt.log => simp only [Receipt.logs_replace]
  case log.receipt => congr 1
  case log.log entry p other q =>
    congr 1
    funext r
    rw [List.getElem?_modify]
    by_cases same : entry = other
    · subst same
      have apart : q ≠ p := fun eq => h rfl eq
      cases r.logs[entry]? with
      | none => rfl
      | some l => simp [Log.text_replace_ne l apart]
    · simp [same]

/-- An event has a part, or room for it. -/
def Holds (e : Event) : Part → Prop
  | .chain => True
  | .block _ => e.block ≠ none
  | .transaction _ => e.transaction ≠ none
  | .receipt _ => e.receipt ≠ none
  | .log entry p => ∃ r ∈ e.receipt, ∃ l ∈ r.logs[entry]?,
      ∀ place, p = .topic place → place < l.topics.length

theorem Log.text_replace {l : Log} {p : Log.Part}
    (h : ∀ place, p = .topic place → place < l.topics.length) :
    (l.replace (some s) p).text p = some s := by
  cases p with
  | topic place => exact List.getElem?_set_self (h place rfl)
  | _ => rfl

theorem text_replace {p : Part} (h : e.Holds p) : (e.replace (some s) p).text p = some s := by
  cases p with
  | chain => rfl
  | block p =>
    obtain ⟨b, hb⟩ := Option.ne_none_iff_exists'.1 h
    simp [replace, Event.text, hb]
  | transaction p =>
    obtain ⟨t, ht⟩ := Option.ne_none_iff_exists'.1 h
    simp [replace, Event.text, ht]
  | receipt p =>
    obtain ⟨r, hr⟩ := Option.ne_none_iff_exists'.1 h
    simp [replace, Event.text, hr]
  | log entry p =>
    obtain ⟨r, hr, l, hl, within⟩ := h
    rw [Option.mem_def] at hr hl
    simp [replace, Event.text, hr, hl, Log.text_replace within]

@[simp] theorem block_replace (p : Part) : (e.replace text p).block = none ↔ e.block = none := by
  cases p <;> simp [replace]

@[simp] theorem transaction_replace (p : Part) :
    (e.replace text p).transaction = none ↔ e.transaction = none := by
  cases p <;> simp [replace]

theorem Log.checks_replace (entry : ℕ) (l : Log) (p : Log.Part) :
    (l.replace text p).checks entry = l.checks entry := by
  have same : ∀ (as bs : List String), as.length = bs.length →
      (as.mapIdx fun place _ => [Check.part (.log entry (.topic place))]) =
        bs.mapIdx fun place _ => [Check.part (.log entry (.topic place))] := by
    intro as bs h
    refine List.ext_getElem (by simpa) fun n _ _ => ?_
    simp
  rw [Log.checks, Log.checks, same _ _ (l.length_topics_replace p)]

theorem checks_replace (p : Part) : (e.replace text p).checks = e.checks := by
  cases p with
  | receipt p => cases h : e.receipt <;> simp [checks, replace, Receipt.checks, h]
  | log entry p =>
    cases h : e.receipt with
    | none => simp [checks, replace, h]
    | some r =>
      have logs : (r.logs.modify entry (·.replace text p)).mapIdx Log.checks =
          r.logs.mapIdx Log.checks := by
        refine List.ext_getElem (by simp) fun n _ _ => ?_
        simp only [List.getElem_mapIdx, List.getElem_modify]
        split_ifs
        · exact Log.checks_replace ..
        · rfl
      simp [checks, replace, Receipt.checks, h, logs]
  | _ => rfl

end Replace

/-! ## The stages of the order -/

/-- The records of an event in the order in which they are checked. -/
def Check.stage : Check → ℕ
  | .part .chain => 0
  | .block => 1
  | .part (.block _) => 2
  | .transaction => 3
  | .part (.transaction _) => 4
  | .part (.receipt _) => 5
  | .part (.log _ _) => 5
  | .contract => 6

section Stages

variable {e e' : Event} {n : ℕ} {c d : Check} {err : ConversionError}

theorem mem_checks_log {entry : ℕ} {l : Log} (h : c ∈ l.checks entry) :
    ∃ p, c = .part (.log entry p) ∧ ∀ place, p = .topic place → place < l.topics.length := by
  simp only [Log.checks, List.mem_cons, List.mem_append, List.mem_flatten, List.mem_mapIdx,
    List.not_mem_nil, or_false] at h
  rcases h with rfl | ⟨_, ⟨place, within, rfl⟩, hc⟩ | rfl | rfl
  · exact ⟨_, rfl, fun _ h => nomatch h⟩
  · obtain rfl := List.mem_singleton.1 hc
    refine ⟨_, rfl, ?_⟩
    rintro _ ⟨⟩
    exact within
  · exact ⟨_, rfl, fun _ h => nomatch h⟩
  · exact ⟨_, rfl, fun _ h => nomatch h⟩

theorem mem_checks_receipt {r : Receipt} (h : c ∈ r.checks) :
    (∃ p, c = .part (.receipt p)) ∨ ∃ entry, ∃ l : Log, l ∈ r.logs[entry]? ∧ c ∈ l.checks entry := by
  simp only [Receipt.checks, List.mem_cons, List.mem_flatten, List.mem_mapIdx] at h
  rcases h with rfl | rfl | rfl | ⟨_, ⟨entry, within, rfl⟩, hc⟩
  · exact .inl ⟨_, rfl⟩
  · exact .inl ⟨_, rfl⟩
  · exact .inl ⟨_, rfl⟩
  · exact .inr ⟨entry, _, List.getElem?_eq_getElem within, hc⟩

theorem stage_receipt {r : Receipt} (h : c ∈ r.checks) : c.stage = 5 := by
  obtain ⟨p, rfl⟩ | ⟨entry, l, -, hc⟩ := mem_checks_receipt h
  · rfl
  · obtain ⟨p, rfl, -⟩ := mem_checks_log hc
    rfl

theorem pairwise_checks (e : Event) : e.checks.Pairwise fun c d => c.stage ≤ d.stage := by
  have receipt : (e.receipt.elim [] Receipt.checks).map Check.stage =
      List.replicate (e.receipt.elim [] Receipt.checks).length 5 := by
    refine List.eq_replicate_iff.2 ⟨List.length_map _, fun k hk => ?_⟩
    obtain ⟨c, hc, rfl⟩ := List.mem_map.1 hk
    cases h : e.receipt with
    | none => simp [h] at hc
    | some r => exact stage_receipt (by simpa [h] using hc)
  have stages : e.checks.map Check.stage = [0, 1, 2, 2, 2, 3, 4, 4, 4, 4, 4, 4, 4, 4] ++
      (List.replicate (e.receipt.elim [] Receipt.checks).length 5 ++ [6]) := by
    rw [← receipt, checks, Block.checks, Transaction.checks]
    simp [Check.stage]
  have sorted : (e.checks.map Check.stage).Pairwise (· ≤ ·) := by
    rw [stages, List.pairwise_append]
    refine ⟨by decide, by simp [List.pairwise_append, List.pairwise_replicate], fun j hj k hk => ?_⟩
    have early : j ≤ 4 := by simp at hj; omega
    have late : 5 ≤ k := by simp at hk; omega
    omega
  exact List.pairwise_map.1 sorted

/-- Checks of an earlier record come earlier. -/
theorem Offends.passes_of_stage_lt (offends : Offends e n c err) (h : d ∈ e.checks)
    (earlier : d.stage < c.stage) : d.Passes e := by
  obtain ⟨k, hk, rfl⟩ := List.mem_iff_getElem.1 h
  obtain ⟨hn, rfl⟩ := List.getElem?_eq_some_iff.1 offends.place
  refine offends.earlier k (lt_of_not_ge fun late => ?_) _ (List.getElem?_eq_getElem hk)
  rcases late.lt_or_eq with after | rfl
  · have := List.pairwise_iff_getElem.1 (pairwise_checks e) n k hn hk after
    omega
  · omega

theorem Offends.stage_le (offends : Offends e n c err) {k : ℕ} (hk : k < n)
    (h : e.checks[k]? = some d) : d.stage ≤ c.stage := by
  obtain ⟨_, rfl⟩ := List.getElem?_eq_some_iff.1 h
  obtain ⟨hn, rfl⟩ := List.getElem?_eq_some_iff.1 offends.place
  exact List.pairwise_iff_getElem.1 (pairwise_checks e) k n _ hn hk

end Stages

/-! ## Repairs -/

section Repairs

variable {e e' : Event} {n : ℕ} {c d : Check} {err : ConversionError} {text : Option String}

theorem passes_replace {p q : Part} (h : q ≠ p) (passes : (Check.part q).Passes e) :
    (Check.part q).Passes (e.replace text p) := by
  simpa only [Check.Passes, text_replace_ne h] using passes

theorem Repairs.checks_eq (repairs : Repairs e c e') : e'.checks = e.checks := by
  cases repairs with
  | part p text => exact checks_replace p
  | block => rfl
  | transaction => rfl
  | recipient => exact checks_replace _
  | contract => exact checks_replace _

theorem passes_of_not_required {p : Part} (required : p.rule.required = false)
    (absent : e.text p = none) : (Check.part p).Passes e :=
  ⟨by simp [required], by simp [absent]⟩

/-- Dropping one of two parts that contradict each other leaves every check of the others as it was. -/
theorem passes_drop {p : Part} (optional : p.rule.required = false)
    (dropped : (e.replace none p).text p = none) (passes : d.Passes e) (h : d ≠ .contract) :
    d.Passes (e.replace none p) := by
  cases d with
  | part q =>
    by_cases same : q = p
    · -- the part dropped is read by this very check, which does not require it
      exact passes_of_not_required (same ▸ optional) (same ▸ dropped)
    · exact passes_replace same passes
  | block => exact (block_replace p).not.2 passes
  | transaction => exact (transaction_replace p).not.2 passes
  | contract => exact absurd rfl h

theorem dropped_recipient : (e.replace none (.transaction .recipient)).text
    (.transaction .recipient) = none := by
  cases h : e.transaction <;> simp [replace, Event.text, h]

theorem dropped_contract : (e.replace none (.receipt .contractAddress)).text
    (.receipt .contractAddress) = none := by
  cases h : e.receipt <;> simp [replace, Event.text, h]

theorem Repairs.passes (repairs : Repairs e c e') (fails : ¬ c.Passes e) (passes : d.Passes e)
    (order : d.stage ≤ c.stage) : d.Passes e' := by
  have apart : d ≠ c := fun same => fails (same ▸ passes)
  cases repairs with
  | part p text =>
    cases d with
    | part q => exact passes_replace (fun same => apart (same ▸ rfl)) passes
    | block => exact (block_replace p).not.2 passes
    | transaction => exact (transaction_replace p).not.2 passes
    | contract => cases p <;> simp [Check.stage] at order
  | block b =>
    cases d with
    | part q =>
      cases q with
      | chain => exact passes
      | _ => simp [Check.stage] at order
    | block => exact absurd rfl apart
    | _ => simp [Check.stage] at order
  | transaction t =>
    cases d with
    | part q =>
      cases q with
      | chain => exact passes
      | block => exact passes
      | _ => simp [Check.stage] at order
    | block => exact passes
    | transaction => exact absurd rfl apart
    | contract => simp [Check.stage] at order
  | recipient => exact passes_drop rfl dropped_recipient passes apart
  | contract => exact passes_drop rfl dropped_contract passes apart

theorem marked_zero : Marked "0x0" ['0'] :=
  ⟨rfl, List.forall_mem_singleton.2 (by decide)⟩

theorem wordText_zero : WordText "0x0" :=
  ⟨['0'], marked_zero, by simp, by decide⟩

theorem fixedText_zeros (length : ℕ) :
    FixedText length (markedText (List.replicate (2 * length) '0')) := by
  refine ⟨List.replicate (2 * length) '0', ⟨String.toList_ofList, fun c hc => ?_⟩,
    List.length_replicate⟩
  rw [List.eq_of_mem_replicate hc]
  decide

/-- Every kind has a text. -/
theorem exists_accepts (k : Kind) : ∃ s, k.Accepts s :=
  match k with
  | .chain => ⟨"0x0", .inl wordText_zero⟩
  | .word => ⟨"0x0", wordText_zero⟩
  | .wide => ⟨"0x0", ['0'], marked_zero, by simp, by decide⟩
  | .hash => ⟨_, fixedText_zeros 32⟩
  | .address => ⟨_, fixedText_zeros 20⟩
  | .bytes => ⟨"", [], .inr ⟨rfl, by simp⟩, by decide⟩
  | .status => ⟨"0x0", .inl rfl⟩

/-- An event has the part that a check reads if the checks before that one pass. -/
theorem Offends.holds {p : Part} (offends : Offends e n (.part p) err) : e.Holds p := by
  have listed := List.mem_of_getElem? offends.place
  have outer (d : Check) (h : d ∈ e.checks) := offends.passes_of_stage_lt h
  cases p with
  | chain => trivial
  | block p => exact outer .block (by simp [checks]) (by simp [Check.stage])
  | transaction p => exact outer .transaction (by simp [checks]) (by simp [Check.stage])
  | receipt p =>
    -- a check of the receipt is listed only if there is one
    rintro absent
    simp [checks, Block.checks, Transaction.checks, absent] at listed
  | log entry p =>
    have inReceipt : .part (.log entry p) ∈ e.receipt.elim [] Receipt.checks := by
      simpa [checks, Block.checks, Transaction.checks] using listed
    cases h : e.receipt with
    | none => simp [h] at inReceipt
    | some r =>
      rw [h, Option.elim_some] at inReceipt
      obtain ⟨q, same⟩ | ⟨entry', l, hl, inLog⟩ := mem_checks_receipt inReceipt
      · cases same
      · obtain ⟨q, same, within⟩ := mem_checks_log inLog
        cases same
        exact ⟨r, h, l, hl, within⟩

theorem exists_repair (offends : Offends e n c err) : ∃ e', Repairs e c e' ∧ c.Passes e' := by
  cases c with
  | part p =>
    obtain ⟨s, accepted⟩ := exists_accepts p.rule.kind
    have text := text_replace (s := s) offends.holds
    exact ⟨_, .part p (some s), fun _ => by simp [text], fun s' hs' => by
      rw [text, Option.mem_some_iff] at hs'
      exact hs' ▸ accepted⟩
  | block => exact ⟨_, .block ⟨none, none, none⟩, Option.some_ne_none _⟩
  | transaction =>
    exact ⟨_, .transaction ⟨none, none, none, none, none, none, none, none⟩, Option.some_ne_none _⟩
  | contract => exact ⟨_, .recipient, .inl dropped_recipient⟩

theorem Offends.advances (offends : Offends e n c err) (repairs : Repairs e c e')
    (repaired : c.Passes e') : Advances e n e' := by
  have passes : ∀ k ≤ n, ∀ d ∈ e.checks[k]?, d.Passes e' := by
    intro k hk d hd
    rcases hk.lt_or_eq with before | rfl
    · exact repairs.passes offends.fails.not_passes (offends.earlier k before d hd)
        (offends.stage_le before hd)
    · obtain rfl : c = d := Option.some.inj (offends.place.symm.trans hd)
      exact repaired
  refine ⟨repairs.checks_eq, passes, ?_⟩
  -- the checks are the same as before, so the first to fail now stands behind those that pass
  cases result : e'.toMessage with
  | ok m => exact .inl ⟨m, rfl⟩
  | error err' =>
    obtain ⟨n', c', offends'⟩ := exists_offends result
    refine .inr ⟨err', n', c', rfl, lt_of_not_ge fun early => ?_, offends'⟩
    exact offends'.fails.not_passes (passes n' early c' (repairs.checks_eq ▸ offends'.place))

/-- The error of a refused event is that of the first check that fails, with the name of the part and
its text, and it says that something is missing exactly if it is. Once that part is repaired, which is
always possible, the checks before pass as they did, and the event has a message or is refused by a
later check. -/
theorem toMessage_refused (e : Event) (err : ConversionError) (refused : e.toMessage = .error err) :
    ∃ n c, Offends e n c err ∧ ((∃ name, err = .missing name) ↔ c.Lacks e) ∧
      (∃ e', Repairs e c e' ∧ c.Passes e') ∧
      ∀ e', Repairs e c e' → c.Passes e' → Advances e n e' := by
  obtain ⟨n, c, offends⟩ := exists_offends refused
  exact ⟨n, c, offends, offends.fails.missing_iff, exists_repair offends,
    fun e' repairs repaired => offends.advances repairs repaired⟩

/-- An event with a short hash, no time and no transaction. -/
def faultyEvent : Event :=
  ⟨some "1", some ⟨some "0x10", some "0xab", none⟩, none, none⟩

theorem toMessage_refused_faultyEvent :
    faultyEvent.toMessage = .error (.hash "block.hash" "0xab") ∧
      ∃ n c, Offends faultyEvent n c (.hash "block.hash" "0xab") ∧
        ((∃ name, ConversionError.hash "block.hash" "0xab" = .missing name) ↔ c.Lacks faultyEvent) ∧
        (∃ e', Repairs faultyEvent c e' ∧ c.Passes e') ∧
        ∀ e', Repairs faultyEvent c e' → c.Passes e' → Advances faultyEvent n e' := by
  have refused : faultyEvent.toMessage = .error (.hash "block.hash" "0xab") := rfl
  exact ⟨refused, toMessage_refused _ _ refused⟩

end Repairs

end TxRelay.Event
