import TxRelay.Proofs.Relay.Intake

/-!
# Timetables

The times of a calm run follow from the room of the queues, the pauses of the feed and how long each
call takes. A request is put on a queue when it has been put on the queue in front and there is room
for it; it is called when the call before has ended. That there is room means that the call that is
as many places earlier as the queue has room has begun.

Results:
* `Pace.placedAt`, `Pace.startedAt`: the recurrence for the times of placements and calls.
* `wait_append`: the pauses of a feed that is cut somewhere.
* `duration_eq_effort`: a call takes as long as its agent, up to the limit.
-/

namespace TxRelay

/-- How long a call takes whose caller waits up to a limit; one that is never answered takes longer
than any limit. -/
def Reply.effort (r : Reply) (limit : ℕ) : ℕ :=
  match r.ending with
  | .silence => limit
  | .answer _ | .crash _ => min r.delay limit

theorem duration_eq_effort (r : Reply) (limit : ℕ) : r.duration limit = r.effort limit := by
  unfold Reply.duration Reply.inTime Reply.effort
  cases r.ending with
  | silence => rfl
  | answer | crash =>
    simp only [decide_eq_true_eq]
    split_ifs with le
    · exact (min_eq_left le).symm
    · exact (min_eq_right (not_le.1 le).le).symm

/-! ## Pauses -/

namespace Feed

/-- The message that a step of a feed gives rise to. -/
def Step.message? (step : Step) : Option Message :=
  step.item?.bind Item.message?

/-- How long the feed pauses with a step. -/
def Step.length : Step → ℕ
  | .pause duration => duration
  | .item _ | .fail _ | .quiet => 0

/-- How long a feed pauses between the message before the `k`-th and the `k`-th; after the last
message, how long it pauses until its end. -/
def wait : List Step → ℕ → ℕ
  | [], _ => 0
  | step :: rest, 0 => if step.message?.isSome then 0 else step.length + wait rest 0
  | step :: rest, k + 1 => if step.message?.isSome then wait rest k else wait rest (k + 1)

theorem messages_cons (step : Step) (rest : List Step) :
    messages (step :: rest) = step.message?.toList ++ messages rest := by
  have := messages_append [step] rest
  rw [List.singleton_append] at this
  rw [this]
  congr 1
  unfold messages items Step.message?
  cases h : step.item? with
  | none => simp [h]
  | some i => cases hm : i.message? <;> simp [h, hm]

/-- There are no pauses between messages that a feed has not got. -/
theorem wait_eq_zero {steps : List Step} {k : ℕ} (h : (messages steps).length < k) :
    wait steps k = 0 := by
  induction steps generalizing k with
  | nil => rfl
  | cons step rest ih =>
    rw [messages_cons] at h
    obtain ⟨k, rfl⟩ := Nat.exists_eq_add_of_lt h
    rw [wait]
    cases hm : step.message? with
    | none =>
      simp only [hm, Option.toList_none, List.nil_append] at h ⊢
      exact ih h
    | some message =>
      simp only [hm, Option.toList_some, List.singleton_append, List.length_cons] at h ⊢
      exact ih (by omega)

/-- A pause that a feed is cut in counts on both sides. -/
theorem wait_append (taken rest : List Step) (k : ℕ) :
    wait (taken ++ rest) ((messages taken).length + k) =
      wait taken ((messages taken).length + k) + wait rest k := by
  induction taken with
  | nil => simp [wait, messages, items]
  | cons step taken ih =>
    rw [messages_cons, List.cons_append]
    cases hm : step.message? with
    | none =>
      simp only [Option.toList_none, List.nil_append]
      generalize (messages taken).length + k = n at ih ⊢
      cases n with
      | zero => simp only [wait, hm, Option.isSome_none, Bool.false_eq_true, if_false, ih]; omega
      | succ n => simp only [wait, hm, Option.isSome_none, Bool.false_eq_true, if_false, ih]
    | some message =>
      have hlength : ([message] ++ messages taken).length + k = (messages taken).length + k + 1 := by
        rw [List.length_append, List.length_singleton]; omega
      rw [Option.toList_some, hlength]
      simp only [wait, hm, Option.isSome_some, if_true, ih]

end Feed

/-! ## The recurrence -/

namespace Relay

/-- What the times of a run depend on. -/
structure Pace where
  agents : ℕ
  /-- The room of a queue. -/
  room : ℕ
  /-- How long the feed pauses before a message, or after the last one. -/
  wait : ℕ → ℕ
  /-- How long a call of an agent takes. -/
  effort : ℕ → ℕ → ℕ
  room_pos : 0 < room

namespace Pace

mutual

/-- When the `k`-th request is put on the `i`-th queue. -/
def placedAt (p : Pace) : (i k : ℕ) → ℕ
  | 0, 0 => p.wait 0
  | 0, k + 1 =>
    max (p.placedAt (p.agents - 1) k + p.wait (k + 1))
      (if p.room ≤ k + 1 then p.startedAt 0 (k + 1 - p.room) else 0)
  | i + 1, k =>
    max (p.placedAt i k) (if p.room ≤ k then p.startedAt (i + 1) (k - p.room) else 0)
termination_by i k => (k, i, 0)
decreasing_by
  · decreasing_with omega
  · have room_pos := p.room_pos
    decreasing_with omega
  · decreasing_with omega
  · have room_pos := p.room_pos
    decreasing_with omega

/-- When the `i`-th agent is called for the `k`-th time. -/
def startedAt (p : Pace) : (i k : ℕ) → ℕ
  | i, 0 => p.placedAt i 0
  | i, k + 1 => max (p.placedAt i (k + 1)) (p.startedAt i k + p.effort i k)
termination_by i k => (k, i, 1)

end

/-- When the requests before the `k`-th are on all queues. -/
def clearAt (p : Pace) : ℕ → ℕ
  | 0 => 0
  | k + 1 => p.placedAt (p.agents - 1) k

/-- When ingestion has got the `k`-th message, or has come to the end of the feed after the last
one. -/
def readyAt (p : Pace) (k : ℕ) : ℕ :=
  p.clearAt k + p.wait k

/-- When there is room for the `k`-th request on the `i`-th queue. -/
def freedAt (p : Pace) (i k : ℕ) : ℕ :=
  if p.room ≤ k then p.startedAt i (k - p.room) else 0

/-- When the first `k` calls of the `i`-th agent have ended. -/
def endedAt (p : Pace) (i : ℕ) : ℕ → ℕ
  | 0 => 0
  | k + 1 => p.startedAt i k + p.effort i k

/-- When a run with so many messages has ended. -/
def finishedAt (p : Pace) (count : ℕ) : ℕ :=
  max (p.readyAt count) ((Finset.range p.agents).sup fun i => p.endedAt i count)

variable (p : Pace)

theorem placedAt_zero (k : ℕ) : p.placedAt 0 k = max (p.readyAt k) (p.freedAt 0 k) := by
  cases k with
  | zero =>
    have hroom : ¬ p.room ≤ 0 := not_le.2 p.room_pos
    rw [placedAt, readyAt, clearAt, freedAt, if_neg hroom, Nat.zero_add, Nat.max_zero]
  | succ k => rw [placedAt, readyAt, clearAt, freedAt]

theorem placedAt_succ (i k : ℕ) :
    p.placedAt (i + 1) k = max (p.placedAt i k) (p.freedAt (i + 1) k) := by
  rw [placedAt, freedAt]

theorem startedAt_eq (i k : ℕ) : p.startedAt i k = max (p.placedAt i k) (p.endedAt i k) := by
  cases k with
  | zero => rw [startedAt, endedAt, Nat.max_zero]
  | succ k => rw [startedAt, endedAt]

theorem endedAt_le_startedAt (i k : ℕ) : p.endedAt i k ≤ p.startedAt i k := by
  rw [startedAt_eq]; exact le_max_right _ _

theorem placedAt_le_startedAt (i k : ℕ) : p.placedAt i k ≤ p.startedAt i k := by
  rw [startedAt_eq]; exact le_max_left _ _

theorem readyAt_le_placedAt (k : ℕ) : p.readyAt k ≤ p.placedAt 0 k := by
  rw [placedAt_zero]; exact le_max_left _ _

theorem freedAt_le_placedAt (i k : ℕ) : p.freedAt i k ≤ p.placedAt i k := by
  cases i with
  | zero => rw [placedAt_zero]; exact le_max_right _ _
  | succ i => rw [placedAt_succ]; exact le_max_right _ _

/-- A request can be put on a queue when ingestion has got it, it is on the queue in front and there
is room. -/
theorem placedAt_le {i k bound : ℕ} (ready : p.readyAt k ≤ bound)
    (front : ∀ j, i = j + 1 → p.placedAt j k ≤ bound) (freed : p.freedAt i k ≤ bound) :
    p.placedAt i k ≤ bound := by
  cases i with
  | zero => rw [placedAt_zero]; exact max_le ready freed
  | succ i => rw [placedAt_succ]; exact max_le (front i rfl) freed

theorem placedAt_mono (k : ℕ) : Monotone fun i => p.placedAt i k :=
  monotone_nat_of_le_succ fun i => by rw [placedAt_succ]; exact le_max_left _ _

theorem endedAt_mono (i : ℕ) : Monotone (p.endedAt i) :=
  monotone_nat_of_le_succ fun k => (p.endedAt_le_startedAt i k).trans (Nat.le_add_right _ _)

theorem readyAt_mono : Monotone p.readyAt := by
  refine monotone_nat_of_le_succ fun k => ?_
  calc p.readyAt k
      ≤ p.placedAt 0 k := p.readyAt_le_placedAt k
    _ ≤ p.placedAt (p.agents - 1) k := p.placedAt_mono k (Nat.zero_le _)
    _ ≤ p.readyAt (k + 1) := Nat.le_add_right _ _

theorem readyAt_le_finishedAt {k count : ℕ} (le : k ≤ count) :
    p.readyAt k ≤ p.finishedAt count :=
  (p.readyAt_mono le).trans (le_max_left _ _)

theorem endedAt_le_finishedAt {i k count : ℕ} (within : i < p.agents) (le : k ≤ count) :
    p.endedAt i k ≤ p.finishedAt count := by
  have hsup := Finset.le_sup (f := fun i => p.endedAt i count) (Finset.mem_range.2 within)
  exact ((p.endedAt_mono i le).trans hsup).trans (le_max_right _ _)

end Pace

/-- How long the `k`-th call of the `i`-th agent takes in a calm run. -/
def Setup.effort (setup : Setup) (i k : ℕ) : ℕ :=
  match setup.agents[i]?, (requests setup.ids setup.feed)[k]? with
  | some agent, some request => (agent.respond k request).effort setup.limit
  | _, _ => 0

/-- What the times of a calm run depend on. -/
def Setup.pace (setup : Setup) : Pace where
  agents := setup.agents.length
  room := setup.room
  wait := Feed.wait setup.feed
  effort := setup.effort
  room_pos := Nat.lt_of_lt_of_le Nat.one_pos (le_max_right _ _)

end Relay

end TxRelay
