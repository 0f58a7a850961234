import TxRelay.Proofs.Relay.Moves

/-!
# What ingestion takes

Ingestion takes the steps of the feed one by one and leaves out none. What it has counted and tagged
follows from the steps it took: every item is counted, and the messages of the items that have one
are tagged in the order of the feed with the next identifiers.

Results:
* `Intake.step`: a step of ingestion takes one step of the feed, or none.
* `intake_of_run`: what ingestion has counted and tagged, in any state of any run.
-/

namespace TxRelay.Feed

/-- The item that a step of a feed yields. -/
def Step.item? : Step → Option Item
  | .item i => some i
  | _ => none

/-- Whether a step is the failure of the feed. -/
def Step.failure? : Step → Option FeedError
  | .fail error => some error
  | _ => none

/-- Whether a feed goes on after a step, or ends with it well. -/
def Step.flows : Step → Bool
  | .item _ | .pause _ => true
  | .fail _ | .quiet => false

theorem failure?_of_flows {step : Step} (h : step.flows = true) : step.failure? = none := by
  cases step with
  | fail error => cases h
  | item | pause | quiet => rfl

theorem quiet_notMem {steps : List Step} (h : ∀ step ∈ steps, step.flows = true) :
    .quiet ∉ steps := by
  intro hquiet
  cases h .quiet hquiet

/-- The message of an item that has one. -/
def Item.message? (i : Item) : Option Message :=
  i.toMessage.toOption

theorem message?_of_ok {i : Item} {message : Message} (h : i.toMessage = .ok message) :
    i.message? = some message := by
  rw [Item.message?, h]; rfl

theorem message?_of_error {i : Item} {error : ConversionError} (h : i.toMessage = .error error) :
    i.message? = none := by
  rw [Item.message?, h]; rfl

/-- The items of a feed. -/
def items (steps : List Step) : List Item :=
  steps.filterMap Step.item?

/-- The messages of the items that have one. -/
def messages (steps : List Step) : List Message :=
  (items steps).filterMap Item.message?

/-- The number of items that have no message. -/
def unconverted (steps : List Step) : ℕ :=
  (items steps).countP fun i => i.message?.isNone

theorem items_append (first rest : List Step) : items (first ++ rest) = items first ++ items rest :=
  List.filterMap_append

theorem messages_append (first rest : List Step) :
    messages (first ++ rest) = messages first ++ messages rest := by
  rw [messages, items_append, List.filterMap_append]; rfl

theorem unconverted_append (first rest : List Step) :
    unconverted (first ++ rest) = unconverted first + unconverted rest := by
  rw [unconverted, items_append, List.countP_append]; rfl

/-- Every item has a message or is counted as having none. -/
theorem length_messages_add (steps : List Step) :
    (messages steps).length + unconverted steps = (items steps).length := by
  unfold messages unconverted
  induction items steps with
  | nil => rfl
  | cons i rest ih =>
    cases h : i.message? with
    | none =>
      simp only [List.filterMap_cons_none h, List.countP_cons, h, List.length_cons,
        Option.isNone_none, if_true]
      omega
    | some message =>
      simp only [List.filterMap_cons_some h, List.countP_cons, h, List.length_cons,
        Option.isNone_some, Bool.false_eq_true, if_false]
      omega

end TxRelay.Feed

namespace TxRelay.Relay

/-- The requests for the messages of a feed. -/
def requests (ids : ℕ → String) (steps : List Feed.Step) : List Request :=
  (Feed.messages steps).mapIdx (Request.tag ids)

theorem length_requests (ids : ℕ → String) (steps : List Feed.Step) :
    (requests ids steps).length = (Feed.messages steps).length :=
  List.length_mapIdx

/-- A step without a message gives no request. -/
theorem requests_append_of_none (ids : ℕ → String) (taken : List Feed.Step) {step : Feed.Step}
    (h : step.item?.bind Feed.Item.message? = none) :
    requests ids (taken ++ [step]) = requests ids taken := by
  have : Feed.messages [step] = [] := by
    cases hi : step.item? with
    | none => simp [Feed.messages, Feed.items, hi]
    | some i => simpa [Feed.messages, Feed.items, hi] using h
  rw [requests, Feed.messages_append, this, List.append_nil]; rfl

/-- An item with a message gives one more request, with the next identifier. -/
theorem requests_append_of_some (ids : ℕ → String) (taken : List Feed.Step) {i : Feed.Item}
    {message : Message} (h : i.message? = some message) :
    requests ids (taken ++ [.item i]) =
      requests ids taken ++ [Request.tag ids (requests ids taken).length message] := by
  have : Feed.messages [.item i] = [message] := by
    simp [Feed.messages, Feed.items, Feed.Step.item?, h]
  rw [requests, Feed.messages_append, this, List.mapIdx_concat, length_requests]; rfl

/-- A request carries the message of its item. -/
theorem map_message_requests (ids : ℕ → String) (steps : List Feed.Step) :
    (requests ids steps).map (·.message) = Feed.messages steps := by
  apply List.ext_getElem
  · simp [requests]
  · intro n h₁ h₂
    simp [requests, Request.tag]

/-- The requests bear the first identifiers, in their order. -/
theorem map_id_requests (ids : ℕ → String) (steps : List Feed.Step) :
    (requests ids steps).map (·.id) = (List.range (Feed.messages steps).length).map ids := by
  apply List.ext_getElem
  · simp [requests]
  · intro n h₁ h₂
    simp [requests, Request.tag]

/-- The requests for the first steps are the first requests. -/
theorem requests_mono (ids : ℕ → String) {first steps : List Feed.Step} (h : first <+: steps) :
    requests ids first <+: requests ids steps := by
  obtain ⟨rest, rfl⟩ := h
  rw [requests, requests, Feed.messages_append, List.mapIdx_append]
  exact List.prefix_append _ _

/-- With identifiers that do not repeat, no request occurs twice. -/
theorem nodup_requests {ids : ℕ → String} (distinct : Function.Injective ids)
    (steps : List Feed.Step) : (requests ids steps).Nodup := by
  have hids : ((requests ids steps).map (·.id)).Nodup := by
    rw [map_id_requests]
    exact List.nodup_range.map distinct
  exact hids.of_map

/-- An event that has a message: a call with no input, by a pending transaction. -/
def plainEvent : Event :=
  let zeros (count : ℕ) : String := String.ofList (Quantity.mark (List.replicate count '0'))
  { chainId := some "0x1"
    block := some ⟨some "0x10", some (zeros 64), some "0x0"⟩
    transaction :=
      some ⟨some (zeros 64), some (zeros 40), some (zeros 40), some "0x7", some "0x5208",
        some "0x1", some "0x0", none⟩
    receipt := none }

/-- What ingestion has counted and tagged when it has taken some steps of the feed. -/
structure Intake (setup : Setup) (i : Ingestion) (taken : List Feed.Step) : Prop where
  feed : setup.feed = taken ++ i.feed
  tagged : i.tagged = requests setup.ids taken
  received : i.totals.received = (Feed.items taken).length
  unconverted : i.totals.unconverted = Feed.unconverted taken
  unfailed : i.activity ≠ .ended → ∀ step ∈ taken, step.failure? = none

theorem intake_start (setup : Setup) (signal : Bool) :
    Intake setup (State.start setup signal).ingestion [] :=
  ⟨rfl, rfl, rfl, rfl, by simp⟩

namespace Intake

variable {setup : Setup} {i : Ingestion} {taken : List Feed.Step}

/-- What is counted and tagged does not depend on how ingestion goes on. -/
theorem setActivity (h : Intake setup i taken) (activity : Activity)
    (running : activity ≠ .ended → i.activity ≠ .ended) :
    Intake setup { i with activity } taken :=
  ⟨h.feed, h.tagged, h.received, h.unconverted, fun ha => h.unfailed (running ha)⟩

theorem setDispatched (h : Intake setup i taken) (dispatched : ℕ) :
    Intake setup { i with totals := { i.totals with dispatched } } taken :=
  ⟨h.feed, h.tagged, h.received, h.unconverted, h.unfailed⟩

/-- Taking a step that yields no item. -/
theorem takeStep (h : Intake setup i taken) {step : Feed.Step} {rest : List Feed.Step}
    (front : i.feed = step :: rest) (noItem : step.item? = none) (activity : Activity)
    (running : activity ≠ .ended → i.activity ≠ .ended ∧ step.failure? = none) :
    Intake setup { i with activity, feed := rest } (taken ++ [step]) where
  feed := by simp [h.feed, front]
  tagged := by rw [requests_append_of_none _ _ (by rw [noItem]; rfl)]; exact h.tagged
  received := by simp [h.received, Feed.items, noItem]
  unconverted := by
    simp [h.unconverted, Feed.unconverted, Feed.items, noItem]
  unfailed ha := by
    obtain ⟨hi, hstep⟩ := running ha
    intro s hs
    rcases List.mem_append.1 hs with hs | hs
    · exact h.unfailed hi s hs
    · rw [List.mem_singleton.1 hs, hstep]

end Intake

variable {s t : State} {taken : List Feed.Step}

theorem Intake.skip (h : Intake s.setup s.ingestion taken) {item : Feed.Item}
    {rest : List Feed.Step} {error : ConversionError} (running : s.ingestion.activity ≠ .ended)
    (front : s.ingestion.feed = .item item :: rest) (bad : item.toMessage = .error error) :
    Intake s.setup ((s.goOn .pulling rest).skip error).ingestion (taken ++ [.item item]) where
  feed := by simp [h.feed, front, State.skip, State.goOn, State.record]
  tagged := by
    have none : (Feed.Step.item item).item?.bind Feed.Item.message? = none :=
      Feed.message?_of_error bad
    rw [requests_append_of_none _ _ none]
    exact h.tagged
  received := by
    simp [State.skip, State.goOn, State.record, h.received, Feed.items, Feed.Step.item?]
  unconverted := by
    rw [Feed.unconverted_append]
    simp [State.skip, State.goOn, State.record, h.unconverted, Feed.unconverted, Feed.items,
      Feed.Step.item?, Feed.message?_of_error bad]
  unfailed _ := by
    intro step hstep
    rcases List.mem_append.1 hstep with hstep | hstep
    · exact h.unfailed running step hstep
    · rw [List.mem_singleton.1 hstep]; rfl

theorem Intake.tag (h : Intake s.setup s.ingestion taken) {item : Feed.Item}
    {rest : List Feed.Step} {message : Message} (running : s.ingestion.activity ≠ .ended)
    (front : s.ingestion.feed = .item item :: rest) (good : item.toMessage = .ok message) :
    Intake s.setup ((s.goOn .pulling rest).tag message).ingestion (taken ++ [.item item]) where
  feed := by simp [h.feed, front, State.tag, State.goOn, State.record]
  tagged := by
    rw [requests_append_of_some _ _ (Feed.message?_of_ok good), ← h.tagged]
    rfl
  received := by
    simp [State.tag, State.goOn, State.record, h.received, Feed.items, Feed.Step.item?]
  unconverted := by
    rw [Feed.unconverted_append]
    simp [State.tag, State.goOn, State.record, h.unconverted, Feed.unconverted, Feed.items,
      Feed.Step.item?, Feed.message?_of_ok good]
  unfailed _ := by
    intro step hstep
    rcases List.mem_append.1 hstep with hstep | hstep
    · exact h.unfailed running step hstep
    · rw [List.mem_singleton.1 hstep]; rfl

/-- What a step of ingestion takes is counted and tagged. -/
theorem Intake.step (h : Intake s.setup s.ingestion taken) (step : IngestionStep s t) :
    ∃ taken, Intake s.setup t.ingestion taken := by
  cases step with
  | cancel | exhaust | dead => exact ⟨taken, h.setActivity .ended (by simp)⟩
  | skip ready quiet front bad => exact ⟨_, h.skip (by simp [ready]) front bad⟩
  | tag ready quiet front good => exact ⟨_, h.tag (by simp [ready]) front good⟩
  | pause ready quiet front => exact ⟨_, h.takeStep front rfl _ fun _ => ⟨by simp [ready], rfl⟩⟩
  | fail ready quiet front => exact ⟨_, h.takeStep front rfl .ended (by simp)⟩
  | resume paused quiet due => exact ⟨taken, h.setActivity .pulling fun _ => by simp [paused]⟩
  | finish placing done => exact ⟨taken, h.setActivity .pulling fun _ => by simp [placing]⟩
  | push placing quiet worker opened room =>
    exact ⟨taken, (h.setActivity (.placing _ _) fun _ => by simp [placing]).setDispatched _⟩

theorem Intake.happens {m : Move} (h : Intake s.setup s.ingestion taken) (move : Happens s m t) :
    ∃ taken, Intake t.setup t.ingestion taken := by
  rw [move.setup]
  cases move with
  | ingestion step => exact h.step step
  | join => exact ⟨taken, by simpa using h⟩
  | conclude => exact ⟨taken, by simpa using h⟩
  | worker | pass | raise => exact ⟨taken, h⟩

/-- What ingestion has counted and tagged, in any state of any run. -/
theorem intake_of_run {setup : Setup} {signal : Bool} {moves : List Move}
    (run : Run (.start setup signal) moves t) : ∃ taken, Intake setup t.ingestion taken := by
  have h := run.keeps (P := fun t => ∃ taken, Intake t.setup t.ingestion taken)
    (fun ⟨_, h⟩ move => h.happens (happens_of_after move)) ⟨[], intake_start setup signal⟩
  rwa [run.setup] at h

end TxRelay.Relay
