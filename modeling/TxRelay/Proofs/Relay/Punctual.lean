import TxRelay.Proofs.Relay.Level
import TxRelay.Proofs.Relay.Prompt
import TxRelay.Proofs.Relay.Timetable

/-!
# Calm runs keep the timetable

In virtual time everything happens as early as it may. What has happened in a calm run was due by
then, and what has not is not due before: a task that could step keeps time from passing, and a task
that waits for another is due no earlier than the other.

Results:
* `OnTime.ingestionStep`, `OnTime.workerStep`, `OnTime.pass`: what tasks do, and the passing of time,
  keep the timetable.
* `timely_of_run`: when a calm run in virtual time has ended, every call has begun on time.
* `keeps_timetable`: the same with the run that is carried out, which does end.
-/

namespace TxRelay.Relay

/-! ## Occasions -/

/-- What the timetable has a time for. -/
inductive Occasion where
  /-- Ingestion has got a message, or has come to the end of the feed. -/
  | ready (number : ℕ)
  /-- A request is put on a queue. -/
  | placed (index number : ℕ)
  /-- An agent is called. -/
  | started (index number : ℕ)
  /-- A call comes to its end. -/
  | ended (index number : ℕ)

/-- The time of an occasion. -/
def Pace.time (p : Pace) : Occasion → ℕ
  | .ready k => p.readyAt k
  | .placed i k => p.placedAt i k
  | .started i k => p.startedAt i k
  | .ended i k => p.endedAt i (k + 1)

/-- The occasions of a run with so many agents and messages. -/
def Occasion.Within (agents count : ℕ) : Occasion → Prop
  | ready k => k ≤ count
  | placed i k | started i k | ended i k => i < agents ∧ k < count

/-- A worker has got beyond a number, by some measure of it. -/
def Beyond (measure : Worker → ℕ) (workers : List Worker) (index number : ℕ) : Prop :=
  ∃ w, workers[index]? = some w ∧ number < measure w

/-- The occasions that have been. -/
def State.Past (s : State) : Occasion → Prop
  | .ready k => k < s.ingestion.tagged.length ∨ s.closed = true ∧ k = s.ingestion.tagged.length
  | .placed i k => i < s.workers.length ∧ k < s.handed i
  | .started i k => Beyond (·.calls.length) s.workers i k
  | .ended i k => Beyond (·.settled.length) s.workers i k

theorem beyond_of {measure : Worker → ℕ} {workers : List Worker} {index number : ℕ} {w : Worker}
    (worker : workers[index]? = some w) :
    Beyond measure workers index number ↔ number < measure w := by
  refine ⟨?_, fun h => ⟨w, worker, h⟩⟩
  rintro ⟨v, hv, h⟩
  obtain rfl : w = v := Option.some.inj (worker.symm.trans hv)
  exact h

/-- Only the worker that is replaced may get beyond more. -/
theorem beyond_set {measure : Worker → ℕ} {workers : List Worker} {index : ℕ} {w next : Worker}
    (worker : workers[index]? = some w) (le : measure w ≤ measure next) (i k : ℕ) :
    Beyond measure (workers.set index next) i k ↔
      Beyond measure workers i k ∨ i = index ∧ measure w ≤ k ∧ k < measure next := by
  have hindex : index < workers.length := (List.getElem?_eq_some_iff.1 worker).1
  by_cases hi : index = i
  · subst hi
    rw [beyond_of (List.getElem?_set_self hindex), beyond_of worker]
    omega
  · have hother : (workers.set index next)[i]? = workers[i]? := List.getElem?_set_ne hi
    simp only [Beyond, hother]
    have : i ≠ index := fun h => hi h.symm
    simp [this]

/-! ## Keeping the timetable -/

/-- How ingestion keeps the timetable with what it is about. -/
def State.Course (setup : Setup) (s : State) : Prop :=
  match s.ingestion.activity with
  | .pulling =>
    s.now + Feed.wait s.ingestion.feed 0 = setup.pace.readyAt s.ingestion.tagged.length
  | .pausing finish =>
    s.now ≤ finish ∧
      finish + Feed.wait s.ingestion.feed 0 = setup.pace.readyAt s.ingestion.tagged.length
  | .placing _ next =>
    Feed.wait setup.feed s.ingestion.tagged.length = Feed.wait s.ingestion.feed 0 ∧
      (s.workers.length ≤ next → s.now = setup.pace.clearAt s.ingestion.tagged.length)
  | .ended => True

/-- A relay keeps the timetable. -/
structure OnTime (setup : Setup) (s : State) : Prop where
  past : ∀ o, s.Past o → setup.pace.time o ≤ s.now
  future : ∀ o : Occasion, o.Within setup.agents.length (Feed.messages setup.feed).length →
    ¬ s.Past o → s.now ≤ setup.pace.time o
  starts : ∀ {index : ℕ} {w : Worker}, s.workers[index]? = some w →
    ∀ {k call}, w.calls[k]? = some call → call.start = setup.pace.startedAt index k
  course : s.Course setup
  within : s.now ≤ setup.pace.finishedAt (Feed.messages setup.feed).length

section Steps

variable {setup : Setup} {s t : State}

theorem Smooth.agents (h : Smooth setup s) : s.workers.length = setup.pace.agents := h.crew.length

theorem Smooth.room (h : Smooth setup s) : s.setup.room = setup.pace.room := by
  rw [h.same]; rfl

/-- Without a message in front the feed pauses for the same time from the next step on. -/
theorem wait_cons {step : Feed.Step} (h : step.message? = none) (rest : List Feed.Step) :
    Feed.wait (step :: rest) 0 = step.length + Feed.wait rest 0 := by
  rw [Feed.wait, h]; rfl

/-- A relay keeps the timetable when nothing has been before its time. -/
theorem OnTime.bring (h : OnTime setup s) (now : t.now = s.now) (keeps : ∀ o, s.Past o → t.Past o)
    (news : ∀ o, t.Past o → s.Past o ∨ setup.pace.time o ≤ s.now)
    (starts : ∀ {index : ℕ} {w : Worker}, t.workers[index]? = some w →
      ∀ {k call}, w.calls[k]? = some call → call.start = setup.pace.startedAt index k)
    (course : t.Course setup) : OnTime setup t where
  past o ho := by rw [now]; exact (news o ho).elim (h.past o) id
  future o within fresh := by rw [now]; exact h.future o within fun ho => fresh (keeps o ho)
  starts := starts
  course := course
  within := now ▸ h.within

/-- Ingestion gets the next message, if it gets any, when it is due. -/
theorem OnTime.read (h : OnTime setup s) (now : t.now = s.now) (workers : t.workers = s.workers)
    (handed : ∀ i < s.workers.length, t.handed i = s.handed i)
    (keeps : ∀ k, s.Past (.ready k) → t.Past (.ready k))
    (news : ∀ k, t.Past (.ready k) → s.Past (.ready k) ∨ setup.pace.readyAt k ≤ s.now)
    (course : t.Course setup) : OnTime setup t := by
  have same {i k : ℕ} : t.Past (.placed i k) ↔ s.Past (.placed i k) := by
    simp only [State.Past, workers]
    exact and_congr_right fun hi => by rw [handed i hi]
  have alike (measure : Worker → ℕ) {i k : ℕ} :
      Beyond measure t.workers i k ↔ Beyond measure s.workers i k := by rw [workers]
  refine h.bring now ?_ ?_ (fun hw => h.starts (workers ▸ hw)) course
  · rintro (k | ⟨i, k⟩ | ⟨i, k⟩ | ⟨i, k⟩) hpast
    · exact keeps k hpast
    · exact same.2 hpast
    · exact (alike _).2 hpast
    · exact (alike _).2 hpast
  · rintro (k | ⟨i, k⟩ | ⟨i, k⟩ | ⟨i, k⟩) hpast
    · exact news k hpast
    · exact .inl (same.1 hpast)
    · exact .inl ((alike _).1 hpast)
    · exact .inl ((alike _).1 hpast)

/-- Ingestion goes on between two occasions. -/
theorem OnTime.goOn (h : OnTime setup s) (now : t.now = s.now) (workers : t.workers = s.workers)
    (tagged : t.ingestion.tagged.length = s.ingestion.tagged.length) (closed : t.closed = s.closed)
    (handed : ∀ i < s.workers.length, t.handed i = s.handed i) (course : t.Course setup) :
    OnTime setup t := by
  have same (k : ℕ) : t.Past (.ready k) ↔ s.Past (.ready k) := by
    simp only [State.Past, tagged, closed]
  exact h.read now workers handed (fun k => (same k).2) (fun k hk => .inl ((same k).1 hk)) course

/-- Ingestion has got the next message. -/
theorem OnTime.tag (h : OnTime setup s) (smooth : Smooth setup s) (agents : setup.agents ≠ [])
    {item : Feed.Item} {rest : List Feed.Step} {message : Message}
    (ready : s.ingestion.activity = .pulling)
    (front : s.ingestion.feed = .item item :: rest) (good : item.toMessage = .ok message) :
    OnTime setup ((s.goOn .pulling rest).tag message) := by
  have hmessage : (Feed.Step.item item).message? = some message := Feed.message?_of_ok good
  have hcourse := h.course
  rw [State.Course, ready] at hcourse
  have hnow : s.now = setup.pace.readyAt s.ingestion.tagged.length := by
    have hwait : Feed.wait s.ingestion.feed 0 = 0 := by rw [front, Feed.wait, hmessage]; rfl
    simpa [hwait] using hcourse
  have htagged : ((s.goOn .pulling rest).tag message).ingestion.tagged.length =
      s.ingestion.tagged.length + 1 := by simp [State.tag, State.goOn, State.record]
  have hopen : s.closed = false := closed_eq_false (by simp [ready])
  refine h.read rfl rfl ?_ ?_ ?_ ⟨?_, fun hle => ?_⟩
  · intro i _
    simp [State.handed, ready, htagged]
  · rintro k (hlt | ⟨hclosed, -⟩)
    · left; omega
    · rw [hopen] at hclosed; cases hclosed
  · rintro k (hlt | ⟨hclosed, -⟩)
    · rcases Nat.lt_or_eq_of_le (Nat.lt_succ_iff.1 (htagged ▸ hlt)) with hlt | rfl
      · exact .inl (.inl hlt)
      · exact .inr hnow.ge
    · rw [closed_iff, tag_activity] at hclosed; cases hclosed
  · obtain ⟨taken, intake⟩ := smooth.intake
    have hlength : s.ingestion.tagged.length = (Feed.messages taken).length := by
      rw [intake.tagged, length_requests]
    rw [htagged, hlength, intake.feed, Feed.wait_append, Feed.wait_eq_zero (Nat.lt_succ_self _),
      front, Feed.wait, hmessage]
    simp [State.tag, State.goOn, State.record]
  · have : s.workers.length ≤ 0 := hle
    rw [smooth.crew.length, Nat.le_zero, List.length_eq_zero_iff] at this
    exact absurd this agents

theorem OnTime.skip (h : OnTime setup s) {item : Feed.Item} {rest : List Feed.Step}
    {error : ConversionError} (ready : s.ingestion.activity = .pulling)
    (front : s.ingestion.feed = .item item :: rest) (bad : item.toMessage = .error error) :
    OnTime setup ((s.goOn .pulling rest).skip error) := by
  have noMessage : (Feed.Step.item item).message? = none := Feed.message?_of_error bad
  have hcourse := h.course
  rw [State.Course, ready, front, wait_cons noMessage] at hcourse
  refine h.goOn rfl rfl rfl ?_ ?_ ?_
  · simp [State.closed, ready]
  · intro i _
    simp [State.handed, ready, State.skip, State.goOn, State.record]
  · simpa [State.Course, State.skip, State.goOn, State.record, Feed.Step.length] using hcourse

theorem OnTime.pause (h : OnTime setup s) {duration : ℕ} {rest : List Feed.Step}
    (ready : s.ingestion.activity = .pulling)
    (front : s.ingestion.feed = .pause duration :: rest) :
    OnTime setup (s.goOn (.pausing (s.now + duration)) rest) := by
  have hcourse := h.course
  rw [State.Course, ready, front, wait_cons rfl, ← Nat.add_assoc] at hcourse
  refine h.goOn rfl rfl rfl ?_ ?_ ⟨Nat.le_add_right _ _, hcourse⟩
  · simp [State.closed, ready]
  · intro i _
    simp [State.handed, ready, State.goOn]

theorem OnTime.resume (h : OnTime setup s) {finish : ℕ}
    (paused : s.ingestion.activity = .pausing finish) (due : finish ≤ s.now) :
    OnTime setup (s.goOn .pulling s.ingestion.feed) := by
  have hcourse := h.course
  rw [State.Course, paused] at hcourse
  obtain ⟨le, hcourse⟩ := hcourse
  obtain rfl : s.now = finish := le_antisymm le due
  refine h.goOn rfl rfl rfl ?_ ?_ hcourse
  · simp [State.closed, paused]
  · intro i _
    simp [State.handed, paused, State.goOn]

theorem OnTime.finish (h : OnTime setup s) (smooth : Smooth setup s) {request : Request}
    {index : ℕ} (placing : s.ingestion.activity = .placing request index)
    (done : s.workers.length ≤ index) : OnTime setup (s.goOn .pulling s.ingestion.feed) := by
  have hcourse := h.course
  rw [State.Course, placing] at hcourse
  obtain ⟨hwait, hnow⟩ := hcourse
  have hpos := (smooth.placing placing).2
  refine h.goOn rfl rfl rfl ?_ ?_ ?_
  · simp [State.closed, placing]
  · intro i hi
    simp only [State.handed, placing, State.goOn, if_pos (hi.trans_le done)]
    omega
  · change s.now + Feed.wait s.ingestion.feed 0 = setup.pace.readyAt s.ingestion.tagged.length
    rw [hnow done, ← hwait]
    rfl

/-- Ingestion has come to the end of the feed. -/
theorem OnTime.exhaust (h : OnTime setup s) (ready : s.ingestion.activity = .pulling)
    (front : s.ingestion.feed = []) (r : Record) (result : Except RunError Totals) :
    OnTime setup ((s.record r).endIngestion result) := by
  have hcourse := h.course
  rw [State.Course, ready, front] at hcourse
  have hopen : s.closed = false := closed_eq_false (by simp [ready])
  refine h.read rfl rfl ?_ ?_ ?_ trivial
  · intro i _
    simp [State.handed, ready, State.endIngestion, State.record]
  · rintro k (hlt | ⟨hclosed, -⟩)
    · exact .inl hlt
    · rw [hopen] at hclosed; cases hclosed
  · rintro k (hlt | ⟨-, rfl⟩)
    · exact .inl (.inl hlt)
    · exact .inr hcourse.ge

section Push

variable {request : Request} {index : ℕ} {w : Worker}

theorem handed_push (s : State) (request : Request) (index : ℕ) (w : Worker) (i : ℕ) :
    (s.push request index w).handed i =
      s.ingestion.tagged.length - 1 + if i < index + 1 then 1 else 0 := rfl

theorem handed_of_placing (placing : s.ingestion.activity = .placing request index) (i : ℕ) :
    s.handed i = s.ingestion.tagged.length - 1 + if i < index then 1 else 0 := by
  rw [State.handed, placing]

/-- A request is not put on a queue before its time: it is on the queue in front, and the call has
begun that makes room for it. -/
theorem OnTime.placed_due (h : OnTime setup s) (smooth : Smooth setup s)
    (placing : s.ingestion.activity = .placing request index)
    (worker : s.workers[index]? = some w) (room : w.queue.length < s.setup.room) :
    setup.pace.placedAt index (s.ingestion.tagged.length - 1) ≤ s.now := by
  have hpos := (smooth.placing placing).2
  have hindex : index < s.workers.length := (List.getElem?_eq_some_iff.1 worker).1
  apply Pace.placedAt_le
  · exact h.past (.ready (s.ingestion.tagged.length - 1)) (.inl (by omega))
  · rintro j rfl
    have hhanded : s.handed j = s.ingestion.tagged.length - 1 + 1 := by
      rw [handed_of_placing placing, if_pos (Nat.lt_succ_self j)]
    exact h.past (.placed j _) ⟨by omega, by omega⟩
  · unfold Pace.freedAt
    split_ifs with full
    · have hlength := smooth.length worker
      have hhanded : s.handed index = s.ingestion.tagged.length - 1 := by
        rw [handed_of_placing placing, if_neg (lt_irrefl _), Nat.add_zero]
      rw [smooth.room] at room
      have begun : s.ingestion.tagged.length - 1 - setup.pace.room < w.calls.length := by omega
      exact h.past (.started index _) ⟨w, worker, begun⟩
    · exact Nat.zero_le _

/-- With a push one request is put on one queue, and nothing else happens. -/
theorem past_push (placing : s.ingestion.activity = .placing request index)
    (worker : s.workers[index]? = some w) (o : Occasion) :
    (s.push request index w).Past o ↔
      s.Past o ∨ o = .placed index (s.ingestion.tagged.length - 1) := by
  have hindex : index < s.workers.length := (List.getElem?_eq_some_iff.1 worker).1
  have hlength : (s.push request index w).workers.length = s.workers.length := List.length_set
  have hopen : s.closed = false := closed_eq_false (by simp [placing])
  have hopen' : (s.push request index w).closed = false := closed_eq_false (by simp)
  -- calls and their ends stay as they are
  have alike (measure : Worker → ℕ) (same : measure { w with queue := w.queue ++ [request] } =
      measure w) {i k : ℕ} :
      Beyond measure (s.push request index w).workers i k ↔ Beyond measure s.workers i k := by
    refine (beyond_set worker same.ge i k).trans (or_iff_left ?_)
    rw [same]
    omega
  cases o with
  | ready k =>
    simp only [State.Past, hopen, hopen', Bool.false_eq_true, false_and, or_false, reduceCtorEq]
    exact Iff.rfl
  | placed i k =>
    simp only [State.Past, hlength, handed_push, handed_of_placing placing, Occasion.placed.injEq]
    constructor
    · rintro ⟨hi, hk⟩
      by_cases new : i = index ∧ k = s.ingestion.tagged.length - 1
      · exact .inr new
      · refine .inl ⟨hi, ?_⟩
        split_ifs at hk ⊢ <;> omega
    · rintro (⟨hi, hk⟩ | ⟨rfl, rfl⟩)
      · refine ⟨hi, hk.trans_le ?_⟩
        split_ifs <;> omega
      · exact ⟨hindex, by rw [if_pos (Nat.lt_succ_self _)]; omega⟩
  | started i k | ended i k =>
    simp only [reduceCtorEq, or_false]
    exact alike _ rfl

/-- After the last queue the broadcast is complete, at the moment for it. -/
theorem OnTime.clear_eq (h : OnTime setup s) (smooth : Smooth setup s)
    (placing : s.ingestion.activity = .placing request index)
    (worker : s.workers[index]? = some w) (last : s.workers.length ≤ index + 1)
    (due : setup.pace.placedAt index (s.ingestion.tagged.length - 1) ≤ s.now) :
    s.now = setup.pace.clearAt s.ingestion.tagged.length := by
  have hindex : index < s.workers.length := (List.getElem?_eq_some_iff.1 worker).1
  have hlast : index = setup.pace.agents - 1 := by
    have := smooth.agents
    omega
  obtain ⟨n, hn⟩ := Nat.exists_eq_add_of_lt (smooth.placing placing).2
  have hcount := smooth.tagged_length_le
  rw [hn, Nat.zero_add, Pace.clearAt, ← hlast]
  rw [hn, Nat.zero_add, Nat.add_sub_cancel] at due
  refine le_antisymm (h.future (.placed index n) ?_ ?_) due
  · exact ⟨smooth.crew.length ▸ hindex, by omega⟩
  · rintro ⟨-, hlt⟩
    rw [handed_of_placing placing, if_neg (lt_irrefl _)] at hlt
    omega

theorem OnTime.push (h : OnTime setup s) (smooth : Smooth setup s)
    (placing : s.ingestion.activity = .placing request index)
    (worker : s.workers[index]? = some w) (room : w.queue.length < s.setup.room) :
    OnTime setup (s.push request index w) := by
  have due := h.placed_due smooth placing worker room
  refine h.bring rfl (fun o past => (past_push placing worker o).2 (.inl past)) (fun o past => ?_)
    ?_ ?_
  · rcases (past_push placing worker o).1 past with past | rfl
    · exact .inl past
    · exact .inr due
  · intro i v hv k call hcall
    simp only [State.push, List.getElem?_set] at hv
    split_ifs at hv with hi
    · obtain rfl := Option.some.inj hv
      exact hi ▸ h.starts worker hcall
    · exact h.starts hv hcall
  · have hcourse := h.course
    rw [State.Course, placing] at hcourse
    have hlength : (s.push request index w).workers.length = s.workers.length := List.length_set
    exact ⟨hcourse.1, fun le => h.clear_eq smooth placing worker (hlength ▸ le) due⟩

end Push

section Worker

variable {index : ℕ} {w next : Worker}

/-- A call that is in flight ends as the timetable says. -/
theorem OnTime.finish_eq (h : OnTime setup s) (smooth : Smooth setup s)
    (worker : s.workers[index]? = some w) {request : Request} {finish : ℕ} {outcome : Outcome}
    (calling : w.activity = .calling request finish outcome) :
    w.settled.length + 1 = w.calls.length ∧
      finish = setup.pace.endedAt index w.calls.length := by
  have hw := List.mem_of_getElem? worker
  obtain ⟨before, start, hcalls, -, hfinish⟩ := (smooth.crew.account w hw).current calling
  have hlength : w.calls.length = before.length + 1 := by simp [hcalls]
  have hcall : w.calls[before.length]? = some ⟨request, start⟩ := by simp [hcalls]
  have hstart : start = setup.pace.startedAt index before.length := h.starts worker hcall
  have hrequest : (requests setup.ids setup.feed)[before.length]? = some request := by
    obtain ⟨more, hrequests⟩ := smooth.called worker
    rw [← hrequests]
    simp [hcalls]
  have heffort : setup.effort index before.length =
      (w.agent.respond before.length request).effort setup.limit := by
    rw [Setup.effort, smooth.crew.agent worker, hrequest]
  refine ⟨by simp [Worker.settled, calling, hlength], ?_⟩
  rw [hfinish, duration_eq_effort, smooth.crew.limit w hw, hlength, Pace.endedAt, hstart]
  change _ = _ + setup.effort index before.length
  rw [heffort]

/-- A worker keeps the timetable when no call of it begins or ends before its time. -/
theorem OnTime.setWorker (h : OnTime setup s) (worker : s.workers[index]? = some w)
    (calls_le : w.calls.length ≤ next.calls.length)
    (settled_le : w.settled.length ≤ next.settled.length)
    (begun : ∀ k, w.calls.length ≤ k → k < next.calls.length →
      setup.pace.startedAt index k ≤ s.now)
    (ended : ∀ k, w.settled.length ≤ k → k < next.settled.length →
      setup.pace.endedAt index (k + 1) ≤ s.now)
    (starts : ∀ {k call}, next.calls[k]? = some call →
      call.start = setup.pace.startedAt index k) : OnTime setup (s.setWorker index next) := by
  have hlength : (s.setWorker index next).workers.length = s.workers.length := List.length_set
  refine h.bring rfl ?_ ?_ ?_ ?_
  · rintro (k | ⟨i, k⟩ | ⟨i, k⟩ | ⟨i, k⟩) hpast
    · exact hpast
    · exact ⟨hlength ▸ hpast.1, hpast.2⟩
    · exact (beyond_set worker calls_le i k).2 (.inl hpast)
    · exact (beyond_set worker settled_le i k).2 (.inl hpast)
  · rintro (k | ⟨i, k⟩ | ⟨i, k⟩ | ⟨i, k⟩) hpast
    · exact .inl hpast
    · exact .inl ⟨hlength ▸ hpast.1, hpast.2⟩
    · rcases (beyond_set worker calls_le i k).1 hpast with old | ⟨rfl, le, lt⟩
      · exact .inl old
      · exact .inr (begun k le lt)
    · rcases (beyond_set worker settled_le i k).1 hpast with old | ⟨rfl, le, lt⟩
      · exact .inl old
      · exact .inr (ended k le lt)
  · intro i v hv k call hcall
    simp only [State.setWorker, List.getElem?_set] at hv
    split_ifs at hv with hi
    · obtain rfl := Option.some.inj hv
      exact hi ▸ starts hcall
    · exact h.starts hv hcall
  · have hcourse := h.course
    rw [State.Course] at hcourse ⊢
    rw [hlength]
    exact hcourse

/-- A worker that has called its agent as often as before, and whose calls have all ended as before,
keeps the timetable. -/
theorem OnTime.idle (h : OnTime setup s) (worker : s.workers[index]? = some w)
    (calls : next.calls = w.calls) (settled : next.settled = w.settled) :
    OnTime setup (s.setWorker index next) := by
  refine h.setWorker worker (by rw [calls]) (by rw [settled]) ?_ ?_ ?_
  · rw [calls]; intro k le lt; omega
  · rw [settled]; intro k le lt; omega
  · rw [calls]; exact h.starts worker

theorem OnTime.call (h : OnTime setup s) (smooth : Smooth setup s)
    (worker : s.workers[index]? = some w) (waiting : w.activity = .waiting) {request : Request}
    {rest : List Request} (front : w.queue = request :: rest) :
    OnTime setup (s.setWorker index (w.call s.now request rest)) := by
  have hindex : index < s.workers.length := (List.getElem?_eq_some_iff.1 worker).1
  have hlength := smooth.length worker
  have hhanded := (smooth.handed_le index).trans smooth.tagged_length_le
  have hsettled : w.settled = w.calls := by simp [Worker.settled, waiting]
  rw [front, List.length_cons] at hlength
  have due : setup.pace.startedAt index w.calls.length ≤ s.now := by
    rw [Pace.startedAt_eq]
    refine max_le (h.past (.placed index _) ⟨hindex, by omega⟩) ?_
    cases hcount : w.calls.length with
    | zero => exact Nat.zero_le _
    | succ k =>
      have ended : k < w.settled.length := by rw [hsettled]; omega
      exact h.past (.ended index k) ⟨w, worker, ended⟩
  have hstart : s.now = setup.pace.startedAt index w.calls.length := by
    refine le_antisymm (h.future (.started index _) ?_ ?_) due
    · exact ⟨smooth.crew.length ▸ hindex, by omega⟩
    · exact fun begun : Beyond (·.calls.length) s.workers index _ =>
        lt_irrefl _ ((beyond_of worker).1 begun)
  have hcalls : (w.call s.now request rest).calls = w.calls ++ [⟨request, s.now⟩] := rfl
  have hsame : (w.call s.now request rest).settled = w.settled := by
    simp [Worker.call, Worker.settled, waiting]
  refine h.setWorker worker (by simp [hcalls]) (by rw [hsame]) ?_ ?_ ?_
  · intro k le lt
    rw [hcalls, List.length_append, List.length_singleton] at lt
    obtain rfl : k = w.calls.length := by omega
    exact due
  · rw [hsame]; intro k le lt; omega
  · intro k call hcall
    rw [hcalls] at hcall
    rcases Nat.lt_or_ge k w.calls.length with hlt | hge
    · rw [List.getElem?_append_left hlt] at hcall
      exact h.starts worker hcall
    · rw [List.getElem?_append_right hge, List.getElem?_singleton] at hcall
      split_ifs at hcall with hzero
      obtain rfl : k = w.calls.length := by omega
      rw [← Option.some.inj hcall]
      exact hstart

theorem OnTime.conclude (h : OnTime setup s) (smooth : Smooth setup s)
    (worker : s.workers[index]? = some w) {request : Request} {finish : ℕ} {outcome : Outcome}
    (calling : w.activity = .calling request finish outcome) (due : finish ≤ s.now) :
    OnTime setup (s.setWorker index (w.conclude request outcome)) := by
  obtain ⟨hlength, hfinish⟩ := h.finish_eq smooth worker calling
  have hcalls : (w.conclude request outcome).calls = w.calls := Worker.conclude_calls _ _ _
  have hsettled : (w.conclude request outcome).settled = w.calls := by
    rw [Worker.conclude_of_mark (smooth.steady worker calling)]
    rfl
  refine h.setWorker worker (by rw [hcalls]) (by rw [hsettled]; omega) ?_ ?_ ?_
  · rw [hcalls]; intro k le lt; omega
  · rw [hsettled]
    intro k le lt
    obtain hk : k + 1 = w.calls.length := by omega
    rw [hk, ← hfinish]
    exact due
  · rw [hcalls]; exact h.starts worker

end Worker

/-! ## The passing of time -/

section Pass

variable {moment : ℕ}

/-- All requests have been tagged when the feed has come to its end. -/
theorem Smooth.tagged_length (smooth : Smooth setup s) (closed : s.closed = true) :
    s.ingestion.tagged.length = (Feed.messages setup.feed).length := by
  obtain ⟨taken, intake⟩ := smooth.intake
  have hfeed := intake.feed
  rw [smooth.exhausted closed, List.append_nil] at hfeed
  rw [intake.tagged, length_requests, hfeed]

/-- What has not been is not due before the moment. -/
def Later (setup : Setup) (s : State) (moment : ℕ) (o : Occasion) : Prop :=
  ¬ s.Past o → moment ≤ setup.pace.time o

variable (h : OnTime setup s) (smooth : Smooth setup s) (quiet : s.signal = false)
  (flows : ∀ step ∈ s.ingestion.feed, step.flows = true) (stuck : Stuck s moment) {i k : ℕ}

include smooth stuck

include h quiet flows in
/-- A message is not due before ingestion can get it. -/
theorem later_ready (agents : setup.agents ≠ [])
    (before : ∀ j < k, Later setup s moment (.placed (setup.agents.length - 1) j))
    (within : k ≤ (Feed.messages setup.feed).length) : Later setup s moment (.ready k) := by
  intro fresh
  have hpos : 0 < setup.agents.length := List.length_pos_iff.2 agents
  -- unless ingestion waits for this very message, it has not put the one before on all queues
  have behind {n : ℕ} (hn : k = n + 1) (handed : s.handed (setup.agents.length - 1) ≤ n) :
      moment ≤ setup.pace.time (.ready k) := by
    have hplaced := before n (by omega) fun past => absurd past.2 (not_lt.2 handed)
    rw [hn]
    exact hplaced.trans (Nat.le_add_right _ _)
  have hge : s.ingestion.tagged.length ≤ k := not_lt.1 fun hlt => fresh (.inl hlt)
  rcases Nat.eq_or_lt_of_le hge with rfl | hlt
  · cases held_of_stuck quiet (Feed.quiet_notMem flows) stuck.ingestion with
    | pause paused =>
      have hcourse := h.course
      rw [State.Course, paused] at hcourse
      exact (stuck.pause paused).trans ((Nat.le_add_right _ _).trans_eq hcourse.2)
    | full placing worker _ full =>
      have hindex := (List.getElem?_eq_some_iff.1 worker).1
      have htagged := (smooth.placing placing).2
      rw [smooth.crew.length] at hindex
      refine behind (n := s.ingestion.tagged.length - 1) (by omega) ?_
      rw [handed_of_placing placing, if_neg (by omega)]
      omega
    | ended closed => exact absurd (.inr ⟨closed, rfl⟩) fresh
  · have handed := smooth.handed_le (setup.agents.length - 1)
    exact behind (n := k - 1) (by omega) (by omega)

include quiet flows in
/-- A placement is not due before there is room for it and it is its turn. -/
theorem later_placed (ready : Later setup s moment (.ready k))
    (front : ∀ j, i = j + 1 → Later setup s moment (.placed j k))
    (freed : ∀ j < k, Later setup s moment (.started i j))
    (within : i < setup.agents.length ∧ k < (Feed.messages setup.feed).length) :
    Later setup s moment (.placed i k) := by
  intro fresh
  obtain ⟨hi, hk⟩ := within
  have hhanded : s.handed i ≤ k := by
    by_contra hlt
    exact fresh ⟨smooth.crew.length.symm ▸ hi, not_le.1 hlt⟩
  -- unless ingestion waits for room on this very queue, what comes before has not been
  have turn (unread : i = 0 → ¬ s.Past (.ready k))
      (unplaced : ∀ j, i = j + 1 → ¬ s.Past (.placed j k)) :
      moment ≤ setup.pace.time (.placed i k) := by
    cases i with
    | zero => exact (ready (unread rfl)).trans (setup.pace.readyAt_le_placedAt k)
    | succ j =>
      exact (front j rfl (unplaced j rfl)).trans (setup.pace.placedAt_mono k (Nat.le_succ j))
  have unread (hopen : s.closed = false) (le : s.ingestion.tagged.length ≤ k) :
      ¬ s.Past (.ready k) := by
    rintro (hlt | ⟨hclosed, -⟩)
    · omega
    · rw [hopen] at hclosed; cases hclosed
  cases held_of_stuck quiet (Feed.quiet_notMem flows) stuck.ingestion with
  | pause paused =>
    have hall (j : ℕ) : s.handed j = s.ingestion.tagged.length := by rw [State.handed, paused]
    rw [hall] at hhanded
    refine turn (fun _ => unread (closed_eq_false (by simp [paused])) hhanded) fun j _ past => ?_
    have hlt := past.2
    rw [hall] at hlt
    omega
  | @full request next w placing worker _ full =>
    have hpos := (smooth.placing placing).2
    have hat := handed_of_placing placing
    by_cases here : i = next ∧ s.ingestion.tagged.length = k + 1
    · obtain ⟨rfl, hk⟩ := here
      have hlength := smooth.length worker
      rw [hat, if_neg (lt_irrefl _), hk] at hlength
      rw [smooth.room] at full
      have hroom := setup.pace.room_pos
      have waits := freed (k - setup.pace.room) (by omega) fun past => by
        have hlt : k - setup.pace.room < w.calls.length := (beyond_of worker).1 past
        omega
      have hfreed := setup.pace.freedAt_le_placedAt i k
      rw [Pace.freedAt, if_pos (by omega)] at hfreed
      exact waits.trans hfreed
    · rw [hat] at hhanded
      refine turn (fun hzero => unread (closed_eq_false (by simp [placing])) ?_) fun j hj past => ?_
      · split_ifs at hhanded <;> omega
      · have hlt := past.2
        rw [hat] at hlt
        split_ifs at hhanded hlt <;> omega
  | ended closed =>
    have hlength := smooth.tagged_length closed
    rw [State.handed, closed_iff.1 closed] at hhanded
    simp only at hhanded
    omega

include h quiet in
/-- A call is not due before its request is on the queue and the worker is ready for it. -/
theorem later_started (placed : Later setup s moment (.placed i k)) (within : i < setup.agents.length) :
    Later setup s moment (.started i k) := by
  intro fresh
  obtain ⟨w, worker⟩ : ∃ w, s.workers[i]? = some w :=
    ⟨_, List.getElem?_eq_getElem (smooth.crew.length.symm ▸ within)⟩
  have hcalls : w.calls.length ≤ k := not_lt.1 fun hlt => fresh ⟨w, worker, hlt⟩
  have hlength := smooth.length worker
  by_cases onQueue : s.Past (.placed i k)
  · -- the request is on the queue, so the worker is with a call before
    have hqueue : w.queue ≠ [] := by
      rintro hnil
      have hlt := onQueue.2
      rw [hnil, List.length_nil] at hlength
      omega
    have hopen : w.released = false := by
      by_contra released
      exact hqueue (smooth.released worker (by simpa using released)).2.2
    have hstuck := stuck.worker worker
    rw [quiet] at hstuck
    obtain ⟨request, finish, outcome, calling⟩ := calling_of_step hstuck hqueue hopen
    obtain ⟨hsettled, hfinish⟩ := h.finish_eq smooth worker calling
    have waits := stuck.call worker calling
    rw [hfinish] at waits
    exact waits.trans ((setup.pace.endedAt_mono i hcalls).trans (setup.pace.endedAt_le_startedAt i k))
  · exact (placed onQueue).trans (setup.pace.placedAt_le_startedAt i k)

include h in
/-- A call does not end before it has begun and has taken its time. -/
theorem later_ended (started : Later setup s moment (.started i k))
    (within : i < setup.agents.length) : Later setup s moment (.ended i k) := by
  intro fresh
  obtain ⟨w, worker⟩ : ∃ w, s.workers[i]? = some w :=
    ⟨_, List.getElem?_eq_getElem (smooth.crew.length.symm ▸ within)⟩
  have hsettled : w.settled.length ≤ k := not_lt.1 fun hlt => fresh ⟨w, worker, hlt⟩
  by_cases begun : s.Past (.started i k)
  · have hcalls : k < w.calls.length := (beyond_of worker).1 begun
    have hw := List.mem_of_getElem? worker
    have account := smooth.crew.account w hw
    have hlength := account.length_calls
    rw [account.total_eq] at hlength
    cases hactivity : w.activity with
    | calling request finish outcome =>
      obtain ⟨hone, hfinish⟩ := h.finish_eq smooth worker hactivity
      have waits := stuck.call worker hactivity
      obtain hk : w.calls.length = k + 1 := by omega
      rw [hfinish, hk] at waits
      exact waits
    | crashed reason =>
      have released := (smooth.released worker (by simp [Worker.released, hactivity])).2.1
      rw [hactivity] at released
      cases released
    | idle | waiting | stopped =>
      rw [Worker.unsettled, hactivity] at hlength
      simp only at hlength
      omega
  · exact (started begun).trans (Nat.le_add_right _ _)

include h quiet flows in
/-- Nothing that has not been is due before the moment. -/
theorem later_all (agents : setup.agents ≠ []) (o : Occasion)
    (within : o.Within setup.agents.length (Feed.messages setup.feed).length) :
    Later setup s moment o := by
  have hpos : 0 < setup.agents.length := List.length_pos_iff.2 agents
  -- by the number of the message, and for each by the order of the queues
  have calls (k : ℕ) : k < (Feed.messages setup.feed).length → ∀ i < setup.agents.length,
      Later setup s moment (.placed i k) ∧ Later setup s moment (.started i k) := by
    induction k using Nat.strong_induction_on with
    | h k ih =>
      intro hk i
      have ready : Later setup s moment (.ready k) :=
        later_ready h smooth quiet flows stuck agents
          (fun j hj => (ih j hj (by omega) _ (by omega)).1) hk.le
      induction i using Nat.strong_induction_on with
      | h i front =>
        intro hi
        have placed := later_placed smooth quiet flows stuck ready
          (fun j hj => (front j (by omega) (by omega)).1)
          (fun j hj => (ih j hj (by omega) i hi).2) ⟨hi, hk⟩
        exact ⟨placed, later_started h smooth quiet stuck placed hi⟩
  cases o with
  | ready k =>
    have le : k ≤ (Feed.messages setup.feed).length := within
    exact later_ready h smooth quiet flows stuck agents
      (fun j hj => (calls j (by omega) _ (by omega)).1) le
  | placed i k => exact (calls k within.2 i within.1).1
  | started i k => exact (calls k within.2 i within.1).2
  | ended i k =>
    exact later_ended h smooth stuck (calls k within.2 i within.1).2 within.1

end Pass

/-- The next moment is one up to which the feed pauses or a call takes. -/
theorem OnTime.next_le (h : OnTime setup s) (smooth : Smooth setup s) {moment : ℕ}
    (next : s.nextMoment? none = some moment) :
    moment ≤ setup.pace.finishedAt (Feed.messages setup.feed).length := by
  have hmem := List.min?_mem next
  simp only [List.mem_filterMap, Option.filter_eq_some_iff] at hmem
  obtain ⟨_, awaited, rfl, -⟩ := hmem
  rcases List.mem_cons.1 awaited with hnone | awaited
  · cases hnone
  rcases List.mem_cons.1 awaited with hpause | awaited
  · cases hactivity : s.ingestion.activity with
    | pausing finish =>
      have hcourse := h.course
      rw [State.Course, hactivity] at hcourse
      obtain rfl : moment = finish := by simpa [State.feedDeadline?, hactivity] using hpause
      exact ((Nat.le_add_right _ _).trans_eq hcourse.2).trans
        (setup.pace.readyAt_le_finishedAt smooth.tagged_length_le)
    | pulling | placing | ended => simp [State.feedDeadline?, hactivity] at hpause
  · obtain ⟨w, hw, hdeadline⟩ := List.mem_map.1 awaited
    obtain ⟨index, worker⟩ := List.mem_iff_getElem?.1 hw
    have hindex : index < s.workers.length := (List.getElem?_eq_some_iff.1 worker).1
    cases hactivity : w.activity with
    | calling request finish outcome =>
      obtain rfl : finish = moment := by simpa [Worker.deadline?, hactivity] using hdeadline
      rw [(h.finish_eq smooth worker hactivity).2]
      refine setup.pace.endedAt_le_finishedAt (smooth.agents ▸ hindex) ?_
      have hlength := smooth.length worker
      have hhanded := (smooth.handed_le index).trans smooth.tagged_length_le
      omega
    | idle | waiting | stopped | crashed => simp [Worker.deadline?, hactivity] at hdeadline

/-- Time that passes up to the next moment, when no task can step, makes nothing late. -/
theorem OnTime.pass (h : OnTime setup s) (smooth : Smooth setup s) (agents : setup.agents ≠ [])
    (quiet : s.signal = false) (flows : ∀ step ∈ s.ingestion.feed, step.flows = true) {moment : ℕ}
    (still : ∀ task, s.step task = none) (next : s.nextMoment? none = some moment) :
    OnTime setup { s with now := moment } := by
  have stuck := stuck_of_next quiet still next
  have later : s.now < moment := now_lt_of_nextMoment next
  refine ⟨fun o past => (h.past o past).trans later.le, ?_, h.starts, ?_, h.next_le smooth next⟩
  · intro o within fresh
    exact later_all h smooth quiet flows stuck agents o within fresh
  · have hcourse := h.course
    rw [State.Course] at hcourse ⊢
    cases held_of_stuck quiet (Feed.quiet_notMem flows) stuck.ingestion with
    | pause paused =>
      rw [paused] at hcourse
      simp only [paused]
      exact ⟨stuck.pause paused, hcourse.2⟩
    | full placing worker =>
      have hindex := (List.getElem?_eq_some_iff.1 worker).1
      rw [placing] at hcourse
      simp only [placing]
      exact ⟨hcourse.1, fun done => absurd done (not_le.2 hindex)⟩
    | ended closed => simp only [closed_iff.1 closed]

/-- What ingestion does it does on time. -/
theorem OnTime.ingestionStep (h : OnTime setup s) (smooth : Smooth setup s)
    (agents : setup.agents ≠ []) (quiet : s.signal = false)
    (flows : ∀ step ∈ s.ingestion.feed, step.flows = true) (step : IngestionStep s t) :
    OnTime setup t := by
  cases step with
  | cancel running raised => rw [quiet] at raised; cases raised
  | exhaust ready _ front => exact h.exhaust ready front _ _
  | skip ready _ front bad => exact h.skip ready front bad
  | tag ready _ front good => exact h.tag smooth agents ready front good
  | pause ready _ front => exact h.pause ready front
  | @fail error rest ready _ front =>
    cases flows (.fail error) (by rw [front]; exact List.mem_cons_self)
  | resume paused _ due => exact h.resume paused due
  | finish placing done => exact h.finish smooth placing done
  | dead placing _ worker released =>
    have hopen := closed_eq_false (s := s) (by simp [placing])
    rw [(smooth.released worker released).1] at hopen
    cases hopen
  | push placing _ worker _ room => exact h.push smooth placing worker room

/-- What a worker does it does on time. -/
theorem OnTime.workerStep (h : OnTime setup s) (smooth : Smooth setup s) (quiet : s.signal = false)
    {index : ℕ} {w next : Worker} (worker : s.workers[index]? = some w)
    (step : w.Step s.now s.signal s.closed next) : OnTime setup (s.setWorker index next) := by
  cases step with
  | begin fresh => exact h.idle worker rfl (by simp [Worker.begin, Worker.settled, fresh])
  | cancel waiting raised => rw [quiet] at raised; cases raised
  | call waiting _ front => exact h.call smooth worker waiting front
  | drained waiting => exact h.idle worker rfl (by simp [Worker.stop, Worker.settled, waiting])
  | conclude calling due => exact h.conclude smooth worker calling due

/-- The supervisor does not touch what the timetable is about. -/
theorem OnTime.supervise (h : OnTime setup s) (now : t.now = s.now)
    (ingestion : t.ingestion = s.ingestion) (workers : t.workers = s.workers) : OnTime setup t := by
  have closed : t.closed = s.closed := by rw [State.closed, State.closed, ingestion]
  have handed (i : ℕ) : t.handed i = s.handed i := by rw [State.handed, State.handed, ingestion]
  refine h.goOn now workers (by rw [ingestion]) closed (fun i _ => handed i) ?_
  have hcourse := h.course
  rw [State.Course] at hcourse ⊢
  rw [ingestion, workers, now]
  exact hcourse

end Steps

/-! ## Calm runs -/

section Run

variable {setup : Setup} {moves : List Move} {t : State}

/-- In a calm run no task ends with an error, and the signal is not raised before its end. -/
theorem spotless_of_calm (run : Run (.start setup false) moves t) (calm : setup.Calm)
    (alone : .raise ∉ moves) :
    t.firstError? = none ∧ (t.supervisor.result = none → t.signal = false) := by
  let left : Return := ⟨.error .cancelled, t.workers.map (·.calls), t.ingestion.feed, t.signal⟩
  have flawless : ∀ step ∈ setup.feed, step.failure? = none :=
    fun step hstep => Feed.failure?_of_flows (calm.feed step hstep)
  have steady (reason : String) : ¬ BrokeDown setup left reason :=
    not_brokeDown calm.agents left reason
  have spotless : t.firstError? = none := by
    cases first : t.firstError? with
    | none => rfl
    | some e =>
      have cause : Cause setup false moves left e := cause_of_run run first rfl rfl
      exact (cause.absurd rfl alone flawless steady).elim
  refine ⟨spotless, fun busy => ?_⟩
  by_contra raised
  have early := raisedEarly_of_signal run (by simpa using raised) spotless busy
  have cause : Cause setup false moves left .cancelled := .signal early
  exact cause.absurd rfl alone flawless steady

theorem smooth_of_calm (run : Run (.start setup false) moves t) (calm : setup.Calm)
    (alone : .raise ∉ moves) : Smooth setup t :=
  smooth_of_run run calm.agents (spotless_of_calm run calm alone).1

theorem onTime_start (setup : Setup) : OnTime setup (.start setup false) where
  past o past := by
    cases o with
    | ready k =>
      rcases past with hlt | ⟨hclosed, -⟩
      · cases hlt
      · cases hclosed
    | placed i k => cases past.2
    | started i k | ended i k =>
      obtain ⟨w, worker, hlt⟩ := past
      obtain ⟨agent, -, rfl⟩ := worker_start worker
      cases hlt
  future o _ _ := Nat.zero_le _
  starts worker k call hcall := by
    obtain ⟨agent, -, rfl⟩ := worker_start worker
    cases hcall
  course := by
    change 0 + Feed.wait setup.feed 0 = setup.pace.readyAt 0
    rfl
  within := Nat.zero_le _

/-- Calm runs in virtual time keep the timetable. -/
theorem onTime_of_run (calm : setup.Calm) (agents : setup.agents ≠ [])
    (run : RunBy (Prompt none) (.start setup false) moves t) : OnTime setup t := by
  refine run.keeps (P := OnTime setup) ?_ (onTime_start setup)
  intro moves s m t run h allowed move
  have smooth := smooth_of_calm run.run calm run.calm
  have quiet := (spotless_of_calm run.run calm run.calm).2
  have register := register_of_run run.run
  have flows : ∀ step ∈ s.ingestion.feed, step.flows = true :=
    fun step hstep => calm.feed step (run.run.feed.subset hstep)
  cases happens_of_after move with
  | ingestion step =>
    have busy := register.result_eq_none (.inl (closed_eq_false step.running))
    exact h.ingestionStep smooth agents (quiet busy) flows step
  | worker worker step =>
    have busy := register.result_eq_none (.inr ⟨_, List.mem_of_getElem? worker, step.opened⟩)
    exact h.workerStep smooth (quiet busy) worker step
  | join => exact h.supervise (by simp) (by simp) (by simp)
  | conclude => exact h.supervise (by simp) (by simp) (by simp)
  | pass =>
    obtain ⟨still, busy, -, next⟩ := allowed
    exact h.pass smooth agents (quiet busy) flows (step_of_move? still) next
  | raise => cases allowed.1

/-- Every call of a run that has ended began when the timetable says, and so did the run end. -/
structure Timely (setup : Setup) (t : State) : Prop where
  workers : t.workers.length = setup.agents.length
  starts : ∀ {index : ℕ} {w : Worker}, t.workers[index]? = some w →
    w.calls.map (·.start) =
      (List.range (Feed.messages setup.feed).length).map (setup.pace.startedAt index)
  finished : t.now = setup.pace.finishedAt (Feed.messages setup.feed).length

/-- When a calm run in virtual time has ended, every call has begun on time. -/
theorem timely_of_run (calm : setup.Calm) (agents : setup.agents ≠ [])
    (run : RunBy (Prompt none) (.start setup false) moves t)
    (finished : t.supervisor.result.isSome = true) : Timely setup t := by
  obtain ⟨result, finished⟩ := Option.isSome_iff_exists.1 finished
  have spotless := (spotless_of_calm run.run calm run.calm).1
  have smooth := smooth_of_calm run.run calm run.calm
  have onTime := onTime_of_run calm agents run
  have complete := complete_of_run run.run finished spotless
  have register := register_of_run run.run
  obtain ⟨-, -, all, -⟩ := register.result finished
  have closed := (register.all_ended all).2.1
  refine ⟨smooth.crew.length, ?_, le_antisymm onTime.within (max_le ?_ (Finset.sup_le ?_))⟩
  · intro index w worker
    have hlength := complete.length_calls (List.mem_of_getElem? worker)
    apply List.ext_getElem
    · simp [hlength]
    · intro k h₁ h₂
      have hk : k < w.calls.length := by simpa using h₁
      simp only [List.getElem_map, List.getElem_range]
      exact onTime.starts worker (List.getElem?_eq_getElem hk)
  · exact onTime.past (.ready _) (.inr ⟨closed, (smooth.tagged_length closed).symm⟩)
  · intro index hindex
    obtain ⟨w, worker⟩ : ∃ w, t.workers[index]? = some w :=
      ⟨_, List.getElem?_eq_getElem (smooth.agents.symm ▸ Finset.mem_range.1 hindex)⟩
    have hw := List.mem_of_getElem? worker
    have hlength := complete.length_calls hw
    have hsettled : w.settled = w.calls := by simp [Worker.settled, (complete.called w hw).1]
    cases hcount : (Feed.messages setup.feed).length with
    | zero => exact Nat.zero_le _
    | succ k =>
      have ended : k < w.settled.length := by rw [hsettled]; omega
      exact onTime.past (.ended index k) ⟨w, worker, ended⟩

end Run

/-- The calls of a calm run in virtual time begin when the timetable says, whatever the order in which
the tasks step at one moment, and so does the run end; the run that is carried out is one of these,
and it ends. -/
theorem keeps_timetable {setup : Setup} {s : State} (launched : launch setup false = .ok s)
    (calm : setup.Calm) :
    (∀ moves t, RunBy (Prompt none) s moves t → t.supervisor.result.isSome = true →
      Timely setup t) ∧
    (∃ moves, RunBy (Prompt none) s moves (s.run none)) ∧
    (s.run none).supervisor.result.isSome = true ∧ Timely setup (s.run none) := by
  obtain ⟨rfl, agents, -⟩ := launch_eq_ok launched
  have settled : (State.start setup false).Settled none := by
    rintro moment hmoment
    cases hmoment
  obtain ⟨moves, run⟩ := prompt_runFrom (2 * (State.start setup false).work + 3) _ settled
  have finished : ((State.start setup false).run none).supervisor.result.isSome = true :=
    run_isSome settled (.inl (Feed.quiet_notMem calm.feed))
  exact ⟨fun moves t => timely_of_run calm agents, ⟨moves, run⟩, finished,
    timely_of_run calm agents run finished⟩

/-- Two agents with room for one request each: the first is slow, and so the second, which answers at
once, has to wait for its requests. -/
def throttledSetup : Setup where
  name := defaultName
  capacity := 1
  limit := 50
  agents :=
    [.scripted "a" [⟨20, .answer (.ok .none)⟩], .scripted "b" [⟨0, .answer (.ok .none)⟩]]
  feed :=
    [.item (.event plainEvent), .pause 5, .item (.event plainEvent), .item (.event plainEvent),
      .item (.event plainEvent), .pause 100]
  ids := toString

theorem calm_throttledSetup : throttledSetup.Calm where
  feed := by decide
  agents := by
    intro agent hagent
    simp only [throttledSetup, List.mem_cons, List.not_mem_nil, or_false] at hagent
    rcases hagent with rfl | rfl <;> exact scripted_steady (by simp [outcome_ne_crash]) _

theorem keeps_timetable_throttledSetup :
    launch throttledSetup false = .ok (.start throttledSetup false) ∧ throttledSetup.Calm ∧
    Timely throttledSetup ((State.start throttledSetup false).run none) ∧
    (List.range 4).map (throttledSetup.pace.startedAt 0) = [0, 20, 40, 60] ∧
    (List.range 4).map (throttledSetup.pace.startedAt 1) = [0, 5, 20, 40] ∧
    throttledSetup.pace.finishedAt 4 = 140 := by
  have launched : launch throttledSetup false = .ok (.start throttledSetup false) := rfl
  have timely := (keeps_timetable launched calm_throttledSetup).2.2.2
  have starts (index : ℕ) (w : Worker) := @timely.starts index w
  have finished := timely.finished
  have count : (Feed.messages throttledSetup.feed).length = 4 := rfl
  rw [count] at starts finished
  refine ⟨launched, calm_throttledSetup, timely, ?_, ?_, ?_⟩
  · exact (starts 0 _ rfl).symm.trans rfl
  · exact (starts 1 _ rfl).symm.trans rfl
  · exact finished.symm.trans rfl

end TxRelay.Relay
