import TxRelay.Proofs.Json.Record
import TxRelay.Proofs.Relay.Delivery
import TxRelay.Transport

/-!
# What a call is booked as

A call to an agent behind a connection comes to one of four ends, by what comes back: whether anything
comes in time, whether that is a success of the transport, whether its body decodes as an answer, and
what the answer holds. Each end is counted in one place and leaves one record.

Results:
* `error_eq_none_iff`: an answer holds an error object unless that is absent or null in its text.
* `ends_verdict`: what an exchange has to be for each of its verdicts.
* `booked`: what a call counts as and what is logged about it, by what comes back.
* `call_booked`: the same for every call that a worker makes in a run.
-/

namespace TxRelay

namespace Transport

open TxRelay.Text
open Json (Document Tree)

/-! ## What comes back -/

/-- An exchange comes back within a limit. -/
def Arrival.Brings (a : Arrival) (limit : ℕ) (x : Exchange) : Prop :=
  ∃ delay ≤ limit, a = .after delay x

/-- How long it is waited for. -/
def Arrival.wait (limit : ℕ) : Arrival → ℕ
  | .after delay _ => min delay limit
  | .never => limit

/-- An exchange brings the whole body of a success. -/
def Exchange.Carries (x : Exchange) (text : String) : Prop :=
  ∃ status bytes, x = .answered status (.whole bytes) ∧ 200 ≤ status ∧ status < 300 ∧
    text = String.ofList (Utf8.decodeLossy bytes)

/-- It brings an answer, read from a tree. -/
def Exchange.Answers (x : Exchange) (tree : Tree) (answer : Rpc.Answer) : Prop :=
  ∃ text, x.Carries text ∧ (Document.read text.toList).tree = tree ∧
    Rpc.Answer.codec.read text = .ok answer

/-- It brings an answer with an error object, whatever the result. -/
def Exchange.Refuses (x : Exchange) (e : Rpc.ErrorObject) : Prop :=
  ∃ tree answer, x.Answers tree answer ∧ answer.error = some e

/-- It brings an answer in which the error is absent or null and whose result, or null without a
result, is a verdict. -/
def Exchange.Judges (x : Exchange) (v : Verdict) : Prop :=
  ∃ tree answer, x.Answers tree answer ∧ tree.Lacks "error" 3 ∧
    Verdict.codec.ofValue (answer.result.getD .null) = .ok v

/-- What an exchange comes to, with what it has to be for that. -/
inductive Exchange.Ends (x : Exchange) : Except CallError Verdict → Prop
  | judged {v} (judges : x.Judges v) : Ends x (.ok v)
  | refused {e} (refuses : x.Refuses e) : Ends x (.error (.remote e.remote))
  | uncarried {reason} (lost : ∀ text, ¬ x.Carries text) : Ends x (.error (.transport reason))
  | undecoded {text e} (carries : x.Carries text) : Ends x (.error (.undecodable e))

section Verdict

variable {x : Exchange} {text : String} {v : Verdict}

theorem verdict_of_carries (h : x.Carries text) : x.verdict = verdictOf text := by
  obtain ⟨status, bytes, rfl, least, most, rfl⟩ := h
  have success : isSuccess status = true := by simp [isSuccess, least, most]
  simp [Exchange.verdict, success, Body.text]

theorem verdict_of_not_carries (h : ∀ text, ¬ x.Carries text) :
    ∃ reason, x.verdict = .error (.transport reason) := by
  cases x with
  | lost reason => exact ⟨reason, rfl⟩
  | answered status body =>
    cases success : isSuccess status with
    | false => exact verdict_status success
    | true =>
      cases body with
      | broken reason => exact ⟨reason, by simp [Exchange.verdict, success, Body.text]⟩
      | whole bytes =>
        simp only [isSuccess, Bool.and_eq_true, decide_eq_true_eq] at success
        exact absurd ⟨status, bytes, rfl, success.1, success.2, rfl⟩ (h _)

/-- An answer is without error object exactly if that is absent or null in what it is read from. -/
theorem error_eq_none_iff {answer : Rpc.Answer} (h : Rpc.Answer.codec.read text = .ok answer) :
    answer.error = none ↔ (Document.read text.toList).tree.Lacks "error" 3 := by
  obtain ⟨inner, ⟨version, id, result, error, _⟩, -, rfl, -, -, -, reads, -⟩ :=
    Json.reads_of_decode (by decide) (Json.decode_of_read h)
  exact reads.eq_none_iff

theorem verdict_of_judges (h : x.Judges v) : x.verdict = .ok v := by
  obtain ⟨_, answer, ⟨text, carries, rfl, read⟩, lacks, result⟩ := h
  have flawless := (error_eq_none_iff read).2 lacks
  simp only [verdict_of_carries carries, verdictOf, read, Rpc.outcome_result flawless, result]

theorem verdict_of_refuses {e : Rpc.ErrorObject} (h : x.Refuses e) :
    x.verdict = .error (.remote e.remote) := by
  obtain ⟨_, answer, ⟨text, carries, -, read⟩, error⟩ := h
  simp only [verdict_of_carries carries, verdictOf, read, Rpc.outcome_error error]

theorem ends_verdict (x : Exchange) : x.Ends x.verdict := by
  by_cases carried : ∃ text, x.Carries text
  · obtain ⟨text, carries⟩ := carried
    rw [verdict_of_carries carries, verdictOf]
    cases read : Rpc.Answer.codec.read text with
    | error e => exact .undecoded carries
    | ok answer =>
      dsimp only
      cases error : answer.error with
      | some e =>
        rw [Rpc.outcome_error error]
        exact .refused ⟨_, answer, ⟨text, carries, rfl, read⟩, error⟩
      | none =>
        rw [Rpc.outcome_result error]
        dsimp only
        cases result : Verdict.codec.ofValue (answer.result.getD .null) with
        | error e => exact .undecoded carries
        | ok v =>
          have lacks := (error_eq_none_iff read).1 error
          exact .judged ⟨_, answer, ⟨text, carries, rfl, read⟩, lacks, result⟩
  · have lost : ∀ text, ¬ x.Carries text := not_exists.1 carried
    obtain ⟨reason, verdict⟩ := verdict_of_not_carries lost
    rw [verdict]
    exact .uncarried lost

theorem judges_iff : x.Judges v ↔ x.verdict = .ok v := by
  refine ⟨verdict_of_judges, fun verdict => ?_⟩
  have ends := ends_verdict x
  rw [verdict] at ends
  cases ends with
  | judged judges => exact judges

end Verdict

/-! ## What it is booked as -/

open Worker (Mark mark? outcomeRecord)

/-- The mark and the record of a call with a request, by what comes back and how long that may
take. -/
structure Booked (limit : ℕ) (request : Request) (a : Arrival) (mark : Mark)
    (record : Worker.Record) : Prop where
  timeout : mark = .timeout ↔ ∀ x, ¬ a.Brings limit x
  success : mark = .success ↔ ∃ x v, a.Brings limit x ∧ x.Judges v ∧ v.status = .success
  rejection : mark = .rejection ↔ ∃ x, a.Brings limit x ∧
    ((∃ e, x.Refuses e) ∨ ∃ v, x.Judges v ∧ v.status = .error)
  /-- In every other case the call has failed. -/
  failure : mark = .failure ↔ ∃ x, a.Brings limit x ∧ (∀ e, ¬ x.Refuses e) ∧ ∀ v, ¬ x.Judges v
  late : mark = .timeout → record = .refused request (.timeout limit)
  answered : ∀ x, a.Brings limit x → ∀ v, x.Judges v → v.status = .success →
    record = .answered request v
  rejected : ∀ x, a.Brings limit x → ∀ v, x.Judges v → v.status = .error →
    record = .refused request (.rejected v.problemText)
  remote : ∀ x, a.Brings limit x → ∀ e, x.Refuses e →
    record = .refused request (.remote ⟨e.code, e.message⟩)
  lost : ∀ x, a.Brings limit x → (∀ text, ¬ x.Carries text) →
    ∃ reason, record = .refused request (.transport reason)
  undecodable : ∀ x, a.Brings limit x → (∃ text, x.Carries text) → (∀ e, ¬ x.Refuses e) →
    (∀ v, ¬ x.Judges v) → ∃ e, record = .refused request (.undecodable e)

section Booked

variable {limit : ℕ} {request : Request} {a : Arrival} {x : Exchange}

theorem brings_iff (brings : a.Brings limit x) (y : Exchange) : a.Brings limit y ↔ y = x := by
  obtain ⟨delay, le, rfl⟩ := brings
  constructor
  · rintro ⟨_, -, same⟩
    cases same
    rfl
  · rintro rfl
    exact ⟨delay, le, rfl⟩

theorem booked_late (late : ∀ x, ¬ a.Brings limit x) :
    Booked limit request a .timeout (.refused request (.timeout limit)) := by
  constructor <;> simp [late]

/-- A verdict is booked by its status. -/
theorem booked_judged {v : Verdict} (brings : a.Brings limit x) (judges : x.Judges v) :
    ∃ mark record, mark? (.ofAnswer (.ok v)) = some mark ∧
      outcomeRecord request (.ofAnswer (.ok v)) = [record] ∧ Booked limit request a mark record := by
  have hJudges (u : Verdict) : x.Judges u ↔ u = v := by
    rw [judges_iff, verdict_of_judges judges, Except.ok.injEq, eq_comm]
  have hRefuses (e : Rpc.ErrorObject) : ¬ x.Refuses e := fun refuses => by
    cases (verdict_of_refuses refuses).symm.trans (verdict_of_judges judges)
  obtain ⟨_, answer, ⟨text, carries, -⟩, -⟩ := judges
  have hCarries : ∃ text, x.Carries text := ⟨text, carries⟩
  cases status : v.status with
  | success =>
    refine ⟨.success, .answered request v, ?_, ?_, ?_⟩
    · simp [Outcome.ofAnswer, Verdict.succeeded, status, mark?]
    · simp [Outcome.ofAnswer, Verdict.succeeded, status, outcomeRecord]
    · constructor <;> simp [brings_iff brings, hJudges, hRefuses, hCarries, status]
  | error =>
    refine ⟨.rejection, .refused request (.rejected v.problemText), ?_, ?_, ?_⟩
    · simp [Outcome.ofAnswer, Verdict.succeeded, status, mark?]
    · simp [Outcome.ofAnswer, Verdict.succeeded, status, outcomeRecord]
    · constructor <;> simp [brings_iff brings, hJudges, hRefuses, hCarries, status]

/-- Whatever comes back in time, the call is booked by it. -/
theorem booked_brings (brings : a.Brings limit x) :
    ∃ mark record, mark? (.ofAnswer x.verdict) = some mark ∧
      outcomeRecord request (.ofAnswer x.verdict) = [record] ∧
      Booked limit request a mark record := by
  have ends := ends_verdict x
  generalize verdict : x.verdict = result at ends ⊢
  cases ends with
  | judged judges => exact booked_judged brings judges
  | @refused e refuses =>
    have hJudges (v : Verdict) : ¬ x.Judges v := by simp [judges_iff, verdict]
    have hRemote (e' : Rpc.ErrorObject) (refuses' : x.Refuses e') :
        e.remote = ⟨e'.code, e'.message⟩ := by
      have same := (verdict_of_refuses refuses).symm.trans (verdict_of_refuses refuses')
      exact show e.remote = e'.remote by simpa using same
    have hRefuses : ∃ e, x.Refuses e := ⟨e, refuses⟩
    obtain ⟨_, answer, ⟨text, carries, -⟩, -⟩ := refuses
    have hCarries : ∃ text, x.Carries text := ⟨text, carries⟩
    refine ⟨.rejection, .refused request (.remote e.remote), rfl, rfl, ?_⟩
    constructor <;> simp [brings_iff brings, hJudges, hRefuses, hCarries]
    exact hRemote
  | @uncarried reason lost =>
    have hJudges (v : Verdict) : ¬ x.Judges v := by simp [judges_iff, verdict]
    have hRefuses (e : Rpc.ErrorObject) : ¬ x.Refuses e :=
      fun ⟨_, _, ⟨text, carries, _⟩, _⟩ => lost text carries
    refine ⟨.failure, .refused request (.transport reason), rfl, rfl, ?_⟩
    constructor <;> simp [brings_iff brings, hJudges, hRefuses, lost]
  | @undecoded text e carries =>
    have hJudges (v : Verdict) : ¬ x.Judges v := by simp [judges_iff, verdict]
    have hRefuses (e : Rpc.ErrorObject) : ¬ x.Refuses e := fun refuses => by
      cases verdict.symm.trans (verdict_of_refuses refuses)
    have hCarries : ∃ text, x.Carries text := ⟨text, carries⟩
    refine ⟨.failure, .refused request (.undecodable e), rfl, rfl, ?_⟩
    constructor <;> simp [brings_iff brings, hJudges, hRefuses, hCarries]

/-- Whatever a call to such an agent comes to is what it is booked as. -/
theorem booked (e : Endpoint) (arrival : ℕ → Rpc.Call → Arrival) (limit index : ℕ)
    (request : Request) :
    let a := arrival index (numberedCall index request)
    let reply := (remoteAgent e arrival).respond index request
    reply.duration limit = a.wait limit ∧
      ∃ mark record, mark? (reply.outcome limit) = some mark ∧
        outcomeRecord request (reply.outcome limit) = [record] ∧
        Booked limit request a mark record := by
  rw [respond_remoteAgent]
  cases back : arrival index (numberedCall index request) with
  | never =>
    exact ⟨rfl, .timeout, _, rfl, rfl, booked_late fun x ⟨_, _, same⟩ => by cases same⟩
  | after delay x =>
    by_cases inTime : delay ≤ limit
    · have brings : (Arrival.after delay x).Brings limit x := ⟨delay, inTime, rfl⟩
      have outcome : (Reply.mk delay (.answer x.verdict)).outcome limit = .ofAnswer x.verdict := by
        simp [Reply.outcome, Reply.inTime, inTime]
      refine ⟨?_, ?_⟩
      · simp [Reply.duration, Reply.inTime, Arrival.wait, inTime]
      · rw [outcome]
        exact booked_brings brings
    · have late (y : Exchange) : ¬ (Arrival.after delay x).Brings limit y := by
        rintro ⟨_, le, same⟩
        cases same
        exact inTime le
      have outcome : (Reply.mk delay (.answer x.verdict)).outcome limit =
          .error (.timeout limit) :=
        Reply.outcome_late (by simpa [Reply.inTime] using inTime)
      refine ⟨?_, .timeout, .refused request (.timeout limit), ?_⟩
      · simp [Reply.duration, Reply.inTime, Arrival.wait, inTime]
        omega
      · rw [outcome]
        exact ⟨rfl, rfl, booked_late late⟩

end Booked

/-! ## In a run -/

/-- A worker has gone on after its call: it has counted one mark and logged one record. -/
structure Concluded (w next : Worker) (mark : Mark) (record : Worker.Record) : Prop where
  waiting : next.activity = .waiting
  calls : next.calls = w.calls
  log : next.log = w.log ++ [record]
  received : next.counts.received = w.counts.received
  counted : next.counts.get mark = w.counts.get mark + 1
  others : ∀ other, other ≠ mark → next.counts.get other = w.counts.get other

theorem concluded_of_mark {outcome : Outcome} {mark : Mark} {record : Worker.Record}
    {request : Request} (marked : mark? outcome = some mark)
    (recorded : outcomeRecord request outcome = [record]) (w : Worker) :
    Concluded w (w.conclude request outcome) mark record := by
  rw [Worker.conclude_of_mark (by simp [marked])]
  constructor
  case waiting => rfl
  case calls => rfl
  case log => rw [recorded]
  case received => exact Worker.add_received _ _
  case counted => rw [Worker.get_add, marked, if_pos rfl]
  case others =>
    intro other ne
    rw [Worker.get_add, marked, if_neg fun same => ne (Option.some.inj same).symm, Nat.add_zero]

/-- In any run, a worker that calls an agent behind a connection waits for what comes back as long as
that takes and up to the limit. The worker can go on then and not before, and whenever it does, the
call is booked by what came back in time. -/
theorem call_booked {setup : Relay.Setup} {signal : Bool} {moves : List Relay.Move}
    {t : Relay.State} {index : ℕ} {w : Worker} {e : Endpoint} {arrival : ℕ → Rpc.Call → Arrival}
    {request : Request} {finish : ℕ} {outcome : Outcome}
    (run : Relay.Run (.start setup signal) moves t) (worker : t.workers[index]? = some w)
    (remote : setup.agents[index]? = some (remoteAgent e arrival))
    (calling : w.activity = .calling request finish outcome) :
    ∃ before start, w.calls = before ++ [⟨request, start⟩] ∧
      let a := arrival before.length (numberedCall before.length request)
      ((t.after (.task (.worker index))).isSome ↔ start + a.wait setup.limit ≤ t.now) ∧
        ∃ mark record, Booked setup.limit request a mark record ∧
          ∀ u, t.after (.task (.worker index)) = some u →
            ∃ next, u.workers[index]? = some next ∧ Concluded w next mark record := by
  have crew := Relay.crew_of_run run
  have mem := List.mem_of_getElem? worker
  have agent : w.agent = remoteAgent e arrival :=
    Option.some.inj ((crew.agent worker).symm.trans remote)
  obtain ⟨before, start, calls, comes, ends⟩ := (crew.account w mem).current calling
  rw [Worker.outcomeOf, agent, crew.limit w mem] at comes
  rw [agent, crew.limit w mem] at ends
  obtain ⟨duration, mark, record, marked, recorded, booked⟩ :=
    booked e arrival setup.limit before.length request
  rw [duration] at ends
  have after : t.after (.task (.worker index)) =
      if finish ≤ t.now then some (t.setWorker index (w.conclude request outcome)) else none := by
    simp only [Relay.State.after, Relay.State.step, Relay.State.stepWorker, worker, Worker.step,
      calling, Option.bind_eq_bind, Option.bind_some]
    split_ifs <;> rfl
  refine ⟨before, start, calls, ?_, mark, record, booked, fun u move => ?_⟩
  · rw [after, ← ends]
    split_ifs with due <;> simp [due]
  · rw [after] at move
    split_ifs at move with due
    cases move
    refine ⟨w.conclude request outcome, ?_, ?_⟩
    · exact List.getElem?_set_self (List.getElem?_eq_some_iff.1 worker).1
    · rw [comes]
      exact concluded_of_mark marked recorded w

/-- What an agent says that refuses every request. -/
def refusal : Exchange :=
  let result := "\x7b\"status\":\"ERROR\",\"errors\":[\x7b\"message\":\"no\"\x7d]\x7d"
  let text := "\x7b\"jsonrpc\":\"2.0\",\"id\":null,\"error\":null,\"result\":" ++ result ++ "\x7d"
  .answered 200 (.whole (Utf8.encode text.toList))

theorem refusal_judges : refusal.Judges ⟨.error, [⟨"no"⟩], [], [], none⟩ :=
  judges_iff.2 (by decide +kernel)

/-- A relay whose only agent takes a while to refuse. -/
def refusingSetup : Relay.Setup where
  name := Relay.defaultName
  capacity := 1
  limit := 50
  agents := [remoteAgent ⟨.http, "a", 80, ""⟩ fun _ _ => .after 3 refusal]
  feed := [.item (.event Relay.plainEvent)]
  ids := toString

theorem call_booked_refusingSetup :
    let t := (Relay.State.start refusingSetup false).runFrom none 8
    ∃ moves w request finish outcome u next,
      Relay.Run (.start refusingSetup false) moves t ∧ t.workers[0]? = some w ∧
        refusingSetup.agents[0]? =
          some (remoteAgent ⟨.http, "a", 80, ""⟩ fun _ _ => .after 3 refusal) ∧
        w.activity = .calling request finish outcome ∧
        t.after (.task (.worker 0)) = some u ∧ u.workers[0]? = some next ∧
        Concluded w next .rejection (.refused request (.rejected "no")) := by
  intro t
  obtain ⟨moves, run, -⟩ := Relay.run_runFrom none 8 (.start refusingSetup false)
  have worker : t.workers[0]? = some _ := rfl
  have remote : refusingSetup.agents[0]? =
      some (remoteAgent ⟨.http, "a", 80, ""⟩ fun _ _ => .after 3 refusal) := rfl
  obtain ⟨before, start, -, -, mark, record, booked, ends⟩ := call_booked run worker remote rfl
  have brings : (Arrival.after 3 refusal).Brings 50 refusal := ⟨3, by decide, rfl⟩
  have hmark : mark = .rejection := booked.rejection.2 ⟨_, brings, .inr ⟨_, refusal_judges, rfl⟩⟩
  have hrecord := booked.rejected _ brings _ refusal_judges rfl
  obtain ⟨next, after, concluded⟩ := ends _ rfl
  subst hmark hrecord
  exact ⟨moves, _, _, _, _, _, next, run, worker, remote, rfl, rfl, after, concluded⟩

end Transport

end TxRelay
