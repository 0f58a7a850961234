import TxRelay.Proofs.Json.Unread
import TxRelay.Proofs.Transport.Booking
import TxRelay.Proofs.Wire.Calls

/-!
# Calls over connections

Calls are made over several connections, one after the other. What comes back from a request may
depend on all that was posted before, over any connection, and may be anything or nothing. Still every
call posts one request, which carries the next number of its connection, and has the result that the
exchange brings, whatever number the answer has.

Results:
* `run_posts`: what a run posts, and its results.
* `posts_along`: what is posted over one connection, whatever is called over the others.
* `verdict_renumbered`: two answers that differ in their numbers bring the same result.
* `calls_numbered`: a run over new connections.
-/

namespace TxRelay

open TxRelay.Except (Rel rel_iff)

/-! ## The number of an answer -/

namespace Rpc

open Json (Tree)

/-- A tree that is read as an identifier. -/
inductive IsId : Tree → Prop
  | number (n : ℕ) : IsId (.number (some (.natural n)))
  | null : IsId .null

/-- Trees of answers that differ in their identifiers only. -/
inductive Answer.Renumbered : Tree → Tree → Prop
  | object {members members'} (differ : members.Differ
      (fun name t t' => t = t' ∨ name = "id" ∧ IsId t ∧ IsId t') members') :
    Renumbered (.object members) (.object members')
  | array {version id id' others} (is : IsId id) (is' : IsId id') :
    Renumbered (.array (.more version (.more id others))) (.array (.more version (.more id' others)))

/-- Answers that differ in their identifiers only. -/
structure Answer.Alike (a a' : Answer) : Prop where
  version : a.version = a'.version
  result : a.result = a'.result
  error : a.error = a'.error

variable {t t' : Tree} (origin : Json.Origin) (depth : ℕ)

theorem IsId.decode (is : IsId t) : ∃ id, Id.codec.decode origin depth t = .ok id := by
  cases is with
  | number n => exact ⟨_, rfl⟩
  | null => exact ⟨_, rfl⟩

theorem decode_renumbered (h : Answer.Renumbered t t') :
    Rel Answer.Alike (Answer.codec.decode origin depth t) (Answer.codec.decode origin depth t') := by
  have ids {t t' : Tree} (is : IsId t) (is' : IsId t') (depth : ℕ) :
      Rel (fun a a' => "id" ≠ "id" → a = a') (Id.codec.decode origin depth t)
        (Id.codec.decode origin depth t') := by
    obtain ⟨id, read⟩ := is.decode origin depth
    obtain ⟨id', read'⟩ := is'.decode origin depth
    rw [read, read']
    exact .ok fun other => absurd rfl other
  refine Rel.mono (Json.decode_record_alike "id" ?_) ?_
  · cases h with
    | object differ =>
      refine .object fun depth => differ.mono ?_
      rintro name t t' (rfl | ⟨rfl, is, is'⟩)
      · exact Json.Fields.takesAlike_refl _ name t
      · exact ids is is' depth
    | array is is' =>
      exact .array fun depth => .inr ⟨_, _, _, _, rfl, rfl, .refl (fun _ _ => rfl) _,
        .inr ⟨_, _, _, _, rfl, rfl, ids is is' depth, .inl rfl⟩⟩
  · rintro _ _ ⟨⟨version, id, result, error, _⟩, ⟨version', id', result', error', _⟩, rfl, rfl, alike⟩
    obtain ⟨versions, -, results, errors, -⟩ := alike
    exact ⟨versions (by decide), results (by decide), errors (by decide)⟩

end Rpc

namespace Transport

open Json (Document)

/-- Texts of answers that differ in their identifiers only. -/
structure Renumbered (text text' : String) : Prop where
  trees : Rpc.Answer.Renumbered (Document.read text.toList).tree (Document.read text'.toList).tree
  complete : (Document.read text.toList).complete = (Document.read text'.toList).complete

/-- Two answers that differ in their numbers bring the same result. -/
theorem verdict_renumbered {x x' : Exchange} {text text' : String} (carries : x.Carries text)
    (carries' : x'.Carries text') (h : Renumbered text text') : x.verdict = x'.verdict := by
  have read : Rel Rpc.Answer.Alike (Rpc.Answer.codec.read text) (Rpc.Answer.codec.read text') := by
    obtain ⟨a, a', decoded, decoded', alike⟩ | ⟨e, failed, failed'⟩ :=
      rel_iff.1 (Rpc.decode_renumbered .text Json.maxDepth h.trees)
    · simp only [Json.Codec.read, decoded, decoded', h.complete]
      split_ifs
      · exact .ok alike
      · exact .error _
    · simp only [Json.Codec.read, failed, failed']
      exact .error e
  rw [verdict_of_carries carries, verdict_of_carries carries', verdictOf, verdictOf]
  obtain ⟨a, a', decoded, decoded', alike⟩ | ⟨e, failed, failed'⟩ := rel_iff.1 read
  · simp only [decoded, decoded', Rpc.Answer.outcome, alike.result, alike.error]
  · simp only [failed, failed']

/-! ## Traffic -/

/-- A POST request. -/
structure Post where
  url : String
  body : String
  deriving DecidableEq, Repr

/-- What was posted, and what came back from it. -/
abbrev History := List (Post × Exchange)

/-- What comes back from a request, after what was posted before. -/
abbrev Server := History → Post → Exchange

/-- Posts a call. -/
def post (server : Server) (e : Endpoint) (call : Rpc.Call) : StateM History Exchange := do
  let history ← get
  let request : Post := ⟨e.url, Rpc.Call.codec.write call⟩
  let exchange := server history request
  set (history ++ [(request, exchange)])
  return exchange

/-- Connections, and what was posted over them. -/
structure Traffic (ι : Type) where
  connections : ι → Connection
  history : History

variable {ι : Type} [DecidableEq ι]

/-- New connections to endpoints. -/
def Traffic.open (endpoint : ι → Endpoint) : Traffic ι :=
  ⟨fun i => .open (endpoint i), []⟩

/-- Makes a call over a connection. -/
def Traffic.call (server : Server) (t : Traffic ι) (i : ι) (r : Request) :
    Except CallError Verdict × Traffic ι :=
  let ((result, connection), history) :=
    ((submit (post server) r).run (t.connections i)).run t.history
  (result, ⟨Function.update t.connections i connection, history⟩)

/-- Makes calls one after the other. -/
def Traffic.run (server : Server) (t : Traffic ι) :
    List (ι × Request) → List (Except CallError Verdict) × Traffic ι
  | [] => ([], t)
  | (i, r) :: calls =>
    let (result, next) := t.call server i r
    let (results, last) := next.run server calls
    (result :: results, last)

/-- So many calls have been made over each connection. -/
def Traffic.Made (t : Traffic ι) (endpoint : ι → Endpoint) (made : ι → ℕ) : Prop :=
  ∀ i, t.connections i = ⟨endpoint i, UInt64.ofNat (made i + 1)⟩

/-- The request that posts a call after so many others over a connection. -/
def numberedPost (e : Endpoint) (before : ℕ) (r : Request) : Post :=
  ⟨e.url, Rpc.Call.codec.write (numberedCall before r)⟩

/-- What calls post, each under the next number of its connection. -/
def posts (endpoint : ι → Endpoint) (made : ι → ℕ) (calls : List (ι × Request)) : List Post :=
  calls.mapIdx fun k c =>
    numberedPost (endpoint c.1) (made c.1 + (calls.take k).countP (·.1 = c.1)) c.2

/-- What belongs to the calls over one connection. -/
def along {α : Type} (i : ι) (calls : List (ι × Request)) (all : List α) : List α :=
  ((calls.zip all).filter (·.1.1 = i)).map (·.2)

/-- The requests of the calls over one connection. -/
def requests (i : ι) (calls : List (ι × Request)) : List Request :=
  (calls.filter (·.1 = i)).map (·.2)

section Runs

variable {endpoint : ι → Endpoint} {made : ι → ℕ} {server : Server} {t : Traffic ι} {i j : ι}
  {r : Request} {calls : List (ι × Request)}

/-- A call posts one request, and its result is that of what comes back. -/
theorem call_eq (server : Server) (t : Traffic ι) (i : ι) (r : Request) :
    t.call server i r =
      let c := t.connections i
      let request : Post := ⟨c.endpoint.url, Rpc.Call.codec.write (c.nextCall r)⟩
      let exchange := server t.history request
      (exchange.verdict, ⟨Function.update t.connections i { c with next := c.next + 1 },
        t.history ++ [(request, exchange)]⟩) := rfl

theorem made_call (h : t.Made endpoint made) :
    (t.call server i r).2.Made endpoint (Function.update made i (made i + 1)) := by
  intro j
  rw [call_eq]
  by_cases same : j = i
  · subst same
    simp only [Function.update_self, h j, UInt64.ofNat_add]
    rfl
  · simp only [Function.update_of_ne same, h j]

theorem call_made (server : Server) (i : ι) (r : Request) (h : t.Made endpoint made) : ∃ x,
    (t.call server i r).1 = x.verdict ∧
    (t.call server i r).2.history = t.history ++ [(numberedPost (endpoint i) (made i) r, x)] := by
  have request : (⟨(t.connections i).endpoint.url,
      Rpc.Call.codec.write ((t.connections i).nextCall r)⟩ : Post) =
      numberedPost (endpoint i) (made i) r := by
    rw [h i, numberedPost, numberedCall, Connection.nextCall]
  rw [call_eq, ← request]
  exact ⟨_, rfl, rfl⟩

theorem posts_cons : posts endpoint made ((i, r) :: calls) =
    numberedPost (endpoint i) (made i) r ::
      posts endpoint (Function.update made i (made i + 1)) calls := by
  have later (k : ℕ) (j : ι) : made j + (((i, r) :: calls).take (k + 1)).countP (·.1 = j) =
      Function.update made i (made i + 1) j + (calls.take k).countP (·.1 = j) := by
    rw [List.take_succ_cons, List.countP_cons]
    by_cases same : j = i
    · subst same
      simp only [decide_true, if_true, Function.update_self]
      omega
    · simp [same, Ne.symm same]
  simp only [posts, List.mapIdx_cons, later, List.take_zero, List.countP_nil, Nat.add_zero]

theorem along_cons {α : Type} (a : α) (all : List α) : along j ((i, r) :: calls) (a :: all) =
    if i = j then a :: along j calls all else along j calls all := by
  simp only [along, List.zip_cons_cons, List.filter_cons, decide_eq_true_eq]
  split_ifs <;> rfl

theorem requests_cons : requests j ((i, r) :: calls) =
    if i = j then r :: requests j calls else requests j calls := by
  simp only [requests, List.filter_cons, decide_eq_true_eq]
  split_ifs <;> rfl

/-- What calls post, and their results. -/
theorem run_posts (server : Server) (calls : List (ι × Request)) (h : t.Made endpoint made) :
    ∃ replies : List Exchange,
    replies.length = calls.length ∧
    (t.run server calls).1 = replies.map Exchange.verdict ∧
    (t.run server calls).2.history = t.history ++ (posts endpoint made calls).zip replies := by
  induction calls generalizing t made with
  | nil => exact ⟨[], rfl, rfl, by simp [Traffic.run, posts]⟩
  | cons c calls ih =>
    obtain ⟨i, r⟩ := c
    obtain ⟨x, result, history⟩ := call_made server i r h
    obtain ⟨replies, size, results, histories⟩ := ih (made_call h)
    refine ⟨x :: replies, by simp [size], ?_, ?_⟩
    · rw [List.map_cons, ← result, ← results]
      rfl
    · rw [posts_cons, List.zip_cons_cons, List.append_cons, ← history]
      exact histories

/-- What is posted over one connection, whatever is called over the others. -/
theorem posts_along : along j calls (posts endpoint made calls) =
    (requests j calls).mapIdx fun k r => numberedPost (endpoint j) (made j + k) r := by
  induction calls generalizing made with
  | nil => rfl
  | cons c calls ih =>
    obtain ⟨i, r⟩ := c
    rw [posts_cons, along_cons, ih]
    by_cases same : i = j
    · subst same
      simp only [requests_cons, if_true, List.mapIdx_cons, Function.update_self, Nat.add_zero,
        Nat.add_assoc, Nat.add_comm 1]
    · simp only [requests_cons, same, if_false, Function.update_of_ne (Ne.symm same)]

end Runs

/-- The agent finds in the body the method, the request that was submitted as the only parameter, and
the number of the call. -/
theorem read_numberedPost (e : Endpoint) (before : ℕ) (r : Request) : ∃ id : UInt64,
    Rpc.Call.codec.read (numberedPost e before r).body =
        .ok ⟨"2.0", "agent_evaluate", [(Request.codec.encode r).sorted], .number id⟩ ∧
      id.toNat = (before + 1) % 2 ^ 64 :=
  ⟨_, Rpc.read_evaluate _ r, UInt64.toNat_ofNat'⟩

/-- Each of the calls over new connections posts one request, which asks the agent to evaluate what
was submitted and has the next number of its connection, whatever came back before and whatever is
called over other connections. The result is that of what comes back, and it is the same for an answer
to another number. -/
theorem calls_numbered (endpoint : ι → Endpoint) (server : Server) (calls : List (ι × Request)) :
    let sent := posts endpoint (fun _ => 0) calls
    let (results, last) := (Traffic.open endpoint).run server calls
    (∃ replies : List Exchange, replies.length = calls.length ∧ last.history = sent.zip replies ∧
      results = replies.map Exchange.verdict) ∧
    (∀ i, along i calls sent =
      (requests i calls).mapIdx fun k r => numberedPost (endpoint i) k r) ∧
    (∀ e k r, (numberedPost e k r).url = e.url ∧ ∃ id : UInt64,
      Rpc.Call.codec.read (numberedPost e k r).body =
          .ok ⟨"2.0", "agent_evaluate", [(Request.codec.encode r).sorted], .number id⟩ ∧
        id.toNat = (k + 1) % 2 ^ 64) ∧
    ∀ (x x' : Exchange) (text text' : String), x.Carries text → x'.Carries text' →
      Renumbered text text' → x.verdict = x'.verdict := by
  intro sent
  have made : (Traffic.open endpoint).Made endpoint fun _ => 0 := fun _ => rfl
  obtain ⟨replies, size, results, history⟩ := run_posts server calls made
  refine ⟨⟨replies, size, ?_, results⟩, fun i => ?_, fun e k r => ⟨rfl, read_numberedPost e k r⟩,
    fun _ _ _ _ => verdict_renumbered⟩
  · simpa [Traffic.open] using history
  · simp only [sent, posts_along, Nat.zero_add]

/-- An answer with some identifier. -/
def answer (id : Json.Value) : Json.Value :=
  .object [("jsonrpc", .string "2.0"), ("id", id), ("result", .bool true)]

/-- What comes back with it. -/
def answered (id : Json.Value) : Exchange :=
  .answered 200 (.whole (Text.Utf8.encode (answer id).text.toList))

/-- The endpoints of two connections. -/
def twoEndpoints (second : Bool) : Endpoint :=
  ⟨.http, if second then "b" else "a", 80, ""⟩

/-- The second of all requests gets no answer, the others get one with a number of its own. -/
def faltering : Server := fun history _ =>
  if history.length = 1 then .lost "broken off" else answered (.number (.natural 7))

/-- A request with some identifier. -/
def requestWith (id : String) : Request :=
  ⟨id, ⟨1, ⟨16, "0xb", 0⟩, ⟨"0xa", "0xc", none, 7, 21000, "0x1", "0x0", "0x"⟩, none⟩⟩

/-- What is called over the two connections. -/
def threeCalls : List (Bool × Request) :=
  [(true, requestWith "x"), (false, requestWith "x"), (true, requestWith "y")]

theorem calls_numbered_renumbered :
    let number := Json.Value.number (.natural 7)
    let second := numberedPost (twoEndpoints true) 1 (requestWith "y")
    let (results, last) := (Traffic.open twoEndpoints).run faltering threeCalls
    last.history.map (·.1) = [numberedPost (twoEndpoints true) 0 (requestWith "x"),
      numberedPost (twoEndpoints false) 0 (requestWith "x"), second] ∧
    results = [(answered .null).verdict, .error (.transport "broken off"), (answered .null).verdict] ∧
    (∃ id : UInt64, Rpc.Call.codec.read second.body = .ok ⟨"2.0", "agent_evaluate",
      [(Request.codec.encode (requestWith "y")).sorted], .number id⟩ ∧ id.toNat = 2) ∧
    (answered number).Carries (answer number).text ∧ (answered .null).Carries (answer .null).text ∧
      Renumbered (answer number).text (answer .null).text := by
  intro number
  have carries : (answered number).Carries (answer number).text :=
    ⟨200, _, rfl, by decide, by decide, by decide +kernel⟩
  have carries' : (answered .null).Carries (answer .null).text :=
    ⟨200, _, rfl, by decide, by decide, by decide +kernel⟩
  have read : Document.read (answer number).text.toList = ⟨(answer number).tree, true⟩ := by
    rw [Json.Value.text, String.toList_ofList]
    exact Json.read_chars (by simp [answer, number, Json.Number.Exact, Json.unsignedBound])
  have read' : Document.read (answer .null).text.toList = ⟨(answer .null).tree, true⟩ := by
    rw [Json.Value.text, String.toList_ofList]
    exact Json.read_chars (by simp [answer])
  have same : Renumbered (answer number).text (answer .null).text := by
    refine ⟨?_, by rw [read, read']⟩
    rw [read, read']
    exact .object (.more (.inl rfl) (.more (.inr ⟨rfl, .number 7, .null⟩) (.same _)))
  obtain ⟨⟨replies, size, history, -⟩, -, envelopes, verdicts⟩ :=
    calls_numbered twoEndpoints faltering threeCalls
  refine ⟨?_, ?_, (envelopes _ 1 _).2, carries, carries', same⟩
  · rw [history, List.map_fst_zip (by rw [size]; rfl)]
    rfl
  · rw [← verdicts _ _ _ _ carries carries' same]
    rfl

end Transport

end TxRelay
