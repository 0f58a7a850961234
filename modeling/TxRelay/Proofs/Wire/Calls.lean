import Mathlib.Tactic
import TxRelay.Rpc
import TxRelay.Proofs.Wire.Messages

/-!
# Calls and answers on the wire

The envelope of a call holds free values. A free value is kept if it is sorted, nests no deeper than
it may and has no real number; of a value that was read only the last has to be asked. An optional
free value that is null would come back as none, but no text gives one.

Results:
* `keeps_call_of_read`, `keeps_answer_of_read`, `keeps_errorObject_of_read`: what was read from a text
  is kept.
* `evaluate_recovers`: the agent finds in the text of a call the request that was submitted, and no
  two requests give the same parameters.
-/

namespace TxRelay.Rpc

open Json (Arrangement Codec Number Tree Value arrangement_asWritten arrangement_sorted asWritten
  keeps_free keeps_free_of_read keeps_integer keeps_list keeps_list_of_read keeps_none
  keeps_optional_of_read keeps_record keeps_text)

variable {arrange : Value → Value} {depth : ℕ}

theorem Id.keeps (order : Arrangement arrange) (id : Id) : Id.codec.Keeps arrange depth id := by
  cases id with
  | number n =>
    refine ⟨.number n.toNat_lt, .number _, fun _ => ?_⟩
    rw [show Id.codec.encode (.number n) = .number (.natural n.toNat) from rfl, order.number]
    exact congrArg (fun m => Except.ok (Id.number m)) UInt64.ofNat_toNat
  | null =>
    refine ⟨.null, .null, fun _ => ?_⟩
    rw [show Id.codec.encode .null = .null from rfl, order.null]
    rfl

theorem keeps_call {c : Call} (params : (Codec.list .free).Keeps asWritten depth c.params) :
    Call.codec.Keeps asWritten (depth + 1) c :=
  keeps_record arrangement_asWritten (by decide)
    (.cons (.shown (keeps_text arrangement_asWritten c.version) rfl) <|
      .cons (.shown (keeps_text arrangement_asWritten c.method) rfl) <|
      .cons (.shown params rfl) <|
      .cons (.shown (c.id.keeps arrangement_asWritten) rfl) .nil) rfl

theorem keeps_errorObject {e : ErrorObject}
    (data : Codec.free.optional.Keeps asWritten depth e.data) :
    ErrorObject.codec.Keeps asWritten (depth + 1) e :=
  keeps_record arrangement_asWritten (by decide)
    (.cons (.shown (keeps_integer arrangement_asWritten e.code) rfl) <|
      .cons (.shown (keeps_text arrangement_asWritten e.message) rfl) <|
      .cons (.hide_isNone data rfl) .nil) rfl

theorem keeps_answer {a : Answer} (result : Codec.free.optional.Keeps asWritten depth a.result)
    (error : ErrorObject.codec.optional.Keeps asWritten depth a.error) :
    Answer.codec.Keeps asWritten (depth + 1) a :=
  keeps_record arrangement_asWritten (by decide)
    (.cons (.shown (keeps_text arrangement_asWritten a.version) rfl) <|
      .cons (.shown (a.id.keeps arrangement_asWritten) rfl) <|
      .cons (.hide_isNone result rfl) <|
      .cons (.hide_isNone error rfl) .nil) rfl

/-! ## What was read from a text -/

/-- No free value of a call has a real number. -/
def Call.Integral (c : Call) : Prop :=
  ∀ v ∈ c.params, v.Numbers Number.Integral

/-- No free value of an error object has a real number. -/
def ErrorObject.Integral (e : ErrorObject) : Prop :=
  ∀ v ∈ e.data, v.Numbers Number.Integral

/-- No free value of an answer has a real number. -/
def Answer.Integral (a : Answer) : Prop :=
  (∀ v ∈ a.result, v.Numbers Number.Integral) ∧ ∀ e ∈ a.error, e.Integral

variable {t : Tree}

theorem keeps_call_of_read {c : Call} (read : Call.codec.decode .text depth t = .ok c)
    (numbers : t.Numbers Number.Sound) (integral : c.Integral) :
    Call.codec.Keeps asWritten depth c := by
  obtain ⟨inner, ⟨version, method, params, id, _⟩, rfl, rfl, -, -, reads, -⟩ :=
    Json.reads_of_decode (by decide) read
  refine keeps_call (reads.keeps nofun fun value hv decoded => ?_)
  refine keeps_list_of_read decoded (Json.numbers_place numbers value hv) ?_
  exact fun _ _ v hv sound free => keeps_free_of_read free sound (integral v hv)

/-- An optional free value that was read is kept: where one is, it is not null. -/
theorem keeps_optionalFree_of_read {v : Option Value}
    (read : Codec.free.optional.decode .text depth t = .ok v)
    (numbers : t.Numbers Number.Sound) (integral : ∀ w ∈ v, w.Numbers Number.Integral) :
    Codec.free.optional.Keeps asWritten depth v := by
  refine keeps_optional_of_read read fun w hw present free => ?_
  refine ⟨keeps_free_of_read free numbers (integral w hw), fun null => ?_⟩
  cases null
  exact present (Json.free_eq_null free)

theorem keeps_errorObject_of_read {e : ErrorObject}
    (read : ErrorObject.codec.decode .text depth t = .ok e) (numbers : t.Numbers Number.Sound)
    (integral : e.Integral) : ErrorObject.codec.Keeps asWritten depth e := by
  obtain ⟨inner, ⟨code, message, data, _⟩, rfl, rfl, -, -, reads, -⟩ :=
    Json.reads_of_decode (by decide) read
  refine keeps_errorObject (reads.keeps ?_ fun value hv decoded => ?_)
  · rintro ⟨⟩
    exact keeps_none arrangement_asWritten
  · exact keeps_optionalFree_of_read decoded (Json.numbers_place numbers value hv) integral

theorem keeps_answer_of_read {a : Answer} (read : Answer.codec.decode .text depth t = .ok a)
    (numbers : t.Numbers Number.Sound) (integral : a.Integral) :
    Answer.codec.Keeps asWritten depth a := by
  obtain ⟨inner, ⟨version, id, result, error, _⟩, rfl, rfl, -, -, results, errors, -⟩ :=
    Json.reads_of_decode (by decide) read
  refine keeps_answer (results.keeps ?_ fun value hv decoded => ?_)
    (errors.keeps ?_ fun value hv decoded => ?_)
  · rintro ⟨⟩
    exact keeps_none arrangement_asWritten
  · exact keeps_optionalFree_of_read decoded (Json.numbers_place numbers value hv) integral.1
  · rintro ⟨⟩
    exact keeps_none arrangement_asWritten
  · refine keeps_optional_of_read decoded fun e he _ object => ⟨?_, nofun⟩
    exact keeps_errorObject_of_read object (Json.numbers_place numbers value hv)
      (integral.2 e he)

/-! ## Calls of requests -/

/-- The parameter that a request is made. -/
def param (r : Request) : Value :=
  (Request.codec.encode r).sorted

theorem ofValue_param (r : Request) : Request.codec.ofValue (param r) = .ok r :=
  have kept : Request.codec.Keeps Value.sorted Json.maxDepth r := r.keeps arrangement_sorted
  kept.decodes .value

theorem keeps_params (r : Request) :
    (Codec.list .free).Keeps asWritten (depth + 7) [param r] := by
  have kept : Request.codec.Keeps asWritten (depth + 6) r := r.keeps arrangement_asWritten
  exact keeps_list arrangement_asWritten <| List.forall_mem_singleton.2 <|
    keeps_free (Json.free_sorted kept.shallow) (Json.numbers_sorted kept.exactly)

theorem read_evaluate (id : UInt64) (r : Request) :
    Call.codec.read (Call.codec.write (.evaluate id r)) = .ok (.evaluate id r) := by
  have kept : Call.codec.Keeps asWritten Json.maxDepth (.evaluate id r) :=
    keeps_call (keeps_params r)
  exact kept.recovers

theorem read_params (r : Request) :
    (Codec.list .free).read ((Codec.list .free).write [param r]) = .ok [param r] := by
  have kept : (Codec.list .free).Keeps asWritten Json.maxDepth [param r] := keeps_params r
  exact kept.recovers

/-- The agent finds in the text of a call the method, the number and the one parameter, which is read
as the request that was submitted; so the text of the parameters tells requests apart. -/
theorem evaluate_recovers :
    (∀ (id : UInt64) (r : Request), ∃ v,
      Call.codec.read (Call.codec.write (.evaluate id r)) =
        .ok ⟨"2.0", "agent_evaluate", [v], .number id⟩ ∧
      Request.codec.ofValue v = .ok r) ∧
    ∀ (id id' : UInt64) (r r' : Request),
      (Codec.list .free).write (Call.evaluate id r).params =
        (Codec.list .free).write (Call.evaluate id' r').params ↔ r = r' := by
  refine ⟨fun id r => ⟨param r, read_evaluate id r, ofValue_param r⟩, fun _ _ r r' => ⟨?_, ?_⟩⟩
  · intro (same : (Codec.list .free).write [param r] = (Codec.list .free).write [param r'])
    have read := read_params r
    rw [same, read_params r'] at read
    have param : param r' = param r := List.singleton_inj.1 (Except.ok.inj read)
    have value := ofValue_param r
    rw [← param, ofValue_param r'] at value
    exact (Except.ok.inj value).symm
  · rintro rfl
    rfl

end TxRelay.Rpc
