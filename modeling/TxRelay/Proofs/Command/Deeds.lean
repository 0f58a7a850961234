import TxRelay.Command.Execute

/-!
# The deeds of a command

What a command does to the world is seen when it is carried out with a record: it is the same command
and turns to the same world, and each time it does so, that is noted. It comes to the same with the
record as without.

Results:
* `Does.bind`: what is done by one thing after another.
* `agrees_carryOut`: a command comes to the same with a record of its deeds.
* `does_connectAll`, `does_connectAll_of_unreachable`: how agents are connected, one by one.
* `Run.does_stages`: what a run does all of whose stages succeed.
-/

namespace TxRelay.Command

/-- What a command does to the world. -/
inductive Deed where
  /-- It reads a settings file. -/
  | read (path : String)
  /-- It tries to connect to an agent. -/
  | connect (e : Endpoint)
  | openInput (input : String)
  /-- It launches a relay, which converts events and calls agents. -/
  | launch (setup : Relay.Setup)

/-- Notes a deed that has an answer. -/
def note {α : Type} (deed : Deed) (answer : Id α) : StateM (List Deed) α := do
  modify (· ++ [deed])
  return answer.run

/-- The same ways of turning to the world, with a record. -/
def Outside.recorded (o : Outside Id) : Outside (StateM (List Deed)) where
  read path := note (.read path) (o.read path)
  connect e := note (.connect e) (o.connect e)
  openInput input := note (.openInput input) (o.openInput input)
  launch setup := note (.launch setup) (o.launch setup)
  ids := o.ids
  interrupted := o.interrupted

/-! ## What is done -/

section Does

variable {α β : Type} {a : α} {b : β} {p : StateM (List Deed) α} {f : α → StateM (List Deed) β}
  {deeds later : List Deed}

/-- Something comes to a value, and for it so much is done. -/
def Does (p : StateM (List Deed) α) (a : α) (deeds : List Deed) : Prop :=
  ∀ before, p.run before = (a, before ++ deeds)

theorem does_pure (a : α) : Does (pure a) a [] := by
  intro before
  rw [List.append_nil]
  rfl

theorem does_note (deed : Deed) (answer : Id α) : Does (note deed answer) answer.run [deed] :=
  fun _ => rfl

theorem Does.bind (first : Does p a deeds) (second : Does (f a) b later) :
    Does (p >>= f) b (deeds ++ later) := by
  intro before
  rw [StateT.run_bind, first before, ← List.append_assoc]
  exact second (before ++ deeds)

/-- What is noted first comes first. -/
theorem does_note_bind {answer : Id α} (deed : Deed) (second : Does (f answer.run) b later) :
    Does (note deed answer >>= f) b (deed :: later) :=
  (does_note deed answer).bind second

/-- What is done at the end adds nothing. -/
theorem Does.bind_pure (first : Does p a deeds) (g : α → β) :
    Does (p >>= fun a => pure (g a)) (g a) deeds := by
  rw [← List.append_nil deeds]
  exact first.bind (does_pure (g a))

end Does

/-! ## With and without a record -/

section Agrees

variable {α β : Type} {a : α} {p : Id α} {q : StateM (List Deed) α} {f : α → Id β}
  {g : α → StateM (List Deed) β} {deeds : List Deed}

/-- With a record, something comes to what it comes to without. -/
def Agrees (p : Id α) (q : StateM (List Deed) α) : Prop :=
  ∃ deeds, Does q p.run deeds

theorem Agrees.pure (a : α) : Agrees (pure a) (pure a) :=
  ⟨[], does_pure a⟩

theorem Agrees.bind (first : Agrees p q) (second : ∀ a, Agrees (f a) (g a)) :
    Agrees (p >>= f) (q >>= g) := by
  obtain ⟨deeds, first⟩ := first
  obtain ⟨later, second⟩ := second p.run
  exact ⟨deeds ++ later, first.bind second⟩

theorem agrees_note (deed : Deed) (answer : Id α) : Agrees answer (note deed answer) :=
  ⟨[deed], does_note deed answer⟩

/-- What it comes to with a record is what it comes to. -/
theorem Agrees.run_eq (agrees : Agrees p q) (does : Does q a deeds) : p.run = a := by
  obtain ⟨_, same⟩ := agrees
  exact congrArg Prod.fst ((same []).symm.trans (does []))

end Agrees

section Commands

variable (o : Outside Id)

theorem agrees_connectAll : ∀ es : List Endpoint,
    Agrees (Startup.connectAll o.connect es) (Startup.connectAll o.recorded.connect es)
  | [] => .pure _
  | e :: rest => by
    refine .bind (agrees_note (.connect e) (o.connect e)) fun answer => ?_
    cases answer with
    | error reason => exact .pure _
    | ok agent => exact .bind (agrees_connectAll rest) fun _ => .pure _

theorem Run.agrees_loadFile (config : Option String) :
    Agrees (loadFile o config) (loadFile o.recorded config) := by
  cases config with
  | none => exact .pure _
  | some path => exact .bind (agrees_note (.read path) (o.read path)) fun _ => .pure _

theorem Run.agrees_serve (s : Settings) (connected : List (Endpoint × Agent)) (input : String) :
    Agrees (serve o s connected input) (serve o.recorded s connected input) := by
  refine .bind (agrees_note (.openInput input) (o.openInput input)) fun opened => ?_
  cases opened with
  | error f => exact .pure _
  | ok numbered =>
    have launches : Agrees (dispatch o s connected numbered)
        (dispatch o.recorded s connected numbered) :=
      .bind (agrees_note (.launch _) (o.launch _)) fun _ => .pure _
    exact .bind launches fun _ => .pure _

theorem Run.agrees_stages (s : Settings) (input : String) :
    Agrees (stages o s input) (stages o.recorded s input) := by
  unfold stages
  cases check s >>= fun _ => endpoints s with
  | error f => exact .pure _
  | ok es =>
    refine .bind (agrees_connectAll o es) fun (connected, fault) => ?_
    cases fault with
    | some e => exact .pure _
    | none => exact agrees_serve o s connected input

theorem Run.agrees_carryOut (options : RunOptions) (level : Option String) (json : Bool) :
    Agrees (carryOut o options level json) (carryOut o.recorded options level json) := by
  refine .bind (agrees_loadFile o options.config) fun loaded => ?_
  cases loaded with
  | error f => exact .pure _
  | ok file => exact .bind (agrees_stages o _ _) fun _ => .pure _

/-- Every command comes to the same with a record of its deeds. -/
theorem agrees_carryOut (i : Invocation) :
    Agrees (carryOut o i) (carryOut o.recorded i) := by
  unfold carryOut
  cases i.action with
  | run options => exact Run.agrees_carryOut o options _ _
  | dryRun input =>
    refine .bind (.bind (agrees_note (.openInput input) (o.openInput input)) fun opened => ?_)
      fun _ => .pure _
    cases opened <;> exact .pure _

end Commands

/-! ## The stages of a run -/

section Stages

variable {w : World} {s : Settings} {es : List Endpoint} {input : String}
  {numbered : List Feed.Lines.Numbered} {f : Failure}

/-- The connection to an endpoint that can be reached. -/
theorem connect_of_reachable {e : Endpoint} (reachable : w.probe e = .ok ()) :
    w.outside.connect e = .ok (w.agent e) := by
  simp only [World.outside, reachable]

/-- All agents are reached, one by one. -/
theorem does_connectAll (reachable : ∀ e ∈ es, w.probe e = .ok ()) :
    Does (Startup.connectAll w.outside.recorded.connect es)
      (es.map fun e => (e, w.agent e), none) (es.map .connect) := by
  induction es with
  | nil => exact does_pure _
  | cons e rest ih =>
    have later := ih fun e' mem => reachable e' (.tail _ mem)
    refine does_note_bind (.connect e) ?_
    rw [connect_of_reachable (reachable e List.mem_cons_self)]
    exact later.bind_pure _

/-- An agent cannot be reached, and no agent after it is tried. -/
theorem does_connectAll_of_unreachable {first : List Endpoint} {e : Endpoint} {reason : String}
    (good : ∀ b ∈ first, w.probe b = .ok ()) (bad : w.probe e = .error reason)
    (after : List Endpoint) :
    Does (Startup.connectAll w.outside.recorded.connect (first ++ e :: after))
      (first.map fun e => (e, w.agent e), some (.connect e.url reason))
      ((first ++ [e]).map .connect) := by
  induction first with
  | nil =>
    refine does_note_bind (.connect e) ?_
    have fails : w.outside.connect e = .error reason := by
      simp only [World.outside, bad]
    rw [fails]
    exact does_pure _
  | cons b first ih =>
    have later := ih fun e' mem => good e' (.tail _ mem)
    refine does_note_bind (.connect b) ?_
    rw [connect_of_reachable (good b List.mem_cons_self)]
    exact later.bind_pure _

namespace Run

theorem does_stages_of_error (bad : (check s >>= fun _ => endpoints s) = .error f) :
    Does (stages w.outside.recorded s input) (.failed f []) [] := by
  rw [stages, bad]
  exact does_pure _

theorem does_stages_of_unreachable {first after : List Endpoint} {e : Endpoint} {reason : String}
    (checked : (check s >>= fun _ => endpoints s) = .ok (first ++ e :: after))
    (good : ∀ b ∈ first, w.probe b = .ok ()) (bad : w.probe e = .error reason) :
    Does (stages w.outside.recorded s input)
      (.failed ⟨"agent startup failed", [(StartupError.connect e.url reason).message]⟩
        (first.map Transport.connectedEntry))
      ((first ++ [e]).map .connect) := by
  rw [stages, checked]
  have connects := does_connectAll_of_unreachable good bad after
  rw [← List.append_nil ((first ++ [e]).map Deed.connect)]
  refine connects.bind ?_
  simp only [List.map_map]
  exact does_pure _

/-- After all agents were reached the input is opened. -/
theorem does_stages_of_reachable {outcome : Outcome} {later : List Deed}
    (checked : (check s >>= fun _ => endpoints s) = .ok es)
    (reachable : ∀ e ∈ es, w.probe e = .ok ())
    (serves : Does (serve w.outside.recorded s (es.map fun e => (e, w.agent e)) input) outcome
      later) :
    Does (stages w.outside.recorded s input) outcome (es.map .connect ++ later) := by
  rw [stages, checked]
  exact (does_connectAll reachable).bind serves

theorem does_stages_of_refused (checked : (check s >>= fun _ => endpoints s) = .ok es)
    (reachable : ∀ e ∈ es, w.probe e = .ok ()) (refused : w.open input = .error f) :
    Does (stages w.outside.recorded s input) (.failed f (es.map Transport.connectedEntry))
      (es.map .connect ++ [.openInput input]) := by
  refine does_stages_of_reachable checked reachable (does_note_bind (.openInput input) ?_)
  have answer : (w.outside.openInput input).run = .error f := refused
  simp only [answer, List.map_map]
  exact does_pure _

/-- What the relay of a run leaves in a world. -/
def relayOutcome (w : World) (s : Settings) (es : List Endpoint) (numbered : List Feed.Lines.Numbered) :
    Outcome :=
  ofLaunch w.interrupted es numbered (setup w s es numbered) (w.launch (setup w s es numbered))

/-- All stages succeed: the relay is launched once, and the run comes to what that leaves. -/
theorem does_stages (checked : (check s >>= fun _ => endpoints s) = .ok es)
    (reachable : ∀ e ∈ es, w.probe e = .ok ()) (opened : w.open input = .ok numbered) :
    Does (stages w.outside.recorded s input)
      { relayOutcome w s es numbered with
        entries := es.map Transport.connectedEntry ++ (relayOutcome w s es numbered).entries }
      (es.map .connect ++ [.openInput input, .launch (setup w s es numbered)]) := by
  have agents : (es.map fun e => (e, w.agent e)).map Prod.snd = es.map w.agent := by
    rw [List.map_map]
    rfl
  have endpoints : (es.map fun e => (e, w.agent e)).map Prod.fst = es := by
    rw [List.map_map]
    exact List.map_id es
  have dispatches : Does (dispatch w.outside.recorded s (es.map fun e => (e, w.agent e)) numbered)
      (relayOutcome w s es numbered) [.launch (setup w s es numbered)] := by
    rw [dispatch, agents, endpoints]
    exact (does_note (.launch (setup w s es numbered)) _).bind_pure _
  refine does_stages_of_reachable checked reachable (does_note_bind (.openInput input) ?_)
  have answer : (w.outside.openInput input).run = .ok numbered := opened
  simp only [answer, List.map_map]
  exact dispatches.bind_pure _

theorem withSettings_eq (checked : (check s >>= fun _ => endpoints s) = .ok es)
    (reachable : ∀ e ∈ es, w.probe e = .ok ()) (opened : w.open input = .ok numbered) :
    withSettings w s input =
      { relayOutcome w s es numbered with
        entries := es.map Transport.connectedEntry ++ (relayOutcome w s es numbered).entries } :=
  (agrees_stages w.outside s input).run_eq (does_stages checked reachable opened)

end Run

end Stages

end TxRelay.Command
