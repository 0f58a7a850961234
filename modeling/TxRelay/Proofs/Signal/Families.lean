import Mathlib.Tactic
import TxRelay.Signal

/-!
# Families of handles

Handles that descend from the same one by copying are a family, and a family has one signal. What
is said here of a handle is read off the actions before and their answers: whether it is held, of
which family it is, and whether its signal was raised. The handles themselves know nothing of
families, only of channels. Every family has a channel of its own, in which as many shares are held
as there are handles of the family, so that waiting through a handle never ends because others were
given up.

Results:
* `kept_of_actions`: the channels after any actions, in terms of what was done.
* `kin_iff`: handles are of one family when they have the same channel.
* `one_signal_a_family`: what asking and waiting answer after any actions, and what one more action
  changes of that.
-/

namespace TxRelay.Signal

/-! ## What was done -/

/-- Actions with their answers, the first in front. -/
abbrev History := List (Action × Answer)

namespace Handles

/-- What an action answers. -/
def answer (s : Handles) (action : Action) : Answer :=
  (s.act action).2

/-- The handles after some actions. -/
def after (s : Handles) : List Action → Handles
  | [] => s
  | action :: rest => (s.act action).1.after rest

theorem after_append (s : Handles) (first rest : List Action) :
    s.after (first ++ rest) = (s.after first).after rest := by
  induction first generalizing s with
  | nil => rfl
  | cons action first ih => exact ih _

theorem run_append (s : Handles) (first rest : List Action) :
    s.run (first ++ rest) = s.run first ++ (s.after first).run rest := by
  induction first generalizing s with
  | nil => rfl
  | cons action first ih => exact congrArg (_ :: ·) (ih _)

theorem length_run (s : Handles) (actions : List Action) :
    (s.run actions).length = actions.length := by
  induction actions generalizing s with
  | nil => rfl
  | cons action rest ih => exact congrArg Nat.succ (ih _)

end Handles

/-- What some actions and their answers are. -/
def history (actions : List Action) : History :=
  actions.zip (Handles.start.run actions)

theorem history_concat (actions : List Action) (action : Action) :
    history (actions ++ [action]) =
      history actions ++ [(action, (Handles.start.after actions).answer action)] := by
  rw [history, Handles.run_append, List.zip_append (Handles.length_run _ _).symm]
  rfl

/-- A handle was made: the first one is there from the start. -/
inductive Made (past : History) : ℕ → Prop
  | first : Made past 0
  | later {action number} (made : (action, .handle number) ∈ past) : Made past number

/-- A handle was made and not given up. -/
def Live (past : History) (number : ℕ) : Prop :=
  Made past number ∧ (.release number, .released) ∉ past

/-- A handle was copied from another, or from a copy of it, and so on. -/
inductive Descends (past : History) (root : ℕ) : ℕ → Prop
  | self : Descends past root root
  | copy {source number} (line : Descends past root source)
      (made : (.copy source, .handle number) ∈ past) : Descends past root number

/-- Two handles are of one family: they descend from the same one. -/
def Kin (past : History) (number other : ℕ) : Prop :=
  ∃ root, Descends past root number ∧ Descends past root other

/-- The signal of a handle was raised, through a handle of its family that was held then. -/
def Raised (past : History) (number : ℕ) : Prop :=
  ∃ before after other answer, past = before ++ (.raise other, answer) :: after ∧
    Live before other ∧ Kin past other number

section History

variable {past : History} {number other : ℕ} {entry : Action × Answer}

theorem Made.mono {more : History} (made : Made past number) (le : past ⊆ more) :
    Made more number := by
  cases made with
  | first => exact .first
  | later made => exact .later (le made)

theorem Descends.mono {more : History} {root : ℕ} (line : Descends past root number)
    (le : past ⊆ more) : Descends more root number := by
  induction line with
  | self => exact .self
  | copy _ made ih => exact ih.copy (le made)

theorem made_concat : Made (past ++ [entry]) number ↔
    Made past number ∨ ∃ action, entry = (action, .handle number) := by
  constructor
  · intro made
    cases made with
    | first => exact .inl .first
    | later made =>
      rcases List.mem_append.1 made with made | made
      · exact .inl (.later made)
      · exact .inr ⟨_, (List.mem_singleton.1 made).symm⟩
  · rintro (made | ⟨action, rfl⟩)
    · exact made.mono (List.subset_append_left _ _)
    · have last : (action, .handle number) ∈ past ++ [(action, Answer.handle number)] := by simp
      exact .later last

theorem live_concat (live : Live past number) (kept : entry ≠ (.release number, .released)) :
    Live (past ++ [entry]) number := by
  refine ⟨live.1.mono (List.subset_append_left _ _), ?_⟩
  simp [live.2, kept.symm]

/-- An entry of a longer history is the last one or one of those before. -/
theorem concat_eq_append_cons {α : Type} {before after past : List α} {last entry : α} :
    past ++ [last] = before ++ entry :: after ↔
      (past = before ∧ last = entry ∧ after = []) ∨
        ∃ rest, after = rest ++ [last] ∧ past = before ++ entry :: rest := by
  constructor
  · intro same
    rcases List.eq_nil_or_concat after with rfl | ⟨rest, final, rfl⟩
    · obtain ⟨rfl, rfl⟩ := List.append_inj' same rfl |>.imp id List.singleton_inj.1
      exact .inl ⟨rfl, rfl, rfl⟩
    · rw [List.concat_eq_append, ← List.cons_append, ← List.append_assoc] at same
      obtain ⟨rfl, rfl⟩ := List.append_inj' same rfl |>.imp id List.singleton_inj.1
      exact .inr ⟨rest, List.concat_eq_append, rfl⟩
  · rintro (⟨rfl, rfl, rfl⟩ | ⟨rest, rfl, rfl⟩)
    · rfl
    · simp

end History

/-- The handle through which an action is done, if it is done through one. -/
def Action.subject : Action → Option ℕ
  | .anew => none
  | .make number | .copy number | .release number | .raise number | .ask number | .wait number =>
    some number

/-- Actions that make a handle with a signal of its own. -/
def Action.Makes (action : Action) : Prop :=
  action = .anew ∨ ∃ source, action = .make source

/-! ## The flags and the shares of channels -/

namespace Handles

theorem act_of_none {s : Handles} {action : Action} {number : ℕ}
    (subject : action.subject = some number) (gone : s.handle? number = none) :
    s.act action = (s, .gone) := by
  cases action <;> cases subject <;> simp [act, through, gone]

/-- Whether the signal of a channel has been raised. -/
def flag (s : Handles) (channel : ℕ) : Bool :=
  (s.channels[channel]?).any (·.raised)

/-- How many shares in the sending end of a channel are held. -/
def shares (s : Handles) (channel : ℕ) : ℕ :=
  ((s.channels[channel]?).map (·.senders)).getD 0

variable {s : Handles} {channel : ℕ} {handle : Handle} {number : ℕ}

theorem isRaised_eq (s : Handles) (handle : Handle) : s.isRaised handle = s.flag handle.receiver :=
  rfl

/-- Waiting is over when the signal has been raised, or when no share is held any more. -/
theorem isOver_eq (there : handle.receiver < s.channels.length) :
    s.isOver handle = (s.flag handle.receiver || s.shares handle.receiver = 0) := by
  simp [isOver, flag, shares, Channel.isOver, there]

theorem flag_make (there : channel < s.channels.length) : s.make.flag channel = s.flag channel := by
  simp [flag, make, there, List.getElem?_append_left]

theorem flag_make_new (s : Handles) : s.make.flag s.channels.length = false := by
  simp [flag, make, Channel.fresh]

@[simp] theorem flag_copy (s : Handles) (handle : Handle) (channel : ℕ) :
    (s.copy handle).flag channel = s.flag channel := by
  simp only [flag, copy, List.getElem?_modify]
  split_ifs <;> cases s.channels[channel]? <;> rfl

@[simp] theorem flag_release (s : Handles) (number : ℕ) (handle : Handle) (channel : ℕ) :
    (s.release number handle).flag channel = s.flag channel := by
  simp only [flag, release, List.getElem?_modify]
  split_ifs <;> cases s.channels[channel]? <;> rfl

theorem flag_raise (there : channel < s.channels.length) :
    (s.raise handle).flag channel = (s.flag channel || handle.sender = channel) := by
  simp only [flag, raise, List.getElem?_modify]
  split_ifs with same <;> simp [there, same, Channel.raise]

theorem shares_make (there : channel < s.channels.length) :
    s.make.shares channel = s.shares channel := by
  simp [shares, make, there, List.getElem?_append_left]

theorem shares_make_new (s : Handles) : s.make.shares s.channels.length = 1 := by
  simp [shares, make, Channel.fresh]

theorem shares_copy (there : channel < s.channels.length) :
    (s.copy handle).shares channel =
      s.shares channel + if handle.sender = channel then 1 else 0 := by
  simp only [shares, copy, List.getElem?_modify]
  split_ifs with same <;> simp [there, Channel.share]

theorem shares_release (there : channel < s.channels.length) :
    (s.release number handle).shares channel =
      s.shares channel - if handle.sender = channel then 1 else 0 := by
  simp only [shares, release, List.getElem?_modify]
  split_ifs with same <;> simp [there, Channel.leave]

@[simp] theorem shares_raise (s : Handles) (handle : Handle) (channel : ℕ) :
    (s.raise handle).shares channel = s.shares channel := by
  simp only [shares, raise, List.getElem?_modify]
  split_ifs <;> cases s.channels[channel]? <;> rfl

end Handles

/-! ## A channel for every family -/

/-- A signal was raised through a handle that was held then and whose channel is a certain one. -/
def RaisedOn (past : History) (channels : List ℕ) (channel : ℕ) : Prop :=
  ∃ before after other answer, past = before ++ (.raise other, answer) :: after ∧
    Live before other ∧ channels[other]? = some channel

/-- What was done has led to some handles. For every handle that was made, given up or not, there is
the channel that it has or had. -/
structure Kept (past : History) (channels : List ℕ) (s : Handles) : Prop where
  length : s.handles.length = channels.length
  made : ∀ number, Made past number ↔ number < channels.length
  inside : ∀ {number channel : ℕ}, channels[number]? = some channel → channel < s.channels.length
  /-- A handle shares and listens to the same channel until it is given up. -/
  held : ∀ {number channel : ℕ}, channels[number]? = some channel →
    (.release number, .released) ∉ past → s.handles[number]? = some (some ⟨channel, channel⟩)
  gone : ∀ {number : ℕ}, (.release number, .released) ∈ past → s.handles[number]? = some none
  /-- A copy has the channel of its source. -/
  copied : ∀ {source number : ℕ}, (.copy source, .handle number) ∈ past →
    number < channels.length ∧ channels[source]? = channels[number]?
  /-- Handles with the same channel descend from the same handle. -/
  rooted : ∃ root : ℕ → ℕ, ∀ {number channel : ℕ}, channels[number]? = some channel →
    Descends past (root channel) number
  flag : ∀ {channel}, channel < s.channels.length →
    (s.flag channel = true ↔ RaisedOn past channels channel)
  shares : ∀ {channel}, channel < s.channels.length →
    s.shares channel = s.handles.count (some ⟨channel, channel⟩)

theorem kept_start : Kept [] [0] .start where
  length := rfl
  made number := by
    constructor
    · rintro (_ | made)
      · exact Nat.one_pos
      · cases made
    · intro below
      obtain rfl : number = 0 := Nat.lt_one_iff.1 below
      exact .first
  inside {number channel} of := by
    obtain ⟨-, rfl⟩ := List.getElem?_eq_some_iff.1 of
    simp [Handles.start]
  held {number channel} of _ := by
    cases number with
    | zero => cases of; rfl
    | succ number => cases of
  gone released := by cases released
  copied made := by cases made
  rooted := by
    refine ⟨fun _ => 0, fun {number channel} of => ?_⟩
    cases number with
    | zero => exact .self
    | succ number => cases of
  flag {channel} there := by
    obtain rfl : channel = 0 := Nat.lt_one_iff.1 there
    refine iff_of_false (by decide) ?_
    rintro ⟨before, after, other, answer, same, -⟩
    simp at same
  shares {channel} there := by
    obtain rfl : channel = 0 := Nat.lt_one_iff.1 there
    rfl

namespace Kept

variable {past : History} {channels : List ℕ} {s : Handles} {number other : ℕ}

theorem live (h : Kept past channels s) (live : Live past number) :
    ∃ channel, channels[number]? = some channel ∧
      s.handle? number = some ⟨channel, channel⟩ ∧ channel < s.channels.length := by
  have below := (h.made number).1 live.1
  have of : channels[number]? = some channels[number] := List.getElem?_eq_getElem below
  refine ⟨channels[number], of, ?_, h.inside of⟩
  rw [Handles.handle?, h.held of live.2]
  rfl

/-- A handle that answers is held. -/
theorem live_of_handle? (h : Kept past channels s) {handle : Handle}
    (found : s.handle? number = some handle) : Live past number := by
  rw [Handles.handle?, Option.join_eq_some_iff] at found
  have below : number < channels.length := by
    rw [← h.length]
    exact (List.getElem?_eq_some_iff.1 found).1
  refine ⟨(h.made number).2 below, fun released => ?_⟩
  rw [h.gone released] at found
  cases found

theorem eq_none (h : Kept past channels s) (dead : ¬ Live past number) :
    s.handle? number = none := by
  cases found : s.handle? number with
  | none => rfl
  | some handle => exact absurd (h.live_of_handle? found) dead

/-- Handles that were made are of one family when they have the same channel. -/
theorem kin_iff (h : Kept past channels s) (made : Made past number) :
    Kin past other number ↔ channels[other]? = channels[number]? := by
  have line {root number : ℕ} (line : Descends past root number) :
      channels[root]? = channels[number]? := by
    induction line with
    | self => rfl
    | copy _ made ih => rw [ih, (h.copied made).2]
  constructor
  · rintro ⟨root, first, second⟩
    rw [← line first, line second]
  · intro same
    obtain ⟨channel, of⟩ : ∃ channel, channels[number]? = some channel :=
      ⟨_, List.getElem?_eq_getElem ((h.made number).1 made)⟩
    obtain ⟨root, roots⟩ := h.rooted
    exact ⟨root channel, roots (same.trans of), roots of⟩

/-- The signal of a channel was raised when that of its handles was. -/
theorem raisedOn_iff (h : Kept past channels s) {channel : ℕ}
    (of : channels[number]? = some channel) :
    RaisedOn past channels channel ↔ Raised past number := by
  have made : Made past number := (h.made number).2 (List.getElem?_eq_some_iff.1 of).1
  simp only [RaisedOn, Raised, h.kin_iff made, of]

/-! ### One more action -/

/-- What was raised before stays raised; one more action raises a signal if it is done for that and
through a handle that is held. -/
theorem raisedOn_concat (h : Kept past channels s) {all : List ℕ}
    (front : ∀ number < channels.length, all[number]? = channels[number]?)
    (entry : Action × Answer) (channel : ℕ) :
    RaisedOn (past ++ [entry]) all channel ↔ RaisedOn past channels channel ∨
      ∃ other answer, entry = (.raise other, answer) ∧ Live past other ∧
        channels[other]? = some channel := by
  have front {before : History} {other : ℕ} (live : Live before other) (le : before ⊆ past) :
      all[other]? = channels[other]? := front other ((h.made other).1 (live.1.mono le))
  constructor
  · rintro ⟨before, after, other, answer, same, live, of⟩
    rcases concat_eq_append_cons.1 same with ⟨rfl, rfl, rfl⟩ | ⟨rest, rfl, rfl⟩
    · rw [front live (List.Subset.refl _)] at of
      exact .inr ⟨other, answer, rfl, live, of⟩
    · rw [front live (List.subset_append_left _ _)] at of
      exact .inl ⟨before, rest, other, answer, rfl, live, of⟩
  · rintro (⟨before, after, other, answer, rfl, live, of⟩ | ⟨other, answer, rfl, live, of⟩)
    · refine ⟨before, after ++ [entry], other, answer, by simp, live, ?_⟩
      rw [front live (List.subset_append_left _ _), of]
    · refine ⟨past, [], other, answer, rfl, live, ?_⟩
      rw [front live (List.Subset.refl _), of]

/-- Any other action raises nothing. -/
theorem raisedOn_unraised (h : Kept past channels s) {all : List ℕ}
    (front : ∀ number < channels.length, all[number]? = channels[number]?)
    {entry : Action × Answer} (unraised : ∀ other, entry.1 = .raise other → ¬ Live past other)
    (channel : ℕ) :
    RaisedOn (past ++ [entry]) all channel ↔ RaisedOn past channels channel := by
  rw [h.raisedOn_concat front, or_iff_left]
  rintro ⟨other, answer, rfl, live, -⟩
  exact unraised other rfl live

/-- An action that neither makes a handle nor gives one up. -/
theorem stay (h : Kept past channels s) {t : Handles} {entry : Action × Answer}
    (unmade : ∀ number, entry.2 ≠ .handle number) (unreleased : entry.2 ≠ .released)
    (handles : t.handles = s.handles) (count : t.channels.length = s.channels.length)
    (flag : ∀ channel < s.channels.length,
      (t.flag channel = true ↔ RaisedOn (past ++ [entry]) channels channel))
    (shares : ∀ channel, t.shares channel = s.shares channel) :
    Kept (past ++ [entry]) channels t := by
  have before (entry' : Action × Answer) (differ : entry.2 ≠ entry'.2) :
      entry' ∈ past ++ [entry] ↔ entry' ∈ past := by
    rw [List.mem_append, List.mem_singleton, or_iff_left]
    rintro rfl
    exact differ rfl
  have released (number : ℕ) := before (.release number, .released) unreleased
  constructor
  case length => rw [handles, h.length]
  case made =>
    intro number
    rw [made_concat, h.made, or_iff_left]
    rintro ⟨action, rfl⟩
    exact unmade number rfl
  case inside => exact fun of => count ▸ h.inside of
  case held => exact fun of held => handles ▸ h.held of fun mem => held ((released _).2 mem)
  case gone => exact fun mem => handles ▸ h.gone ((released _).1 mem)
  case copied =>
    intro source number mem
    exact h.copied ((before (.copy source, .handle number) (unmade number)).1 mem)
  case rooted =>
    obtain ⟨root, roots⟩ := h.rooted
    exact ⟨root, fun of => (roots of).mono (List.subset_append_left _ _)⟩
  case flag => exact fun there => flag _ (count ▸ there)
  case shares =>
    intro channel there
    rw [shares, handles, h.shares (count ▸ there)]

/-- An action that makes one more handle: a copy, or one with a channel of its own. -/
theorem add (h : Kept past channels s) {t : Handles} {action : Action} {channel : ℕ}
    (line : (∃ source, action = .copy source ∧ channels[source]? = some channel) ∨
      action.Makes ∧ channel = s.channels.length)
    (handles : t.handles = s.handles ++ [some ⟨channel, channel⟩])
    (grown : s.channels.length ≤ t.channels.length) (there : channel < t.channels.length)
    (flag : ∀ channel < t.channels.length,
      (t.flag channel = true ↔ RaisedOn past channels channel))
    (shares : ∀ channel < t.channels.length,
      t.shares channel = t.handles.count (some ⟨channel, channel⟩)) :
    Kept (past ++ [(action, .handle s.handles.length)]) (channels ++ [channel]) t := by
  have old {number other : ℕ} (of : (channels ++ [channel])[number]? = some other) :
      channels[number]? = some other ∨ number = channels.length ∧ other = channel := by
    rw [List.getElem?_append] at of
    split_ifs at of with below
    · exact .inl of
    · obtain ⟨last, rfl⟩ := List.getElem?_eq_some_iff.1 of
      simp only [List.length_singleton, Nat.lt_one_iff] at last
      exact .inr ⟨by omega, by simp⟩
  have front {number other : ℕ} (of : channels[number]? = some other) :
      (channels ++ [channel])[number]? = some other := by
    rw [List.getElem?_append_left (List.getElem?_eq_some_iff.1 of).1, of]
  have last : (channels ++ [channel])[channels.length]? = some channel :=
    List.getElem?_concat_length
  have released (number : ℕ) : (.release number, .released) ∈
      past ++ [(action, Answer.handle s.handles.length)] ↔ (.release number, .released) ∈ past := by
    simp
  constructor
  case length => simp [handles, h.length]
  case made =>
    intro number
    rw [made_concat, h.made, List.length_append, List.length_singleton, h.length]
    constructor
    · rintro (below | ⟨action', same⟩)
      · omega
      · cases same
        omega
    · intro below
      rcases Nat.lt_succ_iff_lt_or_eq.1 below with below | rfl
      · exact .inl below
      · exact .inr ⟨action, rfl⟩
  case inside =>
    intro number other of
    rcases old of with of | ⟨-, rfl⟩
    · exact (h.inside of).trans_le grown
    · exact there
  case held =>
    intro number other of held
    rw [released] at held
    rcases old of with of | ⟨rfl, rfl⟩
    · rw [handles, List.getElem?_append_left, h.held of held]
      rw [h.length]
      exact (List.getElem?_eq_some_iff.1 of).1
    · rw [handles, ← h.length, List.getElem?_concat_length]
  case gone =>
    intro number mem
    have gone := h.gone ((released number).1 mem)
    rw [handles, List.getElem?_append_left (List.getElem?_eq_some_iff.1 gone).1, gone]
  case copied =>
    intro source number mem
    rw [List.length_append, List.length_singleton]
    rcases List.mem_append.1 mem with mem | mem
    · obtain ⟨below, same⟩ := h.copied mem
      have of := List.getElem?_eq_getElem below
      exact ⟨by omega, by rw [front of, front (same.trans of)]⟩
    · cases List.mem_singleton.1 mem
      rcases line with ⟨_, ⟨⟩, of⟩ | ⟨⟨⟨⟩⟩ | ⟨_, ⟨⟩⟩, -⟩
      rw [h.length]
      exact ⟨Nat.lt_succ_self _, by rw [front of, last]⟩
  case rooted =>
    obtain ⟨root, roots⟩ := h.rooted
    have roots {number other : ℕ} (of : channels[number]? = some other) :
        Descends (past ++ [(action, Answer.handle s.handles.length)]) (root other) number :=
      (roots of).mono (List.subset_append_left _ _)
    rcases line with ⟨source, rfl, of⟩ | ⟨-, rfl⟩
    · refine ⟨root, fun {number other} found => ?_⟩
      rcases old found with found | ⟨rfl, rfl⟩
      · exact roots found
      · exact (roots of).copy (by simp [h.length])
    · -- the new handle is the root of a family of its own
      refine ⟨Function.update root s.channels.length channels.length, ?_⟩
      intro number other found
      rcases old found with found | ⟨rfl, rfl⟩
      · rw [Function.update_of_ne (h.inside found).ne]
        exact roots found
      · rw [Function.update_self]
        exact .self
  case flag =>
    intro other below
    rw [flag other below, h.raisedOn_unraised fun _ => List.getElem?_append_left]
    intro source same
    rcases line with ⟨_, rfl, -⟩ | ⟨rfl | ⟨_, rfl⟩, -⟩ <;> cases same
  case shares => exact fun there => shares _ there

theorem make (h : Kept past channels s) {action : Action} (makes : action.Makes) :
    Kept (past ++ [(action, .handle s.handles.length)]) (channels ++ [s.channels.length])
      s.make := by
  have count : s.make.channels.length = s.channels.length + 1 := List.length_append
  -- nothing was done with the new channel yet
  have unused : s.handles.count (some ⟨s.channels.length, s.channels.length⟩) = 0 := by
    refine List.count_eq_zero.2 fun mem => ?_
    obtain ⟨number, found⟩ := List.mem_iff_getElem?.1 mem
    have found : s.handle? number = some ⟨s.channels.length, s.channels.length⟩ := by
      rw [Handles.handle?, found]
      rfl
    obtain ⟨channel, -, found', there⟩ := h.live (h.live_of_handle? found)
    cases found.symm.trans found'
    exact lt_irrefl _ there
  refine h.add (.inr ⟨makes, rfl⟩) rfl (by omega) (by omega) ?_ ?_
  · intro channel there
    rcases Nat.lt_succ_iff_lt_or_eq.1 (count ▸ there) with there | rfl
    · rw [Handles.flag_make there, h.flag there]
    · rw [Handles.flag_make_new]
      refine iff_of_false Bool.false_ne_true ?_
      rintro ⟨_, _, _, _, -, -, of⟩
      exact lt_irrefl _ (h.inside of)
  · intro channel there
    rw [Handles.make, List.count_append]
    rcases Nat.lt_succ_iff_lt_or_eq.1 (count ▸ there) with there | rfl
    · have differ : s.channels.length ≠ channel := there.ne'
      have shares := Handles.shares_make there
      rw [Handles.make] at shares
      rw [shares, h.shares there]
      simp [differ]
    · have shares := Handles.shares_make_new s
      rw [Handles.make] at shares
      rw [shares, unused]
      simp

theorem copy (h : Kept past channels s) {source channel : ℕ}
    (of : channels[source]? = some channel) :
    Kept (past ++ [(.copy source, .handle s.handles.length)]) (channels ++ [channel])
      (s.copy ⟨channel, channel⟩) := by
  have count : (s.copy ⟨channel, channel⟩).channels.length = s.channels.length :=
    List.length_modify _ _ _
  refine h.add (.inl ⟨source, rfl, of⟩) rfl count.ge (count ▸ h.inside of) ?_ ?_
  · intro other there
    rw [Handles.flag_copy, h.flag (count ▸ there)]
  · intro other there
    rw [Handles.shares_copy (count ▸ there), h.shares (count ▸ there), Handles.copy,
      List.count_append]
    congr 1
    by_cases same : channel = other <;> simp [same]

/-- A handle that is held is given up. -/
theorem release (h : Kept past channels s) {channel : ℕ} (live : Live past number)
    (of : channels[number]? = some channel) :
    Kept (past ++ [(.release number, .released)]) channels
      (s.release number ⟨channel, channel⟩) := by
  have held := h.held of live.2
  obtain ⟨below, value⟩ := List.getElem?_eq_some_iff.1 held
  have count : (s.release number ⟨channel, channel⟩).channels.length = s.channels.length :=
    List.length_modify _ _ _
  have released (other : ℕ) : (.release other, .released) ∈
      past ++ [(Action.release number, Answer.released)] ↔
        (.release other, .released) ∈ past ∨ other = number := by
    simp
  constructor
  case length => rw [← h.length]; exact List.length_set
  case made =>
    intro other
    rw [made_concat, h.made, or_iff_left]
    rintro ⟨action, same⟩
    cases same
  case inside => exact fun of => count ▸ h.inside of
  case held =>
    intro other channel' of' held'
    rw [released, not_or] at held'
    rw [Handles.release, List.getElem?_set_ne (Ne.symm held'.2)]
    exact h.held of' held'.1
  case gone =>
    intro other mem
    rw [Handles.release]
    by_cases same : number = other
    · subst same
      exact List.getElem?_set_self below
    · rw [List.getElem?_set_ne same]
      exact h.gone (((released other).1 mem).resolve_right (Ne.symm same))
  case copied =>
    intro source other mem
    exact h.copied (by simpa using mem)
  case rooted =>
    obtain ⟨root, roots⟩ := h.rooted
    exact ⟨root, fun of => (roots of).mono (List.subset_append_left _ _)⟩
  case flag =>
    intro other there
    rw [Handles.flag_release, h.flag (count ▸ there), h.raisedOn_unraised fun _ _ => rfl]
    intro source same
    cases same
  case shares =>
    intro other there
    rw [Handles.shares_release (count ▸ there), h.shares (count ▸ there), Handles.release,
      List.count_set below, value]
    by_cases same : channel = other
    · subst same
      simp
    · have differ : (some (⟨channel, channel⟩ : Handle) == some ⟨other, other⟩) = false := by
        simpa using same
      simp [same, differ]

/-- The signal of a handle that is held is raised. -/
theorem raise (h : Kept past channels s) {channel : ℕ} (live : Live past number)
    (of : channels[number]? = some channel) :
    Kept (past ++ [(.raise number, .raised)]) channels (s.raise ⟨channel, channel⟩) := by
  refine h.stay (by simp) (by simp) rfl (List.length_modify _ _ _) ?_ (Handles.shares_raise s _)
  intro other there
  rw [Handles.flag_raise there, h.raisedOn_concat fun _ _ => rfl, Bool.or_eq_true, h.flag there,
    decide_eq_true_eq]
  refine or_congr_right ⟨?_, ?_⟩
  · rintro rfl
    exact ⟨number, .raised, rfl, live, of⟩
  · rintro ⟨_, _, same, -, of'⟩
    cases same
    exact Option.some.inj (of.symm.trans of')

/-- An action that changes nothing. -/
theorem still (h : Kept past channels s) {entry : Action × Answer}
    (unmade : ∀ number, entry.2 ≠ .handle number) (unreleased : entry.2 ≠ .released)
    (unraised : ∀ other, entry.1 = .raise other → ¬ Live past other) :
    Kept (past ++ [entry]) channels s := by
  refine h.stay unmade unreleased rfl rfl ?_ fun _ => rfl
  intro channel there
  rw [h.flag there, h.raisedOn_unraised (fun _ _ => rfl) unraised]

/-- What one more action leads to. -/
theorem act (h : Kept past channels s) (action : Action) :
    ∃ channels, Kept (past ++ [(action, s.answer action)]) channels (s.act action).1 := by
  cases subject : action.subject with
  | none =>
    cases action <;> cases subject
    exact ⟨_, h.make (.inl rfl)⟩
  | some number =>
    by_cases live : Live past number
    case neg =>
      rw [Handles.answer, Handles.act_of_none subject (h.eq_none live)]
      refine ⟨channels, h.still (by simp) (by simp) ?_⟩
      rintro other rfl
      cases subject
      exact live
    case pos =>
      obtain ⟨channel, of, found, -⟩ := h.live live
      cases action <;> cases subject <;>
        simp only [Handles.answer, Handles.act, Handles.through, found]
      case make => exact ⟨_, h.make (.inr ⟨_, rfl⟩)⟩
      case copy => exact ⟨_, h.copy of⟩
      case release => exact ⟨_, h.release live of⟩
      case raise => exact ⟨_, h.raise live of⟩
      case ask | wait => exact ⟨_, h.still (by simp) (by simp) (by simp)⟩

end Kept

/-- The handles and channels after any actions, in terms of what was done. -/
theorem kept_of_actions (actions : List Action) :
    ∃ channels, Kept (history actions) channels (Handles.start.after actions) := by
  induction actions using List.reverseRecOn with
  | nil => exact ⟨_, kept_start⟩
  | append_singleton actions action ih =>
    obtain ⟨channels, kept⟩ := ih
    rw [history_concat, Handles.after_append]
    exact kept.act action

/-! ## One signal a family -/

/-- What can be seen of a handle that is held after some actions: whether its signal is raised, and
what more actions change of that. -/
structure Shows (actions : List Action) (number : ℕ) (state : Bool) : Prop where
  /-- The signal is raised if it was, through a handle of the family that was held then. -/
  raised : state = true ↔ Raised (history actions) number
  ask : (Handles.start.after actions).answer (.ask number) = .state state
  /-- Waiting is over at once when the signal is raised, and only then. -/
  wait : (Handles.start.after actions).answer (.wait number) = .state state
  /-- A signal that is raised stays raised. -/
  sticky : state = true → ∀ more, Live (history (actions ++ more)) number →
    (Handles.start.after (actions ++ more)).answer (.ask number) = .state true
  /-- To raise the signal of another family changes nothing. -/
  apart : ∀ other, ¬ Kin (history actions) other number →
    (Handles.start.after (actions ++ [.raise other])).answer (.ask number) = .state state
  /-- To give another handle up changes nothing, and no waiting is over because of that. -/
  released : ∀ other, other ≠ number →
    (Handles.start.after (actions ++ [.release other])).answer (.ask number) = .state state ∧
      (Handles.start.after (actions ++ [.release other])).answer (.wait number) = .state state
  /-- A copy shows the same from the start. -/
  copied : ∃ copy, (Handles.start.after actions).answer (.copy number) = .handle copy ∧
    (Handles.start.after (actions ++ [.copy number])).answer (.ask copy) = .state state

section Shows

variable {past : History} {channels : List ℕ} {s : Handles} {actions : List Action} {number : ℕ}

theorem Handles.answer_ask {handle : Handle} (found : s.handle? number = some handle) :
    s.answer (.ask number) = .state (s.flag handle.receiver) := by
  simp [Handles.answer, Handles.act, Handles.through, found, Handles.isRaised_eq]

/-- A handle that is held has a share itself, so that waiting does not end for want of shares. -/
theorem Kept.answer_wait (h : Kept past channels s) {channel : ℕ}
    (found : s.handle? number = some ⟨channel, channel⟩) :
    s.answer (.wait number) = .state (s.flag channel) := by
  obtain ⟨channel', -, found', there⟩ := h.live (h.live_of_handle? found)
  cases found.symm.trans found'
  have mem : some ⟨channel, channel⟩ ∈ s.handles :=
    List.mem_of_getElem? (Option.join_eq_some_iff.1 found)
  have shared : s.shares channel ≠ 0 := by
    rw [h.shares there]
    exact (List.count_pos_iff.2 mem).ne'
  simp [Handles.answer, Handles.act, Handles.through, found, Handles.isOver_eq, there, shared]

theorem Raised.append (raised : Raised past number) (more : History) :
    Raised (past ++ more) number := by
  obtain ⟨before, after, other, answer, rfl, live, root, first, second⟩ := raised
  refine ⟨before, after ++ more, other, answer, by simp, live, root, ?_, ?_⟩
  · exact first.mono (List.subset_append_left _ _)
  · exact second.mono (List.subset_append_left _ _)

theorem history_append (actions more : List Action) :
    ∃ rest, history (actions ++ more) = history actions ++ rest := by
  rw [history, Handles.run_append, List.zip_append (Handles.length_run _ _).symm]
  exact ⟨_, rfl⟩

/-- What a handle answers that is held. -/
theorem exists_state (live : Live (history actions) number) :
    ∃ state, (state = true ↔ Raised (history actions) number) ∧
      (Handles.start.after actions).answer (.ask number) = .state state ∧
      (Handles.start.after actions).answer (.wait number) = .state state := by
  obtain ⟨channels, kept⟩ := kept_of_actions actions
  obtain ⟨channel, of, found, there⟩ := kept.live live
  refine ⟨_, ?_, Handles.answer_ask found, kept.answer_wait found⟩
  rw [kept.flag there, kept.raisedOn_iff of]

theorem shows_of_live (live : Live (history actions) number) :
    ∃ state, Shows actions number state := by
  obtain ⟨state, raised, ask, wait⟩ := exists_state live
  obtain ⟨channels, kept⟩ := kept_of_actions actions
  obtain ⟨channel, of, found, there⟩ := kept.live live
  set s := Handles.start.after actions with hs
  have flag : s.flag channel = state :=
    Answer.state.inj ((Handles.answer_ask found).symm.trans ask)
  have after (action : Action) : Handles.start.after (actions ++ [action]) = (s.act action).1 := by
    rw [Handles.after_append]
    rfl
  refine ⟨state, ?_⟩
  constructor
  case raised => exact raised
  case ask => exact ask
  case wait => exact wait
  case sticky =>
    intro up more live'
    obtain ⟨rest, longer⟩ := history_append actions more
    obtain ⟨state', raised', ask', -⟩ := exists_state live'
    rw [ask', raised'.2 (longer ▸ (raised.1 up).append rest)]
  case apart =>
    intro other stranger
    rw [after, ← flag]
    cases there' : s.handle? other with
    | none =>
      rw [Handles.act_of_none rfl there']
      exact Handles.answer_ask found
    | some handle =>
      obtain ⟨channel', of', found', -⟩ := kept.live (kept.live_of_handle? there')
      obtain rfl := Option.some.inj (there'.symm.trans found')
      have differ : channel' ≠ channel := by
        rintro rfl
        exact stranger ((kept.kin_iff live.1).2 (of'.trans of.symm))
      have acts : (s.act (.raise other)).1 = s.raise ⟨channel', channel'⟩ := by
        simp [Handles.act, Handles.through, there']
      have still : (s.raise ⟨channel', channel'⟩).handle? number = some ⟨channel, channel⟩ := found
      rw [acts, Handles.answer_ask still, Handles.flag_raise there]
      simp [differ]
  case released =>
    intro other differ
    have live' : Live (history (actions ++ [.release other])) number := by
      rw [history_concat]
      exact live_concat live (by simp [differ])
    obtain ⟨state', -, ask', wait'⟩ := exists_state live'
    suffices same : state' = state from same ▸ ⟨ask', wait'⟩
    rw [after] at ask'
    cases there' : s.handle? other with
    | none =>
      rw [Handles.act_of_none rfl there', ask] at ask'
      exact (Answer.state.inj ask').symm
    | some handle =>
      have acts : (s.act (.release other)).1 = s.release other handle := by
        simp [Handles.act, Handles.through, there']
      have still : (s.release other handle).handle? number = some ⟨channel, channel⟩ := by
        rw [Handles.handle?, Handles.release, List.getElem?_set_ne differ]
        exact found
      rw [acts, Handles.answer_ask still, Handles.flag_release, flag] at ask'
      exact (Answer.state.inj ask').symm
  case copied =>
    have acts : s.act (.copy number) = (s.copy ⟨channel, channel⟩, .handle s.handles.length) := by
      simp [Handles.act, Handles.through, found]
    refine ⟨s.handles.length, by rw [Handles.answer, acts], ?_⟩
    have copied : (s.copy ⟨channel, channel⟩).handle? s.handles.length =
        some ⟨channel, channel⟩ := by
      simp [Handles.handle?, Handles.copy]
    rw [after, acts, Handles.answer_ask copied, Handles.flag_copy, flag]

end Shows

/-- After any actions a handle that is held shows the signal of its family: it is raised if it was
through a handle of the family that was held then, it stays raised, and neither other families nor
the giving up of handles make a difference to asking or waiting. A handle that is not held answers
nothing. -/
theorem one_signal_a_family (actions : List Action) :
    (∀ action rest, Handles.start.run (actions ++ action :: rest) =
      Handles.start.run actions ++ (Handles.start.after actions).answer action ::
        (Handles.start.after (actions ++ [action])).run rest) ∧
    (∀ number, Live (history actions) number → ∃ state, Shows actions number state) ∧
    ∀ action number, action.subject = some number → ¬ Live (history actions) number →
      (Handles.start.after actions).answer action = .gone := by
  refine ⟨fun action rest => ?_, fun number live => shows_of_live live, ?_⟩
  · rw [Handles.run_append, Handles.after_append]
    rfl
  · intro action number subject dead
    obtain ⟨channels, kept⟩ := kept_of_actions actions
    rw [Handles.answer, Handles.act_of_none subject (kept.eq_none dead)]

/-- A signal that was raised through a copy of a copy, and all handles of the family but one given
up: that one shows the signal, and the handle of another family does not. -/
theorem one_signal_a_family_lastHandle :
    let actions : List Action :=
      [.copy 0, .copy 1, .anew, .raise 2, .release 2, .release 0, .copy 1, .release 1]
    Live (history actions) 4 ∧ Shows actions 4 true ∧ Live (history actions) 3 ∧
      Shows actions 3 false ∧ ¬ Live (history actions) 2 ∧
      (Handles.start.after actions).answer (.ask 2) = .gone := by
  intro actions
  obtain ⟨-, shows, gone⟩ := one_signal_a_family actions
  have copied : (.copy 1, .handle 4) ∈ history actions := by decide
  have made : (.anew, .handle 3) ∈ history actions := by decide
  have four : Live (history actions) 4 := ⟨.later copied, by decide⟩
  have three : Live (history actions) 3 := ⟨.later made, by decide⟩
  have two : ¬ Live (history actions) 2 := fun live => live.2 (by decide)
  obtain ⟨up, shown⟩ := shows 4 four
  obtain ⟨down, hidden⟩ := shows 3 three
  obtain rfl : up = true := (Answer.state.inj shown.ask).symm
  obtain rfl : down = false := (Answer.state.inj hidden.ask).symm
  exact ⟨four, shown, three, hidden, two, gone (.ask 2) 2 rfl two⟩

end TxRelay.Signal
