/-!
# Shutdown signals

A signal is raised once and stays raised. It is held through handles (`Shutdown`): a handle made anew
has a signal of its own, and copies of a handle share its signal. A handle can be given up, after
which nothing can be done through it, not even making another; making one anew is possible without
any.

A signal is carried by a channel (`watch`). Every handle has a share in a sending end, through which
it raises the signal, and a receiving end of its own. Waiting ends when the signal is raised, and also
when nobody has a share in the sending end any more.
-/

namespace TxRelay.Signal

/-- What carries a signal: whether it is raised, and how many handles share the sending end. -/
structure Channel where
  raised : Bool
  senders : Nat
  deriving DecidableEq, Repr

namespace Channel

/-- The channel of a handle made anew. -/
def fresh : Channel := ⟨false, 1⟩

/-- One more handle has a share in the sending end. -/
def share (c : Channel) : Channel :=
  { c with senders := c.senders + 1 }

/-- One handle fewer has a share in the sending end. -/
def leave (c : Channel) : Channel :=
  { c with senders := c.senders - 1 }

/-- The signal is raised. -/
def raise (c : Channel) : Channel :=
  { c with raised := true }

/-- Whether waiting at the receiving end is over at once. -/
def isOver (c : Channel) : Bool :=
  c.raised || c.senders = 0

end Channel

/-- A handle: the channel whose sending end it shares, and the channel that it listens to. -/
structure Handle where
  sender : Nat
  receiver : Nat
  deriving DecidableEq, Repr

/-- The handles made so far, none in place of those given up, and the channels. -/
structure Handles where
  handles : List (Option Handle)
  channels : List Channel
  deriving DecidableEq, Repr

/-- One handle with a signal of its own. -/
def Handles.start : Handles := ⟨[some ⟨0, 0⟩], [.fresh]⟩

namespace Handles

/-- The handle of a number, if it was not given up. -/
def handle? (h : Handles) (number : Nat) : Option Handle :=
  (h.handles[number]?).join

/-- One more handle, with a signal of its own (`new`). -/
def make (h : Handles) : Handles where
  handles := h.handles ++ [some ⟨h.channels.length, h.channels.length⟩]
  channels := h.channels ++ [.fresh]

/-- One more handle, with the ends of another (`clone`). -/
def copy (h : Handles) (handle : Handle) : Handles where
  handles := h.handles ++ [some handle]
  channels := h.channels.modify handle.sender .share

/-- Gives a handle up, and with it its share in the sending end. -/
def release (h : Handles) (number : Nat) (handle : Handle) : Handles where
  handles := h.handles.set number none
  channels := h.channels.modify handle.sender .leave

/-- Raises the signal of a handle (`trigger`). -/
def raise (h : Handles) (handle : Handle) : Handles :=
  { h with channels := h.channels.modify handle.sender .raise }

/-- Whether the signal of a handle has been raised (`is_triggered`). -/
def isRaised (h : Handles) (handle : Handle) : Bool :=
  (h.channels[handle.receiver]?).any (·.raised)

/-- Whether waiting for the signal of a handle is over at once (`triggered`). -/
def isOver (h : Handles) (handle : Handle) : Bool :=
  (h.channels[handle.receiver]?).any (·.isOver)

end Handles

/-- What is done, mostly through a handle. -/
inductive Action where
  /-- Makes one more handle, with a signal of its own. -/
  | anew
  /-- The same, in place of something done through a handle. -/
  | make (handle : Nat)
  | copy (handle : Nat)
  | release (handle : Nat)
  | raise (handle : Nat)
  /-- Asks whether the signal is raised. -/
  | ask (handle : Nat)
  /-- Asks whether waiting for the signal would end at once. -/
  | wait (handle : Nat)
  deriving DecidableEq, Repr

/-- What an action answers. -/
inductive Answer where
  /-- The number of a new handle. -/
  | handle (number : Nat)
  | released
  | raised
  | state (raised : Bool)
  /-- The handle was given up or never made. -/
  | gone
  deriving DecidableEq, Repr

/-- An action on a handle that must still be held. -/
def Handles.through (h : Handles) (number : Nat) (action : Handle → Handles × Answer) :
    Handles × Answer :=
  match h.handle? number with
  | some handle => action handle
  | none => (h, .gone)

/-- Does one thing. -/
def Handles.act (h : Handles) : Action → Handles × Answer
  | .anew => (h.make, .handle h.handles.length)
  | .make number => h.through number fun _ => (h.make, .handle h.handles.length)
  | .copy number => h.through number fun handle => (h.copy handle, .handle h.handles.length)
  | .release number => h.through number fun handle => (h.release number handle, .released)
  | .raise number => h.through number fun handle => (h.raise handle, .raised)
  | .ask number => h.through number fun handle => (h, .state (h.isRaised handle))
  | .wait number => h.through number fun handle => (h, .state (h.isOver handle))

/-- Does one thing after the other. -/
def Handles.run (h : Handles) : List Action → List Answer
  | [] => []
  | action :: rest =>
    let (next, answer) := h.act action
    answer :: next.run rest

end TxRelay.Signal
