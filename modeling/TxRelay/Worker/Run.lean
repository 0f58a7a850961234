import TxRelay.Worker.Basic

/-!
# A worker on its own

A worker that is run alone on a queue filled before. Time passes only when the worker waits, and then
at once up to the next moment at which something happens: the end of its call or the raising of the
signal. The run is bounded by the work a worker has left, which every step makes less.

Results:
* `step_work`: a step leaves less work.
-/

namespace TxRelay

/-- The first of some moments that is still to come. -/
def nextMoment (now : Nat) (moments : List (Option Nat)) : Option Nat :=
  (moments.filterMap fun moment => moment.filter (now < ·)).min?

namespace Worker

/-- The steps that an activity still takes. -/
def Activity.work : Activity → Nat
  | idle => 2
  | waiting => 1
  | calling .. => 2
  | stopped _ | crashed _ => 0

/-- The steps that a worker may still take. -/
def work (w : Worker) : Nat :=
  w.activity.work + 2 * w.queue.length

/-- Whether a signal that is raised at a moment is raised by now. -/
def raisedBy (signalAt : Option Nat) (now : Nat) : Bool :=
  signalAt.any (· ≤ now)

/-- Runs a worker up to its end: the moment it ends and the worker then. None is left if the worker
would wait for ever. -/
def runFrom (closed : Bool) (signalAt : Option Nat) : Nat → Nat → Worker → Option (Nat × Worker)
  | 0, _, _ => none
  | fuel + 1, now, w =>
    match w.step now (raisedBy signalAt now) closed with
    | some next => runFrom closed signalAt fuel now next
    | none =>
      if w.released then some (now, w)
      else
        match nextMoment now [w.deadline?, signalAt] with
        | some moment => runFrom closed signalAt fuel moment w
        | none => none

/-- Runs a worker from the moment zero: `run` where nobody else has a hand in its queue. -/
def run (w : Worker) (closed : Bool) (signalAt : Option Nat) : Option (Nat × Worker) :=
  runFrom closed signalAt (2 * w.work + 3) 0 w

theorem step_work {w next : Worker} {now : Nat} {signal closed : Bool}
    (h : w.step now signal closed = some next) : next.work < w.work := by
  unfold step at h
  split at h
  next ha => cases h; simp [begin, work, ha, Activity.work]
  next ha =>
    split at h
    · cases h; simp only [stop, work, ha, Activity.work, List.length_nil]; omega
    · split at h
      next hq => cases h; simp [call, work, ha, hq, Activity.work]; omega
      next hq =>
        split at h
        · cases h; simp [stop, work, ha, hq, Activity.work]
        · cases h
  next ha =>
    split at h
    · cases h
      unfold conclude
      split <;> simp only [work, ha, Activity.work, List.length_nil] <;> omega
    · cases h
  next => cases h
  next => cases h

end Worker

end TxRelay
