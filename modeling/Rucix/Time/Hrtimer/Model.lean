import Rucix.Data.Circular

namespace Rucix.Time

open Rucix.Data

/-! High-resolution timers, `kernel/time/hrtimer.c`.

Whether a timer is linked is read off its pointers: they lead to itself after
`hrtimer_init` and are null after a deletion.
-/

variable {Timer : Type}

/-- A `struct list_head`: `hrtimer_list`, or the `node` that a timer starts with. -/
inductive Node (Timer : Type) where
  | queue
  | timer (timer : Timer)
deriving DecidableEq

/-- The queue and the fields of the timers.  `function` says whether a callback is set. -/
structure Timers (Timer : Type) where
  heads : ListHeads (Node Timer)
  expires : Timer → Nat
  function : Timer → Bool

/-- After `hrtimer_init_system`, `hrtimer_init` of every timer, and the choice of callbacks. -/
def Timers.initial (expires : Timer → Nat) (function : Timer → Bool) : Timers Timer where
  heads := { next := some, prev := some }
  expires
  function

inductive Call (Timer : Type) where
  | start (timer : Timer) (expires : Nat)
  | cancel (timer : Timer)

variable [DecidableEq Timer]

/-- The scan of `hrtimer_start`: the node in front of which the timer belongs. -/
def findPlace (timers : Timers Timer) (expires : Nat) : (fuel : Nat) → Node Timer → Option (Node Timer)
  | 0, _ => none
  | _ + 1, .queue => some .queue
  | fuel + 1, .timer entry =>
    if timers.expires entry > expires then some (.timer entry)
    else (timers.heads.next (.timer entry)).bind (findPlace timers expires fuel)

/-- A timer that is still linked is taken out first. -/
def detach (timers : Timers Timer) (timer : Timer) : Option (ListHeads (Node Timer)) :=
  if timers.heads.next (.timer timer) ≠ none ∧ timers.heads.next (.timer timer) ≠ some (.timer timer) ∧
      timers.heads.prev (.timer timer) ≠ none then
    timers.heads.del (.timer timer)
  else some timers.heads

def hrtimerStart (fuel : Nat) (timers : Timers Timer) (timer : Timer) (expires : Nat) :
    Option (Timers Timer) :=
  (detach timers timer).bind fun heads =>
    let timers := { timers with heads, expires := Function.update timers.expires timer expires }
    (timers.heads.next .queue).bind fun first =>
      (findPlace timers expires fuel first).bind fun place =>
        (timers.heads.addTail (.timer timer) place).map fun heads => { timers with heads }

def hrtimerCancel (timers : Timers Timer) (timer : Timer) : Option (Timers Timer) :=
  if timers.heads.next (.timer timer) ≠ none ∧ timers.heads.prev (.timer timer) ≠ none then
    (timers.heads.del (.timer timer)).map fun heads => { timers with heads }
  else some timers

def perform (fuel : Nat) (timers : Timers Timer) : Call Timer → Option (Timers Timer)
  | .start timer expires => hrtimerStart fuel timers timer expires
  | .cancel timer => hrtimerCancel timers timer

def performAll (fuel : Nat) : Timers Timer → List (Call Timer) → Option (Timers Timer)
  | timers, [] => some timers
  | timers, call :: rest => (perform fuel timers call).bind fun timers => performAll fuel timers rest

/-- What the callback of a timer does, if it has one. -/
def callback (function : Timer → Bool) (timer : Timer) (calls : List (Call Timer)) : List (Call Timer) :=
  if function timer then calls else []

/-- The loop of `hrtimer_run_queues`: the timers that were due, in the order in which they
were taken.  The callback of the `turn`-th one performs `calls turn`. -/
def runQueues (now : Nat) (calls : Nat → List (Call Timer)) :
    (fuel turn : Nat) → Timers Timer → Option (List Timer × Timers Timer)
  | 0, _, _ => none
  | fuel + 1, turn, timers =>
    (timers.heads.next .queue).bind fun
      | .queue => some ([], timers)
      | .timer timer =>
        if timers.expires timer ≤ now then
          (timers.heads.del (.timer timer)).bind fun heads =>
            (performAll fuel { timers with heads } (callback timers.function timer (calls turn))).bind fun timers =>
              (runQueues now calls fuel (turn + 1) timers).map fun (fired, timers) =>
                (timer :: fired, timers)
        else some ([], timers)

def hrtimerRunQueues (fuel : Nat) (timers : Timers Timer) (now : Nat) (calls : Nat → List (Call Timer)) :
    Option (List Timer × Timers Timer) :=
  runQueues now calls fuel 0 timers

end Rucix.Time
