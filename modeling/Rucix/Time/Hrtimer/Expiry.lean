import Mathlib.Data.List.Perm.Subperm
import Rucix.Data.Run
import Rucix.Time.Hrtimer.Queue

namespace Rucix.Time

open Rucix.Data List

/-! The expiry of timers.

The callback of a timer may start and cancel timers, so that the timers that were due
at the beginning need not all be taken.
-/

variable {Timer : Type} [DecidableEq Timer] {timers after : Timers Timer} {armed queue : List Timer}
  {timer : Timer}

/-- The armed timers after those in `fired` were taken and their callbacks ran. -/
def expire (function : Timer → Bool) (calls : Nat → List (Call Timer)) :
    (turn : Nat) → (armed fired : List Timer) → List Timer
  | _, armed, [] => armed
  | turn, armed, timer :: rest =>
    expire function calls (turn + 1)
      ((callback function timer (calls turn)).foldl Call.arms (armed.filter (· ≠ timer))) rest

variable {now fuel turn : Nat} {calls : Nat → List (Call Timer)} {fired : List Timer}
  {function : Timer → Bool} {rest : List Timer}

/-- The callback of the timer that was taken at `index` starts or cancels `timer`. -/
def Touches (function : Timer → Bool) (calls : Nat → List (Call Timer)) (turn : Nat) (fired : List Timer)
    (index : Nat) (timer : Timer) : Prop :=
  ∃ taken, fired[index]? = some taken ∧ timer ∈ (callback function taken (calls (turn + index))).map Call.timer

/-- The timers that were due are taken in their order, without those that a callback of
a timer before them has started or cancelled. -/
structure Fires (function : Timer → Bool) (calls : Nat → List (Call Timer)) (turn : Nat)
    (due fired : List Timer) : Prop where
  sublist : fired.Sublist due
  complete : ∀ timer ∈ due,
    (∃ index, fired[index]? = some timer ∧ ∀ earlier < index, ¬Touches function calls turn fired earlier timer) ∨
    (timer ∉ fired ∧ ∃ index, Touches function calls turn fired index timer)

/-- The number of calls of `count` callbacks. -/
def load (calls : Nat → List (Call Timer)) : (turn count : Nat) → Nat
  | _, 0 => 0
  | turn, count + 1 => (calls turn).length + load calls (turn + 1) count

section

omit [DecidableEq Timer]

theorem Touches.succ :
    Touches function calls turn (first :: fired) (index + 1) timer ↔
      Touches function calls (turn + 1) fired index timer := by
  rw [Touches, Touches, getElem?_cons_succ, Nat.add_right_comm, Nat.add_assoc]

theorem Touches.zero : Touches function calls turn (first :: fired) 0 timer ↔
      timer ∈ (callback function first (calls turn)).map Call.timer := by
  simp [Touches]

/-- Callbacks that leave the pending timers alone do not change what is taken. -/
theorem Fires.eq_due {due : List Timer} (fires : Fires function calls turn due fired) (nodup : due.Nodup)
    (undisturbed : ∀ index, ∀ timer ∈ due, Touches function calls turn fired index timer →
      timer ∈ fired.take (index + 1)) : fired = due := by
  refine fires.sublist.eq_of_length_le ((nodup.subperm fun timer member => ?_).length_le)
  rcases fires.complete timer member with ⟨index, found, -⟩ | ⟨-, index, touched⟩
  · exact mem_of_getElem? found
  · exact mem_of_mem_take (undisturbed index timer member touched)

theorem load_mono (order : small ≤ large) : load calls turn small ≤ load calls turn large := by
  induction small generalizing turn large with
  | zero => exact Nat.zero_le _
  | succ small ih =>
    obtain ⟨large, rfl⟩ : ∃ smaller, large = smaller + 1 := ⟨large - 1, by omega⟩
    exact Nat.add_le_add_left (ih (Nat.le_of_succ_le_succ order)) _

theorem Represents.initial : Represents (.initial expires function) [] [] :=
  ⟨⟨⟨rfl, rfl⟩, ⟨rfl, rfl⟩, nodup_singleton _⟩, .nil, fun _ => rfl, fun _ _ => ⟨rfl, .inl rfl⟩⟩

end

theorem Fires.cons (nodup : (first :: rest).Nodup) (fires : Fires function calls (turn + 1)
      (rest.filter (· ∉ (callback function first (calls turn)).map Call.timer)) fired) :
    Fires function calls turn (first :: rest) (first :: fired) := by
  obtain ⟨fresh, -⟩ := nodup_cons.mp nodup
  have others : fired.Sublist rest := fires.sublist.trans filter_sublist
  refine ⟨others.cons_cons first, fun timer member => ?_⟩
  rcases mem_cons.mp member with rfl | member
  · exact .inl ⟨0, rfl, nofun⟩
  · have apart : timer ≠ first := ne_of_mem_of_not_mem member fresh
    by_cases touched : timer ∈ (callback function first (calls turn)).map Call.timer
    · refine .inr ⟨fun again => ?_, 0, Touches.zero.mpr touched⟩
      have remaining := fires.sublist.subset ((mem_cons.mp again).resolve_left apart)
      exact of_decide_eq_true (mem_filter.mp remaining).2 touched
    · rcases fires.complete timer (mem_filter.mpr ⟨member, decide_eq_true touched⟩) with
        ⟨index, found, untouched⟩ | ⟨absent, index, later⟩
      · refine .inl ⟨index + 1, found, fun earlier order => ?_⟩
        cases earlier with
        | zero => exact fun now => touched (Touches.zero.mp now)
        | succ earlier => exact fun now => untouched earlier (Nat.lt_of_succ_lt_succ order) (Touches.succ.mp now)
      · refine .inr ⟨fun again => absent ((mem_cons.mp again).resolve_left apart), index + 1, ?_⟩
        exact Touches.succ.mpr later

theorem mem_foldl_arms {calls : List (Call Timer)} (member : timer ∈ armed) (untouched : timer ∉ calls.map Call.timer) :
    timer ∈ calls.foldl Call.arms armed := by
  induction calls generalizing armed with
  | nil => exact member
  | cons call rest ih =>
    rw [map_cons, mem_cons, not_or] at untouched
    refine ih ?_ untouched.2
    cases call with
    | start other time => exact mem_append_left _ (by simpa [member, Call.timer] using untouched.1)
    | cancel other => simpa [Call.arms, member, Call.timer] using untouched.1

theorem mem_expire (member : timer ∈ armed) (absent : timer ∉ fired)
    (untouched : ∀ index, ¬Touches function calls turn fired index timer) :
    timer ∈ expire function calls turn armed fired := by
  induction fired generalizing turn armed with
  | nil => exact member
  | cons first rest ih =>
    rw [mem_cons, not_or] at absent
    refine ih (mem_foldl_arms ?_ fun now => untouched 0 (Touches.zero.mpr now)) absent.2 fun index later => ?_
    · exact mem_filter.mpr ⟨member, decide_eq_true absent.1⟩
    · exact untouched (index + 1) (Touches.succ.mpr later)

inductive TimerEvent (Timer : Type) where
  | call (call : Call Timer)
  /-- `hrtimer_run_queues` at the time `now`, with the calls of the callbacks. -/
  | expiry (now : Nat) (calls : Nat → List (Call Timer)) (fired : List Timer)

def TimerStep (timers : Timers Timer) : TimerEvent Timer → Timers Timer → Prop
  | .call call, after => ∃ fuel, perform fuel timers call = some after
  | .expiry now calls fired, after => ∃ fuel, hrtimerRunQueues fuel timers now calls = some (fired, after)

/-- The armed timers, by the order of their last start. -/
def TimerEvent.arms (function : Timer → Bool) (armed : List Timer) : TimerEvent Timer → List Timer
  | .call action => action.arms armed
  | .expiry _ calls fired => expire function calls 0 armed fired

section

variable (represents : Represents timers armed queue)
include represents

theorem Represents.oneTurn
    : ((∀ timer ∈ queue, now < timers.expires timer) ∧
      ∀ fuel, runQueues now calls (fuel + 1) turn timers = some ([], timers)) ∨
    ∃ timer rest middle later, queue = timer :: rest ∧ timers.expires timer ≤ now ∧
      Represents middle ((callback timers.function timer (calls turn)).foldl Call.arms
        (armed.filter (· ≠ timer))) later ∧
      Performed (callback timers.function timer (calls turn)) timers middle rest later ∧
      ∀ fuel, runQueues now calls (fuel + 1) turn timers =
          (runQueues now calls fuel (turn + 1) middle).map (fun (fired, after) => (timer :: fired, after)) ∨
        runQueues now calls (fuel + 1) turn timers = none ∧
          fuel ≤ rest.length + (callback timers.function timer (calls turn)).length := by
  cases queue with
  | nil =>
    have head := represents.circular.next_head
    exact .inl ⟨nofun, fun fuel => by rw [runQueues, head]; rfl⟩
  | cons timer rest =>
    have head := represents.circular.next_head
    rw [map_cons, head?_cons, Option.getD_some] at head
    by_cases early : timers.expires timer ≤ now
    · have alone : (timer :: rest).filter (· ≠ timer) = rest := filter_ne_middle [] represents.nodup
      obtain ⟨heads, deleted, unlinked⟩ := represents.del mem_cons_self
      rw [alone] at unlinked
      obtain ⟨middle, later, reached, performed, either⟩ :=
        unlinked.performAll (callback timers.function timer (calls turn))
      refine .inr ⟨timer, rest, middle, later, rfl, early, reached,
        ⟨performed.function, performed.expires, performed.length, performed.due⟩, fun fuel => ?_⟩
      simp only [runQueues, head, Option.bind_some, if_pos early, deleted]
      rcases either fuel with returned | ⟨failed, short⟩
      · exact .inl (by rw [returned, Option.bind_some])
      · exact .inr ⟨by rw [failed, Option.bind_none], short⟩
    · refine .inl ⟨fun other member => ?_, fun fuel => ?_⟩
      · rcases mem_cons.mp member with rfl | behind
        · exact Nat.lt_of_not_le early
        · exact Nat.lt_of_lt_of_le (Nat.lt_of_not_le early)
            ((pairwise_cons.mp represents.sorted).1 other behind)
      · simp only [runQueues, head, Option.bind_some, if_neg early]

theorem Represents.runQueues (returned : runQueues now calls fuel turn timers = some (fired, after)) :
    after.function = timers.function ∧
      ∃ later, Represents after (expire timers.function calls turn armed fired) later := by
  induction fuel generalizing timers armed queue turn fired with
  | zero => cases returned
  | succ fuel ih =>
    rcases represents.oneTurn with
      ⟨-, ended⟩ | ⟨timer, rest, middle, later, -, -, reached, performed, either⟩
    · rw [ended] at returned
      cases returned
      exact ⟨rfl, queue, represents⟩
    · rcases either fuel with continued | ⟨failed, -⟩
      · rw [continued, Option.map_eq_some_iff] at returned
        obtain ⟨⟨others, final⟩, remaining, same⟩ := returned
        cases same
        obtain ⟨function, later, holds⟩ := ih reached remaining
        rw [performed.function] at function holds
        exact ⟨function, later, holds⟩
      · rw [failed] at returned
        cases returned

/-- If timers are only started for later than `now`, each turn takes one of the due
timers, so that the loop ends. -/
theorem Represents.fires (starts : ∀ turn, ∀ call ∈ calls turn, call.After now)
    (enough : queue.length + load calls turn (due timers queue now).length < fuel) :
    ∃ fired after later, Time.runQueues now calls fuel turn timers = some (fired, after) ∧
      Fires timers.function calls turn (due timers queue now) fired ∧
      Represents after (expire timers.function calls turn armed fired) later ∧
      (∀ timer ∈ later, now < after.expires timer) ∧
      ∀ timer ∉ fired, (∀ index, ¬Touches timers.function calls turn fired index timer) →
        after.expires timer = timers.expires timer := by
  induction fuel generalizing timers armed queue turn with
  | zero => cases enough
  | succ fuel ih =>
    rcases represents.oneTurn with
      ⟨notDue, ended⟩ | ⟨timer, rest, middle, later, rfl, early, reached, performed, either⟩
    · have none : due timers queue now = [] := by
        rw [due, filter_eq_nil_iff]
        intro timer member
        simpa using notDue timer member
      rw [none]
      exact ⟨[], timers, queue, ended fuel, ⟨nil_sublist _, by simp⟩, represents, notDue, fun _ _ _ => rfl⟩
    · have first : due timers (timer :: rest) now = timer :: due timers rest now :=
        filter_cons_of_pos (by simpa using early)
      have within : ∀ call ∈ callback timers.function timer (calls turn), call.After now := by
        intro call member
        rw [callback] at member
        split at member
        · exact starts turn call member
        · cases member
      have shorter : (callback timers.function timer (calls turn)).length ≤ (calls turn).length := by
        rw [callback]
        split
        · exact Nat.le_refl _
        · exact Nat.zero_le _
      have remaining := performed.due now within
      have fewer : load calls (turn + 1) (due middle later now).length ≤
          load calls (turn + 1) (due timers rest now).length := by
        rw [remaining]
        exact load_mono (length_filter_le _ _)
      have length := performed.length
      rw [first, length_cons, length_cons, load] at enough
      have left : later.length + load calls (turn + 1) (due middle later now).length < fuel := by omega
      obtain ⟨fired, after, final, returned, fires, holds, notDue, kept⟩ := ih reached left
      rw [performed.function] at fires holds kept
      rw [remaining] at fires
      refine ⟨timer :: fired, after, final, ?_, ?_, holds, notDue, ?_⟩
      · rw [(either fuel).resolve_right fun failed => by omega, returned]
        rfl
      · rw [first]
        refine Fires.cons ?_ fires
        rw [← first]
        exact represents.nodup.filter _
      · intro other absent untouched
        rw [mem_cons, not_or] at absent
        rw [kept other absent.2 fun index later => untouched (index + 1) (Touches.succ.mpr later)]
        exact performed.expires other fun now => untouched 0 (Touches.zero.mpr now)

theorem Represents.step (step : TimerStep timers event after) :
    after.function = timers.function ∧ ∃ later, Represents after (event.arms timers.function armed) later := by
  cases event with
  | call call =>
    obtain ⟨fuel, returned⟩ := step
    obtain ⟨outcome, later, reached, performed, either⟩ := represents.perform call
    rcases either fuel with same | ⟨failed, -⟩
    · obtain rfl := Option.some.inj (same.symm.trans returned)
      exact ⟨performed.function, later, reached⟩
    · rw [failed] at returned
      cases returned
  | expiry now calls fired =>
    obtain ⟨fuel, returned⟩ := step
    exact represents.runQueues returned

end

/-- The queue is a ring of the armed timers in order.  If callbacks start timers only for
later, an expiry takes the due timers in this order, without those that a callback before
has started or cancelled, and leaves the others armed. -/
theorem hrtimer_queue_run {expires : Timer → Nat} {function : Timer → Bool} {trace : List (TimerEvent Timer)}
    (run : Run TimerStep (.initial expires function) trace timers) :
    ∃ queue, Represents timers (trace.foldl (TimerEvent.arms function) []) queue ∧ queue.Nodup ∧
      (∀ call, ∃ fuel after, perform fuel timers call = some after) ∧
      ∀ now (calls : Nat → List (Call Timer)), (∀ turn, ∀ call ∈ calls turn, call.After now) →
        ∃ fuel fired after, hrtimerRunQueues fuel timers now calls = some (fired, after) ∧
          Fires function calls 0 (due timers queue now) fired ∧ fired.Nodup ∧
          (fired.Pairwise fun left right => timers.expires left ≤ timers.expires right) ∧
          ((∀ index, ∀ timer ∈ due timers queue now, Touches function calls 0 fired index timer →
            timer ∈ fired.take (index + 1)) → fired = due timers queue now) ∧
          ∃ later, Represents after
              (expire function calls 0 (trace.foldl (TimerEvent.arms function) []) fired) later ∧
            (∀ timer ∈ later, now < after.expires timer) ∧
            ∀ timer ∈ queue, timer ∉ fired → (∀ index, ¬Touches function calls 0 fired index timer) →
              timer ∈ later ∧ after.expires timer = timers.expires timer := by
  have reached : timers.function = function ∧
      ∃ queue, Represents timers (trace.foldl (TimerEvent.arms function) []) queue := by
    induction run with
    | nil => exact ⟨rfl, [], .initial⟩
    | snoc earlier last ih =>
      obtain ⟨same, queue, represents⟩ := ih
      obtain ⟨kept, later, represents⟩ := represents.step last
      rw [foldl_append]
      rw [same] at kept represents
      exact ⟨kept, later, represents⟩
  obtain ⟨rfl, queue, represents⟩ := reached
  refine ⟨queue, represents, represents.nodup, fun call => ?_, fun now calls starts => ?_⟩
  · obtain ⟨after, -, -, -, either⟩ := represents.perform call
    exact ⟨queue.length + 1, after, (either _).resolve_right fun failed => Nat.not_succ_le_self _ failed.2⟩
  · obtain ⟨fired, after, later, returned, fires, holds, notDue, kept⟩ :=
      represents.fires starts (Nat.lt_succ_self (queue.length + load calls 0 (due timers queue now).length))
    have nodup : (due timers queue now).Nodup := represents.nodup.filter _
    refine ⟨_, fired, after, returned, fires, fires.sublist.nodup nodup, ?_, fires.eq_due nodup,
      later, holds, notDue, ?_⟩
    · exact (represents.sorted.sublist filter_sublist).sublist fires.sublist
    · intro timer member absent untouched
      have armed := mem_expire (represents.mem_iff.mp member) absent untouched
      exact ⟨holds.mem_iff.mpr armed, kept timer absent untouched⟩

def bothArmed : Timers Bool :=
  (performAll 4 (.initial (fun _ => 0) fun _ => true) [.start true 2, .start false 1]).getD
    (.initial (fun _ => 0) fun _ => true)

theorem hrtimer_queue_run_two : Run TimerStep (.initial (fun _ => 0) fun _ => true)
        [.call (.start true 2), .call (.start false 1)] bothArmed ∧
      ∃ fuel fired after, hrtimerRunQueues fuel bothArmed 5 (fun _ => []) = some (fired, after) ∧
        fired.Nodup ∧ fired.Pairwise fun left right => bothArmed.expires left ≤ bothArmed.expires right := by
  have run : Run TimerStep (.initial (fun _ => 0) fun _ => true)
      [.call (.start true 2), .call (.start false 1)] bothArmed := (Run.nil.snoc ⟨4, rfl⟩).snoc ⟨4, rfl⟩
  obtain ⟨queue, -, -, -, expiry⟩ := hrtimer_queue_run run
  obtain ⟨fuel, fired, after, returned, -, nodup, sorted, -⟩ := expiry 5 (fun _ => []) nofun
  exact ⟨run, fuel, fired, after, returned, nodup, sorted⟩

/-- The callback of the first timer starts the second one again, which is therefore not
called although it was armed and due. -/
theorem restarted_timer_not_called : Run TimerStep (.initial (fun _ => 0) fun _ => true)
        [.call (.start true 2), .call (.start false 1)] bothArmed ∧
      due bothArmed [false, true] 5 = [false, true] ∧
      ∃ after, hrtimerRunQueues 4 bothArmed 5 (fun _ => [.start true 10]) = some ([false], after) ∧
        after.expires true = 10 :=
  ⟨(Run.nil.snoc ⟨4, rfl⟩).snoc ⟨4, rfl⟩, by decide, _, rfl, rfl⟩

end Rucix.Time
