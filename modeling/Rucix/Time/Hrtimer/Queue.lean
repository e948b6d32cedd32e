import Mathlib.Data.List.TakeWhile
import Rucix.Time.Hrtimer.Model

namespace Rucix.Time

open Rucix.Data Function List

/-! The queue of timers as a list, and what a call does to it. -/

variable {Timer : Type}

/-- The scan stops at the first timer that expires later. -/
theorem findPlace_eq (timers : Timers Timer) (expires : Nat) (passed : List Timer)
    (ring : Circular timers.heads .queue ((passed ++ rest).map .timer)) (fuel : Nat) :
    findPlace timers expires fuel ((rest.map .timer).head?.getD .queue) =
      if (rest.takeWhile (timers.expires · ≤ expires)).length < fuel then
        some (((rest.dropWhile (timers.expires · ≤ expires)).map .timer).head?.getD .queue)
      else none := by
  induction rest generalizing passed fuel with
  | nil =>
    cases fuel with
    | zero => rfl
    | succ fuel => simp [findPlace]
  | cons entry rest ih =>
    cases fuel with
    | zero => rfl
    | succ fuel =>
      by_cases later : timers.expires entry > expires
      · simp [findPlace, later]
      · have next : timers.heads.next (.timer entry) = some ((rest.map .timer).head?.getD .queue) := by
          rw [map_append] at ring
          exact ring.next_item
        rw [← singleton_append, ← append_assoc] at ring
        simp only [map_cons, head?_cons, Option.getD_some, findPlace, later, next,
          Option.bind_some, ih _ ring]
        simp [Nat.le_of_not_gt later]

/-- The queue with a new timer behind those that expire no later. -/
def enqueue (expires : Timer → Nat) (queue : List Timer) (timer : Timer) : List Timer :=
  queue.takeWhile (expires · ≤ expires timer) ++ timer :: queue.dropWhile (expires · ≤ expires timer)

/-- The list holds the armed timers by `expires`, those of one time in the order in which
they were started.  The pointers of the other timers show that they are not linked. -/
structure Represents (timers : Timers Timer) (armed queue : List Timer) : Prop where
  circular : Circular timers.heads .queue (queue.map .timer)
  sorted : queue.Pairwise fun left right => timers.expires left ≤ timers.expires right
  ties : ∀ time, queue.filter (timers.expires · = time) = armed.filter (timers.expires · = time)
  idle : ∀ timer ∉ queue, timers.heads.next (.timer timer) = timers.heads.prev (.timer timer) ∧
    (timers.heads.next (.timer timer) = some (.timer timer) ∨ timers.heads.next (.timer timer) = none)

def Call.timer : Call Timer → Timer
  | .start timer _ => timer
  | .cancel timer => timer

/-- Timers are only started for a time after `now`. -/
def Call.After (now : Nat) : Call Timer → Prop
  | .start _ expires => now < expires
  | .cancel _ => True

def due (timers : Timers Timer) (queue : List Timer) (now : Nat) : List Timer :=
  queue.filter (timers.expires · ≤ now)

variable {timers after : Timers Timer} {armed queue later : List Timer} {timer : Timer}

namespace Represents

variable (represents : Represents timers armed queue)
include represents

theorem nodup : queue.Nodup :=
  .of_map _ (nodup_cons.mp represents.circular.nodup).2

theorem mem_iff : timer ∈ queue ↔ timer ∈ armed := by
  have same := congrArg (timer ∈ ·) (represents.ties (timers.expires timer))
  simpa using same

theorem linked (member : timer ∈ queue) :
    timers.heads.next (.timer timer) ≠ none ∧ timers.heads.next (.timer timer) ≠ some (.timer timer) ∧
      timers.heads.prev (.timer timer) ≠ none := by
  obtain ⟨left, right, rfl⟩ := append_of_mem member
  have ring := represents.circular
  rw [map_append] at ring
  rw [ring.next_item, ring.prev_item]
  refine ⟨Option.some_ne_none _, fun same => ?_, Option.some_ne_none _⟩
  obtain ⟨outside, -⟩ := nodup_cons.mp (nodup_middle.mp represents.nodup)
  cases right with
  | nil => cases same
  | cons first rest =>
    cases same
    exact outside (by simp)

theorem lt_of_mem_dropWhile (member : timer ∈ queue.dropWhile (timers.expires · ≤ time)) :
    time < timers.expires timer := by
  have sorted := represents.sorted
  clear represents
  induction queue with
  | nil => simp at member
  | cons first rest ih =>
    obtain ⟨least, sorted⟩ := pairwise_cons.mp sorted
    by_cases early : timers.expires first ≤ time
    · rw [dropWhile_cons_of_pos (by simpa using early)] at member
      exact ih member sorted
    · rw [dropWhile_cons_of_neg (by simpa using early)] at member
      rcases mem_cons.mp member with rfl | behind
      · exact Nat.lt_of_not_le early
      · exact Nat.lt_of_lt_of_le (Nat.lt_of_not_le early) (least timer behind)

theorem sorted_enqueue (timer : Timer) :
    (enqueue timers.expires queue timer).Pairwise fun left right =>
      timers.expires left ≤ timers.expires right := by
  have early : ∀ other ∈ queue.takeWhile (timers.expires · ≤ timers.expires timer),
      timers.expires other ≤ timers.expires timer := by
    intro other member
    simpa using mem_takeWhile_imp member
  have late : ∀ other ∈ queue.dropWhile (timers.expires · ≤ timers.expires timer),
      timers.expires timer ≤ timers.expires other := by
    intro other member
    exact Nat.le_of_lt (represents.lt_of_mem_dropWhile member)
  refine pairwise_append.mpr ⟨represents.sorted.sublist (takeWhile_sublist _), ?_, ?_⟩
  · exact pairwise_cons.mpr ⟨late, represents.sorted.sublist (dropWhile_sublist _)⟩
  · intro left before right behind
    rcases mem_cons.mp behind with rfl | behind
    · exact early left before
    · exact Nat.le_trans (early left before) (late right behind)

/-- Among the timers of one time the new one is the last. -/
theorem ties_enqueue (timer : Timer) (time : Nat) :
    (enqueue timers.expires queue timer).filter (timers.expires · = time) =
      (armed ++ [timer]).filter (timers.expires · = time) := by
  have whole : (queue.takeWhile (timers.expires · ≤ timers.expires timer)).filter (timers.expires · = time) ++
      (queue.dropWhile (timers.expires · ≤ timers.expires timer)).filter (timers.expires · = time) =
        armed.filter (timers.expires · = time) := by
    rw [← filter_append, takeWhile_append_dropWhile, represents.ties]
  by_cases here : timers.expires timer = time
  · have none : (queue.dropWhile (timers.expires · ≤ timers.expires timer)).filter
        (timers.expires · = time) = [] := by
      rw [filter_eq_nil_iff]
      intro other member
      have late := represents.lt_of_mem_dropWhile member
      simp only [decide_eq_true_eq]
      omega
    rw [none, append_nil] at whole
    rw [enqueue, filter_append, filter_cons_of_pos (by simpa using here),
      whole, none]
    simp [here]
  · rw [enqueue, filter_append, filter_cons_of_neg (by simpa using here), whole]
    simp [here]

end Represents

variable [DecidableEq Timer]

def Call.arms (armed : List Timer) : Call Timer → List Timer
  | .start timer _ => armed.filter (· ≠ timer) ++ [timer]
  | .cancel timer => armed.filter (· ≠ timer)

structure Performed (calls : List (Call Timer)) (before after : Timers Timer) (queue later : List Timer) :
    Prop where
  function : after.function = before.function
  expires : ∀ timer ∉ calls.map Call.timer, after.expires timer = before.expires timer
  length : later.length ≤ queue.length + calls.length
  due : ∀ now, (∀ call ∈ calls, call.After now) →
    due after later now = (due before queue now).filter (· ∉ calls.map Call.timer)

theorem Performed.nil : Performed [] timers timers queue queue :=
  ⟨rfl, fun _ _ => rfl, Nat.le_refl _, fun now _ => by simp⟩

theorem Performed.cons (first : Performed [call] before timers queue middle)
    (rest : Performed calls timers after middle later) : Performed (call :: calls) before after queue later where
  function := rest.function.trans first.function
  expires timer outside := by
    rw [map_cons, mem_cons, not_or] at outside
    exact (rest.expires timer outside.2).trans (first.expires timer (by simpa using outside.1))
  length := by
    have early := first.length
    have late := rest.length
    simp only [length_cons, length_nil] at early ⊢
    omega
  due now starts := by
    obtain ⟨start, starts⟩ := forall_mem_cons.mp starts
    rw [rest.due now starts, first.due now (by simpa using start)]
    simp [Bool.and_comm]

theorem filter_ne_middle (left : List Timer) (nodup : (left ++ timer :: right).Nodup) :
    (left ++ timer :: right).filter (· ≠ timer) = left ++ right := by
  obtain ⟨outside, -⟩ := nodup_cons.mp (nodup_middle.mp nodup)
  rw [filter_append, filter_cons_of_neg (by simp), ← filter_append, filter_eq_self]
  intro other member
  exact decide_eq_true (ne_of_mem_of_not_mem member outside)

namespace Represents

variable (represents : Represents timers armed queue)
include represents

theorem del (member : timer ∈ queue) : ∃ heads, timers.heads.del (.timer timer) = some heads ∧
      Represents { timers with heads } (armed.filter (· ≠ timer)) (queue.filter (· ≠ timer)) := by
  obtain ⟨left, right, rfl⟩ := append_of_mem member
  have ring := represents.circular
  rw [map_append] at ring
  obtain ⟨heads, deleted, circular, next, prev, frame⟩ := ring.del
  refine ⟨heads, deleted, ?_, represents.sorted.filter _, fun time => ?_, fun other outside => ?_⟩
  · rw [filter_ne_middle _ represents.nodup, map_append]
    exact circular
  · rw [filter_comm, represents.ties time, filter_comm]
  · by_cases same : other = timer
    · subst same
      exact ⟨next.trans prev.symm, .inr next⟩
    · have absent : other ∉ left ++ timer :: right := by
        intro inside
        exact outside (mem_filter.mpr ⟨inside, decide_eq_true same⟩)
      obtain ⟨sameNext, samePrev⟩ := frame (.timer other) (by simpa using absent)
      simp only [sameNext, samePrev]
      exact represents.idle other absent

theorem absent (outside : timer ∉ queue) : armed.filter (· ≠ timer) = armed ∧ queue.filter (· ≠ timer) = queue := by
  constructor <;> rw [filter_eq_self] <;> intro other member
  · exact decide_eq_true (ne_of_mem_of_not_mem member (mt represents.mem_iff.mpr outside))
  · exact decide_eq_true (ne_of_mem_of_not_mem member outside)

theorem detach_eq (timer : Timer) : ∃ heads, detach timers timer = some heads ∧
      Represents { timers with heads } (armed.filter (· ≠ timer)) (queue.filter (· ≠ timer)) := by
  by_cases member : timer ∈ queue
  · rw [detach, if_pos (represents.linked member)]
    exact represents.del member
  · obtain ⟨sameArmed, sameQueue⟩ := represents.absent member
    have unlinked := represents.idle timer member
    refine ⟨timers.heads, if_neg fun linked => ?_, ?_⟩
    · rcases unlinked.2 with self | null
      · exact linked.2.1 self
      · exact linked.1 null
    · rw [sameArmed, sameQueue]
      exact represents

/-- A deletion that hits a timer with two pointers to itself only makes them null. -/
theorem cancel_eq (timer : Timer) :
    ∃ after, hrtimerCancel timers timer = some after ∧ after.expires = timers.expires ∧
      after.function = timers.function ∧
      Represents after (armed.filter (· ≠ timer)) (queue.filter (· ≠ timer)) := by
  by_cases member : timer ∈ queue
  · obtain ⟨next, -, prev⟩ := represents.linked member
    obtain ⟨heads, deleted, later⟩ := represents.del member
    refine ⟨{ timers with heads }, ?_, rfl, rfl, later⟩
    rw [hrtimerCancel, if_pos ⟨next, prev⟩, deleted]
    rfl
  · obtain ⟨sameArmed, sameQueue⟩ := represents.absent member
    rw [sameArmed, sameQueue, hrtimerCancel]
    obtain ⟨both, self | null⟩ := represents.idle timer member
    · have prev := both.symm.trans self
      have outside : ∀ node ∈ Node.queue :: queue.map Node.timer, node ≠ .timer timer := by
        rintro node inside rfl
        simp [member] at inside
      rw [ListHeads.del, prev, self]
      refine ⟨_, rfl, rfl, rfl, ?_, represents.sorted, represents.ties, fun other absent => ?_⟩
      · refine represents.circular.congr fun node inside => ?_
        simp [update_of_ne (outside node inside)]
      · by_cases same : other = timer
        · subst same
          simp
        · simpa [same] using represents.idle other absent
    · rw [if_neg fun linked => linked.1 null]
      exact ⟨timers, rfl, rfl, rfl, represents⟩

theorem setExpires (outside : timer ∉ queue) (time : Nat) :
    Represents { timers with expires := update timers.expires timer time } armed queue := by
  have unarmed : timer ∉ armed := mt represents.mem_iff.mpr outside
  have same : ∀ other, other ∈ queue ∨ other ∈ armed →
      update timers.expires timer time other = timers.expires other := by
    rintro other (member | member)
    · exact update_of_ne (ne_of_mem_of_not_mem member outside) _ _
    · exact update_of_ne (ne_of_mem_of_not_mem member unarmed) _ _
  refine ⟨represents.circular, ?_, fun at' => ?_, represents.idle⟩
  · refine represents.sorted.imp_of_mem fun left right order => ?_
    simpa only [same _ (.inl left), same _ (.inl right)] using order
  · calc queue.filter (update timers.expires timer time · = at')
        = queue.filter (timers.expires · = at') :=
          filter_congr fun other member => by rw [same other (.inl member)]
      _ = armed.filter (timers.expires · = at') := represents.ties at'
      _ = armed.filter (update timers.expires timer time · = at') :=
          filter_congr fun other member => by rw [same other (.inr member)]

theorem addTail (outside : timer ∉ queue) : ∃ heads, timers.heads.addTail (.timer timer)
        (((queue.dropWhile (timers.expires · ≤ timers.expires timer)).map .timer).head?.getD .queue) =
          some heads ∧
      Represents { timers with heads } (armed ++ [timer]) (enqueue timers.expires queue timer) := by
  have ring := represents.circular
  have fresh : Node.timer timer ∉ .queue :: queue.map Node.timer := by simpa using outside
  have split := @takeWhile_append_dropWhile _ (fun other =>
    decide (timers.expires other ≤ timers.expires timer)) queue
  have joined := congrArg (List.map Node.timer) split
  rw [map_append] at joined
  rw [← joined] at ring fresh
  obtain ⟨heads, added, circular, frame⟩ := ring.addTail fresh
  refine ⟨heads, added, ?_, represents.sorted_enqueue timer, represents.ties_enqueue timer, ?_⟩
  · rw [enqueue, map_append]
    exact circular
  · intro other absent
    have notNew : other ≠ timer := by
      rintro rfl
      exact absent (by simp [enqueue])
    have notOld : other ∉ queue := by
      intro member
      rw [← split] at member
      apply absent
      simp only [enqueue, mem_append] at member ⊢
      tauto
    obtain ⟨sameNext, samePrev⟩ := frame (.timer other) (by simpa using notNew)
      (by rw [joined]; simpa using notOld)
    simp only [sameNext, samePrev]
    exact represents.idle other notOld

theorem start_eq (timer : Timer) :
    ∃ after, after.expires = update timers.expires timer time ∧ after.function = timers.function ∧
      Represents after (armed.filter (· ≠ timer) ++ [timer])
        (enqueue after.expires (queue.filter (· ≠ timer)) timer) ∧
      ∀ fuel, hrtimerStart fuel timers timer time =
        if ((queue.filter (· ≠ timer)).takeWhile (after.expires · ≤ time)).length < fuel then some after
        else none := by
  obtain ⟨heads, detached, unlinked⟩ := represents.detach_eq timer
  have outside : timer ∉ queue.filter (· ≠ timer) := by simp
  have dated := unlinked.setExpires outside time
  obtain ⟨linked, added, later⟩ := dated.addTail outside
  refine ⟨{ heads := linked, expires := update timers.expires timer time, function := timers.function },
    rfl, rfl, later, fun fuel => ?_⟩
  simp only [update_self] at added
  have first := dated.circular.next_head
  have place := findPlace_eq _ time [] dated.circular fuel
  simp only at first place
  simp only [hrtimerStart, detached, Option.bind_some, first, place]
  split
  · simp only [Option.bind_some, added, Option.map_some]
  · rfl

theorem cancelled (timer : Timer) : ∃ after, hrtimerCancel timers timer = some after ∧
      Represents after (armed.filter (· ≠ timer)) (queue.filter (· ≠ timer)) ∧
      Performed [.cancel timer] timers after queue (queue.filter (· ≠ timer)) := by
  obtain ⟨after, cancelled, expires, function, later⟩ := represents.cancel_eq timer
  refine ⟨after, cancelled, later, function, fun _ _ => by rw [expires], ?_, fun now _ => ?_⟩
  · exact Nat.le_add_right_of_le (length_filter_le _ _)
  · rw [due, due, expires, filter_comm]
    simp [Call.timer]

theorem started (timer : Timer) :
    ∃ after later, Represents after (armed.filter (· ≠ timer) ++ [timer]) later ∧
      Performed [.start timer time] timers after queue later ∧
      ∀ fuel, hrtimerStart fuel timers timer time = some after ∨
        hrtimerStart fuel timers timer time = none ∧ fuel ≤ queue.length := by
  obtain ⟨after, expires, function, later, started⟩ := represents.start_eq timer
  have shorter : (queue.filter (· ≠ timer)).length ≤ queue.length := length_filter_le _ _
  refine ⟨after, _, later, ⟨function, fun other outside => ?_, ?_, fun now starts => ?_⟩, fun fuel => ?_⟩
  · rw [expires, update_of_ne (by simpa [Call.timer] using outside)]
  · have whole := congrArg List.length (@takeWhile_append_dropWhile _ (fun other =>
      decide (after.expires other ≤ after.expires timer)) (queue.filter (· ≠ timer)))
    simp only [length_append] at whole
    simp only [enqueue, length_append, length_cons]
    omega
  · have now_lt : now < time := by simpa [Call.After] using starts
    have notDue : ¬after.expires timer ≤ now := by
      rw [expires, update_self]
      exact Nat.not_le.mpr now_lt
    rw [due, enqueue, filter_append, filter_cons_of_neg (by simpa using notDue),
      ← filter_append, takeWhile_append_dropWhile, due, filter_filter, filter_filter]
    refine filter_congr fun other _ => ?_
    by_cases same : other = timer
    · simp [same, Call.timer]
    · simp [same, Call.timer, expires]
  · rw [started]
    split
    · exact .inl rfl
    · rename_i short
      exact .inr ⟨rfl, (Nat.le_of_not_lt short).trans ((takeWhile_sublist _).length_le.trans shorter)⟩

/-- A call has one outcome, and has it if there is fuel for the queue. -/
theorem perform (call : Call Timer) :
    ∃ after later, Represents after (call.arms armed) later ∧ Performed [call] timers after queue later ∧
      ∀ fuel, perform fuel timers call = some after ∨
        perform fuel timers call = none ∧ fuel ≤ queue.length := by
  cases call with
  | start timer time => exact represents.started timer
  | cancel timer =>
    obtain ⟨after, cancelled, later, performed⟩ := represents.cancelled timer
    exact ⟨after, _, later, performed, fun _ => .inl cancelled⟩

theorem performAll (calls : List (Call Timer)) :
    ∃ after later, Represents after (calls.foldl Call.arms armed) later ∧
      Performed calls timers after queue later ∧
      ∀ fuel, performAll fuel timers calls = some after ∨
        performAll fuel timers calls = none ∧ fuel ≤ queue.length + calls.length := by
  induction calls generalizing timers armed queue with
  | nil => exact ⟨timers, queue, represents, .nil, fun _ => .inl rfl⟩
  | cons call rest ih =>
    obtain ⟨middle, between, reached, first, either⟩ := represents.perform call
    obtain ⟨after, later, final, others, eitherRest⟩ := ih reached
    have shorter := first.length
    simp only [length_cons, length_nil] at shorter ⊢
    refine ⟨after, later, final, first.cons others, fun fuel => ?_⟩
    rcases either fuel with returned | ⟨failed, short⟩
    · rw [Time.performAll, returned]
      exact (eitherRest fuel).imp_right fun ⟨failed, short⟩ => ⟨failed, by omega⟩
    · exact .inr ⟨by rw [Time.performAll, failed, Option.bind_none], by omega⟩

end Represents

end Rucix.Time
