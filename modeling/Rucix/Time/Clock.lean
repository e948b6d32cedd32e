import Mathlib.Tactic.Ring
import Rucix.Time.Hrtimer.Model

namespace Rucix.Time

/-! The clock of the timers.

`ktime_get_ns` multiplies the ticks since `initial_tsc` by 1000 in 64 bits, so the time
falls back when the product does not fit.
-/

structure Clock where
  tscFrequency : UInt64
  initialTsc : UInt64

/-- `ktime_get_ns` with the result of its `rdtsc`. -/
def Clock.ktimeGetNs (clock : Clock) (currentTsc : UInt64) : UInt64 :=
  (currentTsc - clock.initialTsc) * 1000 / (clock.tscFrequency / 1000000)

variable {Timer : Type} [DecidableEq Timer] {timers : Timers Timer} {timer : Timer} {clock : Clock}
  {first second : UInt64}

/-- A turn of the loop of `hrtimer_run_queues` finds the first timer expired, or not. -/
def Finds (timers : Timers Timer) (now : UInt64) (timer : Timer) (expired : Bool) : Prop :=
  timers.heads.next .queue = some (.timer timer) ∧ ∃ calls fuel turn fired after,
    runQueues now.toNat calls fuel turn timers = some (fired, after) ∧ (fired.head? = some timer ↔ expired)

theorem Finds.iff (finds : Finds timers now timer expired) : expired ↔ timers.expires timer ≤ now.toNat := by
  obtain ⟨front, calls, fuel, turn, fired, after, returned, found⟩ := finds
  rw [← found]
  cases fuel with
  | zero => cases returned
  | succ fuel =>
    simp only [runQueues, front, Option.bind_some] at returned
    split at returned
    · next due =>
      obtain ⟨heads, -, returned⟩ := Option.bind_eq_some_iff.mp returned
      obtain ⟨middle, -, returned⟩ := Option.bind_eq_some_iff.mp returned
      obtain ⟨rest, -, same⟩ := Option.map_eq_some_iff.mp returned
      cases same
      exact iff_of_true rfl due
    · next notDue =>
      cases returned
      exact iff_of_false nofun notDue

/-- The product of `ktime_get_ns` before it is cut down to 64 bits. -/
def Clock.product (clock : Clock) (tsc : UInt64) : Nat := (tsc.toNat - clock.initialTsc.toNat) * 1000

/-- The later reading lies in the same lap of the product, or as far behind its wrap-around
as the earlier one, up to the remainder of the division. -/
def Clock.Ahead (clock : Clock) (first second : UInt64) : Prop :=
  clock.product first / 2 ^ 64 = clock.product second / 2 ^ 64 ∨
    clock.product first % 2 ^ 64 ≤ clock.product second % 2 ^ 64 +
      clock.product first % 2 ^ 64 % (clock.tscFrequency.toNat / 1000000)

theorem Clock.toNat_ktimeGetNs (reached : clock.initialTsc ≤ first) :
    (clock.ktimeGetNs first).toNat =
      clock.product first % 2 ^ 64 / (clock.tscFrequency.toNat / 1000000) := by
  rw [ktimeGetNs, UInt64.toNat_div, UInt64.toNat_mul, UInt64.toNat_sub_of_le _ _ reached]
  rfl

theorem div_le_div_iff_of_pos {period : Nat} (positive : 0 < period) (low high : Nat) :
    low / period ≤ high / period ↔ low ≤ high + low % period := by
  have split := Nat.div_add_mod low period
  rw [Nat.le_div_iff_mul_le positive, Nat.mul_comm]
  omega

theorem Clock.ktimeGetNs_le_iff (calibrated : 1000000 ≤ clock.tscFrequency) (reached : clock.initialTsc ≤ first)
    (order : first ≤ second) : clock.ktimeGetNs first ≤ clock.ktimeGetNs second ↔ clock.Ahead first second := by
  have ticks : clock.product first ≤ clock.product second := Nat.mul_le_mul_right 1000
    (Nat.sub_le_sub_right (UInt64.le_iff_toNat_le.mp order) clock.initialTsc.toNat)
  have positive : 0 < clock.tscFrequency.toNat / 1000000 :=
    Nat.div_pos (UInt64.le_iff_toNat_le.mp calibrated) (by decide)
  rw [UInt64.le_iff_toNat_le, clock.toNat_ktimeGetNs reached,
    clock.toNat_ktimeGetNs (UInt64.le_trans reached order), div_le_div_iff_of_pos positive]
  refine ⟨.inr, fun ahead => ahead.elim (fun same => ?_) id⟩
  omega

def oneArmed (expires : Nat) : Timers Unit where
  heads :=
    { next := fun node => some (if node = .queue then .timer () else .queue)
      prev := fun node => some (if node = .queue then .timer () else .queue) }
  expires := fun _ => expires
  function := fun _ => false

theorem oneArmed_finds (expires : Nat) (now : UInt64) : Finds (oneArmed expires) now () (expires ≤ now.toNat) := by
  have turn : ∀ expired : Bool, (expires ≤ now.toNat ↔ expired) → ∃ after, runQueues now.toNat (fun _ => []) 2 0
      (oneArmed expires) = some (if expired then [()] else [], after) := by
    intro expired due
    cases expired with
    | true => exact ⟨_, (if_pos (due.mpr rfl)).trans rfl⟩
    | false => exact ⟨_, (if_neg (fun early => by cases due.mp early)).trans rfl⟩
  obtain ⟨after, returned⟩ := turn _ decide_eq_true_iff.symm
  exact ⟨rfl, fun _ => [], 2, 0, _, after, returned, by split <;> simp_all⟩

/-- The clock does not fall back exactly if the later reading is ahead in this sense, and
then an expired timer stays expired.  Otherwise there is one that does not. -/
theorem ktime_monotonic (calibrated : 1000000 ≤ clock.tscFrequency) (reached : clock.initialTsc ≤ first)
    (order : first ≤ second) :
    (clock.ktimeGetNs first ≤ clock.ktimeGetNs second ↔ clock.Ahead first second) ∧
    (clock.Ahead first second → ∀ (timers later : Timers Timer) timer,
      Finds timers (clock.ktimeGetNs first) timer true → later.expires timer = timers.expires timer →
        ¬ Finds later (clock.ktimeGetNs second) timer false) ∧
    (¬ clock.Ahead first second → ∃ timers : Timers Unit,
      Finds timers (clock.ktimeGetNs first) () true ∧ Finds timers (clock.ktimeGetNs second) () false) := by
  have monotone := clock.ktimeGetNs_le_iff calibrated reached order
  rw [← monotone]
  refine ⟨Iff.rfl, fun order timers later timer found same lost => ?_, fun falls => ?_⟩
  · have due := Nat.le_trans (found.iff.mp rfl) (UInt64.le_iff_toNat_le.mp order)
    rw [← same, ← lost.iff] at due
    cases due
  · rw [UInt64.le_iff_toNat_le] at falls
    have finds := oneArmed_finds (clock.ktimeGetNs first).toNat
    refine ⟨oneArmed (clock.ktimeGetNs first).toNat, ?_, ?_⟩
    · simpa using finds (clock.ktimeGetNs first)
    · simpa [falls] using finds (clock.ktimeGetNs second)

def gigahertz : Clock := { tscFrequency := 1000000000, initialTsc := 0 }

/-- Both readings lie in the second lap. -/
theorem ktime_monotonic_second_lap :
    gigahertz.ktimeGetNs 18446744073709552 ≤ gigahertz.ktimeGetNs 18446744073709560 :=
  (@ktime_monotonic Unit _ gigahertz 18446744073709552 18446744073709560 (by decide) (by decide) (by decide)).1.mpr
    (.inl (by decide))

/-- One tick later the clock is near 0 again, and a timer that had expired has not. -/
theorem ktime_falls_back : gigahertz.ktimeGetNs 18446744073709552 < gigahertz.ktimeGetNs 18446744073709551 ∧
    Finds (oneArmed 5) (gigahertz.ktimeGetNs 18446744073709551) () true ∧
      Finds (oneArmed 5) (gigahertz.ktimeGetNs 18446744073709552) () false :=
  ⟨by decide, ⟨rfl, fun _ => [], 2, 0, [()], _, rfl, by simp⟩, ⟨rfl, fun _ => [], 2, 0, [], _, rfl, by simp⟩⟩

end Rucix.Time
