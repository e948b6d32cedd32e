import Rucix.Security.Seccomp.Model

namespace Rucix.Security

open Rucix.Data

/-! What a filter program can read and where it can jump. -/

variable {prog : SockFprog} {sd : Block} {state next : BpfState} {inst : SockFilter}

theorem toInt32_of_bounds {value : Int} (lower : -2 ^ 31 ≤ value) (upper : value < 2 ^ 31) :
    toInt32 value = value := by
  apply Int.bmod_eq_of_le
  · omega
  · omega

/-- An unsigned sum that leaves the range of an `int` comes out negative, or
below the summand it wrapped around. -/
theorem toInt32_wrap {pc : Int} {offset : Nat} (lower : 0 ≤ pc) (upper : pc < 2 ^ 16) (bound : offset < 2 ^ 32)
    (wraps : 2 ^ 31 ≤ pc + offset + 1) : toInt32 (toInt32 (pc + offset) + 1) ≤ pc := by
  rw [toInt32, toInt32, Int.bmod_add_bmod, Int.bmod_def]
  omega

theorem SockFprog.fetch_eq_some : prog.fetch state.pc = some inst →
    0 ≤ state.pc ∧ state.pc < prog.len ∧ inst ∈ prog.filter := by
  intro fetched
  simp only [SockFprog.fetch] at fetched
  split at fetched
  · cases fetched
  · obtain ⟨bound, found⟩ := List.getElem?_eq_some_iff.mp fetched
    refine ⟨by omega, ?_, found ▸ List.getElem_mem bound⟩
    simp only [SockFprog.len]
    omega

theorem SockFprog.exists_fetch (lower : 0 ≤ state.pc) (upper : state.pc < prog.len) :
    ∃ inst, prog.fetch state.pc = some inst := by
  simp only [SockFprog.len] at upper
  have inside : state.pc.toNat < prog.filter.length := by omega
  rw [SockFprog.fetch, if_neg (by omega)]
  exact ⟨_, List.getElem?_eq_getElem inside⟩

/-- A jump that stays ahead: `BPF_JA` with an offset that does not leave the
range of the program counter. -/
def SockFilter.JumpsAhead (inst : SockFilter) (pc : Int) : Prop :=
  inst.opcode = .ja → pc + inst.k.toNat + 1 < 2 ^ 31

/-- A word load that is performed reads inside the `struct seccomp_data`. -/
def SockFilter.LoadsInside (inst : SockFilter) : Prop :=
  inst.opcode = .ldWAbs → inst.k.toNat < seccompDataSize → inst.k.toNat + 4 ≤ seccompDataSize

theorem execute_pc (executed : execute sd inst state = .inl next) :
    (state.pc ≤ next.pc ∧ next.pc < state.pc + 2 ^ 8) ∧ inst.opcode ≠ .ja ∨
      inst.opcode = .ja ∧ next.pc = toInt32 (state.pc + inst.k.toNat) := by
  have within : next.pc = state.pc → state.pc ≤ next.pc ∧ next.pc < state.pc + 2 ^ 8 := by omega
  cases kind : inst.opcode with
  | ja =>
    simp only [execute, kind] at executed
    cases executed
    exact .inr ⟨rfl, rfl⟩
  | jump op =>
    simp only [execute, kind] at executed
    cases executed
    have bound := (if op.test state.a inst.k then inst.jt else inst.jf).toNat_lt
    refine .inl ⟨⟨?_, ?_⟩, nofun⟩
    · exact Int.le_add_of_nonneg_right (Int.natCast_nonneg _)
    · exact Int.add_lt_add_left (by exact_mod_cast bound) _
  | ldWAbs =>
    simp only [execute, kind] at executed
    split at executed
    · cases executed
      exact .inl ⟨within rfl, nofun⟩
    · cases executed
  | retK | retA | unknown =>
    simp only [execute, kind] at executed
    cases executed
  | ldImm | alu _ | neg | tax | txa =>
    simp only [execute, kind] at executed
    cases executed
    exact .inl ⟨within rfl, nofun⟩

theorem body_eq_inl (turned : (filterLoop sd prog).body state = .inl next) :
    ∃ inst after, prog.fetch state.pc = some inst ∧ execute sd inst state = .inl after ∧
      next.pc = toInt32 (after.pc + 1) := by
  simp only [filterLoop] at turned
  split at turned
  · cases turned
  · rename_i inst fetched
    split at turned
    · cases turned
    · rename_i after executed
      cases turned
      exact ⟨inst, after, fetched, executed, rfl⟩

/-- A turn goes ahead exactly when its jump does. -/
theorem turn_ahead (turned : (filterLoop sd prog).body state = .inl next) :
    state.pc < next.pc ↔ ∀ inst, prog.fetch state.pc = some inst → inst.JumpsAhead state.pc := by
  obtain ⟨inst, after, fetched, executed, moved⟩ := body_eq_inl turned
  obtain ⟨lower, upper, -⟩ := SockFprog.fetch_eq_some fetched
  have short : state.pc < 2 ^ 16 := Int.lt_trans upper (by exact_mod_cast prog.bounded)
  have bound := inst.k.toNat_lt
  have single : (∀ inst, prog.fetch state.pc = some inst → inst.JumpsAhead state.pc) ↔
      inst.JumpsAhead state.pc := by
    simp [fetched]
  rw [single, moved]
  rcases execute_pc executed with ⟨⟨least, most⟩, other⟩ | ⟨jump, landed⟩
  · rw [toInt32_of_bounds (by omega) (by omega)]
    exact ⟨fun _ jump => absurd jump other, fun _ => by omega⟩
  · rw [landed]
    by_cases ahead : state.pc + inst.k.toNat + 1 < 2 ^ 31
    · have inner : toInt32 (state.pc + inst.k.toNat) = state.pc + inst.k.toNat :=
        toInt32_of_bounds (by omega) (by omega)
      rw [toInt32_of_bounds (by omega) (by omega)]
      exact ⟨fun _ _ => ahead, fun _ => by omega⟩
    · have back := toInt32_wrap lower short bound (by omega)
      exact ⟨fun forward => absurd forward (by omega), fun condition => absurd (condition jump) ahead⟩

theorem exit_eq_none : (filterLoop sd prog).exit state = none ↔ state.pc < prog.len := by
  simp only [filterLoop]
  split <;> simp_all

section

variable (ahead : ∀ state, (filterLoop sd prog).Reaches .initial state →
    ∀ inst, prog.fetch state.pc = some inst → inst.JumpsAhead state.pc)
include ahead

/-- The program counter is never negative as long as all jumps stay ahead. -/
theorem reached_nonneg (reached : (filterLoop sd prog).Reaches .initial state) : 0 ≤ state.pc := by
  induction reached with
  | start => exact Int.le_refl 0
  | turn earlier stays turned ih =>
    have forward := (turn_ahead turned).mpr (ahead _ earlier)
    omega

/-- Every instruction is executed at most once. -/
theorem runFilter_returns :
    ∃ value, seccompRunFilter prog.len sd prog = some (.returned value) := by
  have returns : ∃ outcome, (filterLoop sd prog).run prog.len .initial = some outcome := by
    refine Loop.run_returns (fun state => (prog.len - state.pc).toNat) ?_ ?_ .start ?_
    · intro state next reached stays turned
      have forward := (turn_ahead turned).mpr (ahead state reached)
      have inside := exit_eq_none.mp stays
      omega
    · intro state reached zero stays
      have inside := exit_eq_none.mp stays
      omega
    · simp [BpfState.initial]
  obtain ⟨outcome, returned⟩ := returns
  have regular : ∃ value, outcome = .returned value := by
    refine Loop.run_result (fun outcome => ∃ value, outcome = .returned value) ?_ ?_ .start returned
    · intro state outcome _ left
      simp only [filterLoop] at left
      split at left
      · cases left
      · cases left
        exact ⟨_, rfl⟩
    · intro state outcome reached stays left
      obtain ⟨inst, fetched⟩ :=
        SockFprog.exists_fetch (reached_nonneg ahead reached) (exit_eq_none.mp stays)
      simp only [filterLoop, fetched] at left
      split at left
      · cases left
        exact ⟨_, rfl⟩
      · cases left
  obtain ⟨value, rfl⟩ := regular
  exact ⟨value, returned⟩

end

/-- Every fetch is inside the program, and every load inside the data. -/
def Confined (sd : Block) (prog : SockFprog) : Prop :=
  ∀ state, (filterLoop sd prog).Reaches .initial state → state.pc < prog.len →
    0 ≤ state.pc ∧ ∀ inst, prog.fetch state.pc = some inst → inst.LoadsInside

/-- Every instruction executed jumps ahead and loads inside. -/
def Regular (sd : Block) (prog : SockFprog) : Prop :=
  ∀ state, (filterLoop sd prog).Reaches .initial state →
    ∀ inst, prog.fetch state.pc = some inst → inst.JumpsAhead state.pc ∧ inst.LoadsInside

def GoesAhead (sd : Block) (prog : SockFprog) : Prop :=
  ∀ state next, (filterLoop sd prog).Reaches .initial state →
    (filterLoop sd prog).body state = .inl next → state.pc < next.pc

theorem Regular.confined (regular : Regular sd prog) : Confined sd prog := by
  intro state reached _
  refine ⟨reached_nonneg (fun state reached inst fetched => (regular state reached inst fetched).1) reached, ?_⟩
  exact fun inst fetched => (regular state reached inst fetched).2

/-- Outside of the condition a run leaves the program or the data, or goes
back. -/
theorem regular_iff : Regular sd prog ↔ Confined sd prog ∧ GoesAhead sd prog := by
  constructor
  · intro regular
    refine ⟨regular.confined, fun state next reached turned => ?_⟩
    exact (turn_ahead turned).mpr fun inst fetched => (regular state reached inst fetched).1
  · rintro ⟨confined, forward⟩ state reached inst fetched
    obtain ⟨-, upper, -⟩ := SockFprog.fetch_eq_some fetched
    refine ⟨fun jump => ?_, (confined state reached upper).2 inst fetched⟩
    have turned : ∃ next, (filterLoop sd prog).body state = .inl next := by
      simp only [filterLoop, fetched, execute, jump]
      exact ⟨_, rfl⟩
    obtain ⟨next, turned⟩ := turned
    exact (turn_ahead turned).mp (forward state next reached turned) inst fetched jump

/-- A run whose instructions all jump ahead and load inside returns after at most `len` of
them, and neither fetches nor loads outside.  These runs are those that stay inside and
never go back. -/
theorem accepted_filter_confined_iff {before after : SeccompState} {memory : Option Nat} {buffer : Bool}
    (accepted : seccompAttachFilter before prog memory buffer = some (0, after)) :
    ∃ addr filter, after.currentProcess = some ⟨some addr⟩ ∧ after.filters addr = some filter ∧
      ∀ sd, (Regular sd filter.prog →
          (∃ value, seccompRunFilter filter.prog.len sd filter.prog = some (.returned value)) ∧
            Confined sd filter.prog) ∧
        (Regular sd filter.prog ↔ Confined sd filter.prog ∧ GoesAhead sd filter.prog) := by
  simp only [seccompAttachFilter] at accepted
  split at accepted
  · cases accepted
  · cases accepted
  · rename_i addr _
    split at accepted
    · cases accepted
    · cases accepted
      refine ⟨addr, _, rfl, Function.update_self .., fun sd => ⟨fun regular => ?_, regular_iff⟩⟩
      refine ⟨runFilter_returns fun state reached inst fetched => ?_, regular.confined⟩
      exact (regular state reached inst fetched).1

def SeccompState.fresh : SeccompState := ⟨fun _ => none, some ⟨none⟩⟩

def singleInst (code : UInt16) (k : UInt32) : SockFprog := ⟨[⟨code, 0, 0, k⟩], by simp⟩

/-- `BPF_RET+BPF_K` with `SECCOMP_RET_ALLOW` -/
def allowAll : SockFprog := singleInst 0x06 seccompRetAllow

/-- A jump over a `BPF_RET+BPF_K` to a load of the last word of the data, which is returned. -/
def jumpThenLoad : SockFprog :=
  ⟨[⟨0x05, 0, 0, 1⟩, ⟨0x06, 0, 0, seccompRetKill⟩, ⟨0x20, 0, 0, 60⟩, ⟨0x16, 0, 0, 0⟩], by simp⟩

theorem accepted_filter_confined_iff_jump :
    (∃ value, seccompRunFilter 4 Block.zero jumpThenLoad = some (.returned value)) ∧
      Confined Block.zero jumpThenLoad := by
  have accepted : seccompAttachFilter .fresh jumpThenLoad (some 7) true = some (0, _) := rfl
  obtain ⟨addr, filter, head, stored, confined⟩ := accepted_filter_confined_iff accepted
  cases head
  cases stored
  refine (confined Block.zero).1 fun state _ inst fetched => ?_
  obtain ⟨-, upper, listed⟩ := SockFprog.fetch_eq_some fetched
  have short : ∀ inst ∈ jumpThenLoad.filter, inst.k.toNat ≤ 60 := by decide
  have least := short inst listed
  have early : state.pc < 4 := upper
  exact ⟨fun _ => by omega, fun _ _ => show _ ≤ 64 by omega⟩

/-- Three accepted programs: a jump to itself, a jump in front of the program,
and a load of the last three bytes and one behind the data. -/
theorem accepted_filters_escape :
    ((seccompAttachFilter .fresh (singleInst 0x05 0xFFFFFFFF) (some 7) true).map Prod.fst = some 0 ∧
      ∀ fuel, seccompRunFilter fuel Block.zero (singleInst 0x05 0xFFFFFFFF) = none) ∧
    ((seccompAttachFilter .fresh (singleInst 0x05 0xFFFFFFF0) (some 7) true).map Prod.fst = some 0 ∧
      ¬ Confined Block.zero (singleInst 0x05 0xFFFFFFF0)) ∧
    (seccompAttachFilter .fresh (singleInst 0x20 61) (some 7) true).map Prod.fst = some 0 ∧
      ¬ Confined Block.zero (singleInst 0x20 61) := by
  refine ⟨⟨rfl, Loop.run_cycle rfl rfl⟩, ⟨rfl, fun confined => ?_⟩, rfl, fun confined => ?_⟩
  · have reached : (filterLoop Block.zero (singleInst 0x05 0xFFFFFFF0)).Reaches .initial ⟨-15, 0, 0⟩ :=
      .turn .start rfl rfl
    exact absurd (confined _ reached (by decide)).1 (by decide)
  · have inside := (confined _ .start (by decide)).2 _ rfl rfl (by decide)
    exact absurd inside (by decide)

end Rucix.Security
