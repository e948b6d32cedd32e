import Rucix.Fs.Fat32.Directory

namespace Rucix.Fs.Fat32

open Rucix.Data Function

/-! `fat32_create` and `fat32_mkdir`. -/

variable {sbi : SbInfo} {volume middle after : Volume} {chains afterChains : Nat → List Nat}
  {dir cluster : Nat} {rest : List Nat}

/-- The chains only grow, and `new` is the one that begins. -/
structure Keeps (sbi : SbInfo) (volume : Volume) (chains : Nat → List Nat) (after : Volume)
    (afterChains : Nat → List Nat) (new : Option Nat) : Prop where
  wellFormed : Chains sbi after.fat afterChains
  top : after.top = volume.top
  kept : ∀ head, chains head <+: afterChains head
  heads : ∀ head, afterChains head ≠ [] ↔ chains head ≠ [] ∨ new = some head
  fresh : ∀ head, new = some head → chains head = []

namespace Keeps

theorem refl (wellFormed : Chains sbi volume.fat chains) (fat : after.fat = volume.fat) (top : after.top = volume.top) :
    Keeps sbi volume chains after chains none :=
  ⟨fat ▸ wellFormed, top, fun _ => List.prefix_rfl, by simp, nofun⟩

theorem trans (first : Keeps sbi volume chains middle middleChains new)
    (second : Keeps sbi middle middleChains after afterChains none) :
    Keeps sbi volume chains after afterChains new where
  wellFormed := second.wellFormed
  top := second.top.trans first.top
  kept head := (first.kept head).trans (second.kept head)
  heads head := by
    rw [second.heads, first.heads]
    simp
  fresh := first.fresh

theorem of_effect (effect : Effect sbi dir dirs volume chains after afterChains) (used : chains dir ≠ []) :
    Keeps sbi volume chains after afterChains none := by
  obtain ⟨extra, isAfter, -⟩ := effect.grown
  refine ⟨effect.wellFormed, effect.top, fun head => ?_, fun head => ?_, nofun⟩
  all_goals
    by_cases same : head = dir
    · subst same
      simp [isAfter, used]
    · simp [effect.other_chain same]

theorem of_allocated (addressable : Addressable sbi) (wellFormed : Chains sbi volume.fat chains)
    (allocated : Allocated sbi volume 0 cluster after) :
    Keeps sbi volume chains after (update chains cluster [cluster]) (some cluster) := by
  refine ⟨allocated.start addressable wellFormed rfl, allocated.top, fun head => ?_, fun head => ?_,
    fun head isNew => Option.some.inj isNew ▸ wellFormed.unused allocated.free⟩
  all_goals
    by_cases same : head = cluster
    · subst same
      simp [wellFormed.unused allocated.free]
    · simp [same, Ne.symm same]

end Keeps

variable (addressable : Addressable sbi)
include addressable

section

variable (wellFormed : Chains sbi volume.fat chains)
include wellFormed

theorem createEntry_finishes (shape : chains dir = dir :: rest) : ∃ result after,
      Finishes (Represents sbi) (fun fuel => createEntry sbi fuel dir name isDir) volume result after ∧
      ((result = none ∧ after.fat = volume.fat ∧ after.top = volume.top) ∨
        ∃ cluster middle afterChains, result = some cluster ∧ Allocated sbi volume 0 cluster middle ∧
          Added sbi dir { name, cluster, size := 0, isDir } middle
            (update chains cluster [cluster]) after afterChains) := by
  rcases allocCluster_yields addressable (.inl rfl) with
    ⟨failed, -⟩ | ⟨cluster, middle, nonzero, returned, allocated⟩
  · refine ⟨none, volume, .bind failed ?_, .inl ⟨rfl, rfl, rfl⟩⟩
    exact .pure
  · have different : dir ≠ cluster := by
      rintro rfl
      exact wellFormed.unlisted allocated.free dir (by simp [shape])
    obtain ⟨status, after, afterChains, added, outcome⟩ := addEntry_finishes addressable
      (allocated.start addressable wellFormed rfl) { name, cluster, size := 0, isDir }
      (show update chains cluster [cluster] dir ≠ [] by simp [different, shape])
    rcases outcome with ⟨rfl, rfl, -, -⟩ | ⟨rfl, isAdded⟩
    · have freed := writeFatEntry_yields addressable.toGeometry
        (allocated.placed addressable).toIndexed after 0
      refine ⟨none, after.setFat cluster 0, .bind returned ?_, .inl ⟨rfl, ?_, allocated.top⟩⟩
      · simp only [if_neg nonzero]
        exact .bind added (.bind (.bind freed (.pure)) (.pure))
      · change update after.fat cluster 0 = volume.fat
        rw [allocated.fat, if_pos rfl, update_idem, ← allocated.free, update_eq_self]
    · refine ⟨some cluster, after, .bind returned ?_,
        .inr ⟨cluster, middle, afterChains, rfl, allocated, isAdded⟩⟩
      simp only [if_neg nonzero]
      exact .bind added (.pure)

theorem createEntry_keeps (shape : chains dir = dir :: rest) : ∃ new after afterChains,
      Finishes (Represents sbi) (fun fuel => createEntry sbi fuel dir name isDir) volume new after ∧
      Keeps sbi volume chains after afterChains new := by
  obtain ⟨result, after, finishes, outcome⟩ :=
    createEntry_finishes addressable wellFormed shape
  rcases outcome with ⟨rfl, fat, top⟩ | ⟨cluster, middle, afterChains, rfl, allocated, added⟩
  · exact ⟨none, after, chains, finishes, .refl wellFormed fat top⟩
  · have started := Keeps.of_allocated addressable wellFormed allocated
    refine ⟨some cluster, after, afterChains, finishes, started.trans (.of_effect added.effect ?_)⟩
    exact (started.heads dir).mpr (.inl (by simp [shape]))

theorem addEntry_keeps (used : chains dir ≠ []) : ∃ status after afterChains,
      Finishes (Represents sbi) (fun fuel => addEntry sbi entry fuel dir) volume status after ∧
      Keeps sbi volume chains after afterChains none := by
  obtain ⟨status, after, afterChains, finishes, outcome⟩ :=
    addEntry_finishes addressable wellFormed entry used
  refine ⟨status, after, afterChains, finishes, ?_⟩
  rcases outcome with ⟨-, rfl, rfl, -⟩ | ⟨-, added⟩
  · exact .refl wellFormed rfl rfl
  · exact .of_effect added.effect used

theorem create_keeps (used : chains dir ≠ []) : ∃ new entered value after afterChains,
      Finishes (Represents sbi) (fun fuel => createEntry sbi fuel dir name false) volume new entered ∧
      Finishes (Represents sbi) (fun fuel => create sbi fuel dir name memory) volume value after ∧
      Keeps sbi volume chains after afterChains new := by
  obtain ⟨rest, shape⟩ := wellFormed.shape used
  obtain ⟨new, after, afterChains, finishes, keeps⟩ :=
    createEntry_keeps addressable wellFormed shape
  cases new with
  | none | some => exact ⟨_, after, _, after, afterChains, finishes, .bind finishes (.pure), keeps⟩

theorem mkdir_keeps (used : chains dir ≠ []) : ∃ new entered value after afterChains,
      Finishes (Represents sbi) (fun fuel => createEntry sbi fuel dir name true) volume new entered ∧
      Finishes (Represents sbi) (fun fuel => mkdir sbi fuel dir name memory) volume value after ∧
      Keeps sbi volume chains after afterChains new := by
  obtain ⟨rest, shape⟩ := wellFormed.shape used
  obtain ⟨new, entered, enteredChains, finishes, keeps⟩ :=
    createEntry_keeps addressable wellFormed shape
  cases new with
  | none =>
    exact ⟨none, entered, (-1, none), entered, enteredChains, finishes,
      .bind finishes (.pure), keeps⟩
  | some cluster =>
    cases memory with
    | false =>
      exact ⟨some cluster, entered, (-1, none), entered, enteredChains, finishes,
        .bind finishes (.pure), keeps⟩
    | true =>
      have isNew := (keeps.heads cluster).mpr (.inr rfl)
      obtain ⟨status, dotted, dottedChains, dot, keepsDot⟩ := addEntry_keeps addressable keeps.wellFormed
        isNew
      obtain ⟨status', after, afterChains, dotDot, keepsDotDot⟩ := addEntry_keeps addressable
        keepsDot.wellFormed ((keepsDot.heads cluster).mpr (.inl isNew))
      exact ⟨some cluster, entered, (0, some { ino := cluster, size := 0 }), after, afterChains,
        finishes, .bind finishes (.bind dot (.bind dotDot (.pure))),
        (keeps.trans keepsDot).trans keepsDotDot⟩

end

end Rucix.Fs.Fat32
