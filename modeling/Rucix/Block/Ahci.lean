import Rucix.Block.Model
import Rucix.Data.Word

namespace Rucix.Block

open Rucix.Data

/-! The commands of `kernel/drivers/block/ahci.c`.

`ahci_read` and `ahci_write` fill the command table of a slot; the search for the slot
and the wait for its completion are left out.  The pages of a buffer are mapped, to
the frames that `frames` gives.
-/

/-- A range of `dbc + 1` physical bytes. -/
structure PrdtEntry where
  dba : Nat
  dbau : Nat
  dbc : Nat

/-- The command header, the command FIS and the first `prdtl` entries of the PRDT. -/
structure AhciCommand where
  w : Bool
  lba0 : Nat
  lba1 : Nat
  lba2 : Nat
  lba3 : Nat
  lba4 : Nat
  lba5 : Nat
  countl : Nat
  counth : Nat
  prdt : List PrdtEntry

section

variable (frames : Nat → Fin (2 ^ 40))

def vmmGetPhys (virt : Nat) : Nat := frames (virt / 4096) * 4096 + virt % 4096

/-- The whole buffer goes into one entry.  The entries behind it stay as `memset`
has left them. -/
def fillPrdt (prdtl count buf : Nat) : List PrdtEntry :=
  let physBuf := vmmGetPhys frames buf
  { dba := wrap 32 physBuf
    dbau := wrap 32 (physBuf / 2 ^ 32)
    dbc := wrap 22 (wrapSub 32 (wrap 32 (count * 512)) 1) } ::
    List.replicate (prdtl - 1) { dba := 0, dbau := 0, dbc := 0 }

def fillCommand (w : Bool) (prdtl startl starth count buf : Nat) : AhciCommand :=
  { w
    lba0 := wrap 8 startl
    lba1 := wrap 8 (startl / 2 ^ 8)
    lba2 := wrap 8 (startl / 2 ^ 16)
    lba3 := wrap 8 (startl / 2 ^ 24)
    lba4 := wrap 8 starth
    lba5 := wrap 8 (starth / 2 ^ 8)
    countl := wrap 8 count
    counth := wrap 8 (count / 2 ^ 8)
    prdt := fillPrdt frames prdtl count buf }

def ahciRead (startl starth count buf : Nat) : AhciCommand :=
  fillCommand frames false (wrap 16 (wrap 16 (wrapSub 32 count 1 / 2 ^ 4) + 1)) startl starth count buf

def ahciWrite (startl starth count buf : Nat) : AhciCommand :=
  fillCommand frames true 1 startl starth count buf

/-- The command for one request.  The sector is passed as a `uint32_t`. -/
def ahciRequest (req : Request) : AhciCommand :=
  if req.flags = write then ahciWrite frames (wrap 32 req.sector) 0 req.nrSectors req.buffer
  else ahciRead frames (wrap 32 req.sector) 0 req.nrSectors req.buffer

end

/-! What a command means to the controller. -/

def AhciCommand.lba (command : AhciCommand) : Nat :=
  command.lba0 + command.lba1 * 2 ^ 8 + command.lba2 * 2 ^ 16 + command.lba3 * 2 ^ 24 +
    command.lba4 * 2 ^ 32 + command.lba5 * 2 ^ 40

/-- A count of 0 means 65536 sectors. -/
def AhciCommand.sectorCount (command : AhciCommand) : Nat :=
  if command.countl + command.counth * 2 ^ 8 = 0 then 65536
  else command.countl + command.counth * 2 ^ 8

def PrdtEntry.bytes (entry : PrdtEntry) : List Nat :=
  (List.range (entry.dbc + 1)).map (entry.dba + entry.dbau * 2 ^ 32 + ·)

def AhciCommand.bytes (command : AhciCommand) : List Nat := command.prdt.flatMap PrdtEntry.bytes

structure Transfers (frames : Nat → Fin (2 ^ 40)) (req : Request) (command : AhciCommand) : Prop where
  direction : command.w = decide (req.flags = write)
  lba : command.lba = req.sector
  count : command.sectorCount = req.nrSectors
  bytes : command.bytes = (List.range (512 * req.nrSectors)).map fun offset =>
    vmmGetPhys frames (req.buffer + offset)

variable {frames : Nat → Fin (2 ^ 40)}

theorem vmmGetPhys_lt : vmmGetPhys frames virt < 2 ^ 52 := by
  unfold vmmGetPhys
  omega

theorem fillCommand_lba (small : startl < 2 ^ 32) :
    (fillCommand frames w prdtl startl 0 count buf).lba = startl := by
  simp only [AhciCommand.lba, fillCommand, wrap]
  omega

theorem fillCommand_sectorCount (low : 1 ≤ count) (high : count ≤ 65536) :
    (fillCommand frames w prdtl startl starth count buf).sectorCount = count := by
  have fields : wrap 8 count + wrap 8 (count / 2 ^ 8) * 2 ^ 8 = count % 65536 := by
    simp only [wrap]
    omega
  change (if wrap 8 count + wrap 8 (count / 2 ^ 8) * 2 ^ 8 = 0 then _ else _) = _
  rw [fields]
  by_cases full : count % 65536 = 0
  · rw [if_pos full]
    omega
  · rw [if_neg full]
    change wrap 8 count + wrap 8 (count / 2 ^ 8) * 2 ^ 8 = count
    omega

theorem fillPrdt_bytes (low : 1 ≤ count) (high : count ≤ 65536) :
    (fillPrdt frames prdtl count buf).flatMap PrdtEntry.bytes =
      (List.range ((512 * count - 1) % 2 ^ 22 + 1)).map (vmmGetPhys frames buf + ·) ++
        List.replicate (prdtl - 1) 0 := by
  have small : vmmGetPhys frames buf < 2 ^ 52 := vmmGetPhys_lt
  have address : wrap 32 (vmmGetPhys frames buf) + wrap 32 (vmmGetPhys frames buf / 2 ^ 32) * 2 ^ 32 =
      vmmGetPhys frames buf := by
    simp only [wrap]
    omega
  have size : wrap 22 (wrapSub 32 (wrap 32 (count * 512)) 1) = (512 * count - 1) % 2 ^ 22 := by
    rw [wrap_of_lt (show count * 512 < 2 ^ 32 by omega), wrapSub_of_le (by omega) (by omega),
      Nat.mul_comm]
    rfl
  rw [fillPrdt, List.flatMap_cons, PrdtEntry.bytes, address, size, List.flatMap_replicate]
  simp [PrdtEntry.bytes]

/-- One entry that holds all bytes, in physically contiguous frames. -/
theorem fillPrdt_bytes_iff (low : 1 ≤ count) (high : count ≤ 65536) (entries : 1 ≤ prdtl)
    (few : prdtl ≤ 4096) :
    (fillPrdt frames prdtl count buf).flatMap PrdtEntry.bytes =
        (List.range (512 * count)).map (fun offset => vmmGetPhys frames (buf + offset)) ↔
      count ≤ 8192 ∧ prdtl = 1 ∧
        ∀ offset, offset < 512 * count → vmmGetPhys frames (buf + offset) = vmmGetPhys frames buf + offset := by
  rw [fillPrdt_bytes low high]
  constructor
  · intro same
    have lengths := congrArg List.length same
    simp only [List.length_append, List.length_map, List.length_range, List.length_replicate] at lengths
    obtain rfl : prdtl = 1 := by omega
    have short : count ≤ 8192 := by omega
    rw [Nat.mod_eq_of_lt (by omega), Nat.sub_add_cancel (by omega), List.replicate_zero,
      List.append_nil] at same
    exact ⟨short, rfl, fun offset inside =>
      (List.map_inj_left.mp same offset (List.mem_range.mpr inside)).symm⟩
  · rintro ⟨short, rfl, contiguous⟩
    rw [Nat.mod_eq_of_lt (by omega), Nat.sub_add_cancel (by omega), List.replicate_zero,
      List.append_nil]
    exact List.map_inj_left.mpr fun offset inside => (contiguous offset (List.mem_range.mp inside)).symm

/-- A write has one entry, a read one for every 16 sectors. -/
theorem ahciRequest_eq (low : 1 ≤ req.nrSectors) (high : req.nrSectors ≤ 65536) :
    ahciRequest frames req = fillCommand frames (decide (req.flags = write))
      (if req.flags = write then 1 else (req.nrSectors - 1) / 16 + 1) (wrap 32 req.sector) 0
      req.nrSectors req.buffer := by
  unfold ahciRequest
  by_cases isWrite : req.flags = write
  · rw [if_pos isWrite, if_pos isWrite, decide_eq_true isWrite]
    rfl
  · have entries : wrap 16 (wrap 16 (wrapSub 32 req.nrSectors 1 / 2 ^ 4) + 1) =
        (req.nrSectors - 1) / 16 + 1 := by
      rw [wrapSub_of_le low (by omega)]
      simp only [wrap]
      omega
    rw [if_neg isWrite, if_neg isWrite, decide_eq_false isWrite, ahciRead, entries]

theorem ahci_request_transfers_iff (req : Request) (low : 1 ≤ req.nrSectors) (high : req.nrSectors ≤ 65536) :
    Transfers frames req (ahciRequest frames req) ↔
      req.sector < 2 ^ 32 ∧ req.nrSectors ≤ (if req.flags = write then 8192 else 16) ∧
        ∀ offset, offset < 512 * req.nrSectors →
          vmmGetPhys frames (req.buffer + offset) = vmmGetPhys frames req.buffer + offset := by
  rw [ahciRequest_eq low high]
  generalize isEntries : (if req.flags = write then 1 else (req.nrSectors - 1) / 16 + 1) = prdtl
  have limit : req.nrSectors ≤ (if req.flags = write then 8192 else 16) ↔
      req.nrSectors ≤ 8192 ∧ prdtl = 1 := by
    by_cases isWrite : req.flags = write
    · rw [if_pos isWrite] at isEntries ⊢
      omega
    · rw [if_neg isWrite] at isEntries ⊢
      omega
  have some : 1 ≤ prdtl := by split at isEntries <;> omega
  have few : prdtl ≤ 4096 := by split at isEntries <;> omega
  rw [limit, and_assoc]
  constructor
  · rintro ⟨-, lba, -, bytes⟩
    rw [fillCommand_lba (wrap_lt 32 req.sector)] at lba
    exact ⟨lba ▸ wrap_lt 32 req.sector, (fillPrdt_bytes_iff low high some few).mp bytes⟩
  · rintro ⟨near, contiguous⟩
    refine ⟨rfl, ?_, fillCommand_sectorCount low high,
      (fillPrdt_bytes_iff low high some few).mpr contiguous⟩
    rw [fillCommand_lba (wrap_lt 32 req.sector), wrap_of_lt near]

def plainRequest (sector nrSectors flags : Nat) : Request := { sector, nrSectors, buffer := 0, bio := [], flags }

/-- One sector in one page. -/
theorem ahci_request_transfers_sector :
    Transfers (fun _ => 5) (plainRequest 7 1 read) (ahciRequest (fun _ => 5) (plainRequest 7 1 read)) := by
  refine (ahci_request_transfers_iff _ (by decide) (by decide)).mpr ⟨by decide, by decide, ?_⟩
  intro offset inside
  change offset < 512 at inside
  change 5 * 4096 + (0 + offset) % 4096 = 5 * 4096 + 0 + offset
  omega

/-- A write to a sector behind 2 TiB goes to sector 0, and the second page of a buffer is
taken from the frame behind the first one. -/
theorem ahci_request_truncates :
    (ahciRequest (fun _ => 5) (plainRequest (2 ^ 32) 1 write)).lba = 0 ∧
      ∃ frames : Nat → Fin (2 ^ 40), vmmGetPhys frames 4096 = 0 ∧
        ¬ Transfers frames (plainRequest 7 16 read) (ahciRequest frames (plainRequest 7 16 read)) := by
  refine ⟨by decide, fun page => if page = 0 then 5 else 0, by decide, fun transfers => ?_⟩
  obtain ⟨-, -, contiguous⟩ :=
    (fillPrdt_bytes_iff (by decide) (by decide) (by decide) (by decide)).mp transfers.bytes
  exact absurd (contiguous 4096 (by decide)) (by decide)

end Rucix.Block
