import AstraOS.Memory.MapWalk

/-! Which frames `pmm_init` leaves free, in exact integers, and how that set
compares with the memory that the map declares available. -/

namespace AstraOS.Memory

open Foundation

/-- The frames that the loop for an entry visits. An entry whose end lies
beyond 2^64 is cut off by the wrapped comparison: unless the wrapped end falls
inside the first page of the region, nothing of it is visited. -/
def MmapEntry.Clears (entry : MmapEntry) (frame : Nat) : Prop :=
  entry.type = 1#32 ∧ entry.addr.toNat < 2 ^ 32 ∧ entry.addr.toNat / 4096 ≤ frame ∧
    if entry.addr.toNat + entry.len.toNat < 2 ^ 64 then
      frame < entry.addr.toNat / 4096 + min entry.len.toNat (2 ^ 32 - entry.addr.toNat) / 4096
    else entry.addr.toNat + entry.len.toNat - 2 ^ 64 < entry.addr.toNat % 4096 ∧ frame < 2 ^ 20

instance (entry : MmapEntry) (frame : Nat) : Decidable (entry.Clears frame) :=
  inferInstanceAs (Decidable (_ ∧ _ ∧ _ ∧ ite _ _ _))

private theorem frameSize_toNat : (4096#64).toNat = 4096 := by decide
private theorem fourGiB_toNat : (0x100000000#64).toNat = 4294967296 := by decide

theorem firstFrame_toNat (entry : MmapEntry) (low : entry.addr.toNat < 2 ^ 32) :
    (firstFrame entry).toNat = entry.addr.toNat / 4096 := by
  rw [firstFrame, BitVec.toNat_setWidth, BitVec.toNat_udiv, frameSize_toNat]
  omega

/-- Below 2^64 the clamp is the minimum it stands for. -/
theorem regionLen_toNat (entry : MmapEntry) (low : entry.addr.toNat < 2 ^ 32)
    (fits : entry.addr.toNat + entry.len.toNat < 2 ^ 64) :
    (regionLen entry).toNat = min entry.len.toNat (2 ^ 32 - entry.addr.toNat) := by
  have sum : (entry.addr + entry.len).toNat = entry.addr.toNat + entry.len.toNat := by
    rw [BitVec.toNat_add, Nat.mod_eq_of_lt fits]
  unfold regionLen
  split
  · rename_i beyond
    rw [gt_iff_lt, BitVec.lt_def, sum, fourGiB_toNat] at beyond
    rw [BitVec.toNat_sub, fourGiB_toNat]
    omega
  · rename_i within
    rw [gt_iff_lt, BitVec.lt_def, sum, fourGiB_toNat] at within
    omega

theorem numFrames_toNat (entry : MmapEntry) (low : entry.addr.toNat < 2 ^ 32)
    (fits : entry.addr.toNat + entry.len.toNat < 2 ^ 64) :
    (numFrames entry).toNat = min entry.len.toNat (2 ^ 32 - entry.addr.toNat) / 4096 := by
  rw [numFrames, BitVec.toNat_setWidth, BitVec.toNat_udiv, frameSize_toNat, regionLen_toNat entry low fits]
  omega

/-- Past 2^64 the comparison sees a small sum, and the whole length is kept. -/
theorem numFrames_toNat_wrapped (entry : MmapEntry) (low : entry.addr.toNat < 2 ^ 32)
    (wraps : 2 ^ 64 ≤ entry.addr.toNat + entry.len.toNat) :
    (numFrames entry).toNat = entry.len.toNat / 4096 % 2 ^ 32 := by
  have whole : regionLen entry = entry.len := by
    have bound := entry.len.isLt
    unfold regionLen
    rw [if_neg]
    rw [gt_iff_lt, BitVec.lt_def, BitVec.toNat_add, fourGiB_toNat]
    omega
  rw [numFrames, BitVec.toNat_setWidth, BitVec.toNat_udiv, frameSize_toNat, whole]

theorem mem_entryFrames (entry : MmapEntry) (frame : Nat) :
    frame ∈ entryFrames entry ↔ entry.Clears frame := by
  have bound := entry.len.isLt
  unfold entryFrames MmapEntry.Clears
  by_cases available : entry.type = 1#32 ∧ entry.addr < 0x100000000#64
  · have low : entry.addr.toNat < 2 ^ 32 := by
      rw [BitVec.lt_def, fourGiB_toNat] at available
      exact available.2
    rw [if_pos available, Finset.mem_Ico, BitVec.toNat_add, firstFrame_toNat entry low]
    simp only [available.1, low, true_and]
    unfold pmmMaxFrames
    split
    · rename_i fits
      rw [numFrames_toNat entry low fits]
      omega
    · rename_i wraps
      rw [numFrames_toNat_wrapped entry low (by omega)]
      omega
  · rw [if_neg available]
    simp only [Finset.notMem_empty, false_iff]
    rintro ⟨type, low, _⟩
    refine available ⟨type, ?_⟩
    rw [BitVec.lt_def, fourGiB_toNat]
    exact low

/-- The state that `pmm_init` leaves on a well-formed map: the frames that
some record clears, less those that step 3 takes back. -/
theorem PmmInit.mem_freeSet (init : PmmInit memory info kernelEndPhys pmm)
    (map : WellFormedMap memory info records) :
    frame ∈ pmm.freeSet ↔ (∃ record ∈ records, record.Clears frame) ∧
      256 ≤ frame ∧ kernelEndFrame kernelEndPhys ≤ frame := by
  rw [init.unique (pmmInit_records map kernelEndPhys), mem_pmmInitReserve,
    (foldl_releaseEntry_effect _ _).1]
  simp [mem_entryFrames]

theorem PmmInit.clear_iff (init : PmmInit memory info kernelEndPhys pmm)
    (map : WellFormedMap memory info records) (inside : frame < pmmMaxFrames) :
    bitmapTest pmm.bitmap frame = false ↔ (∃ record ∈ records, record.Clears frame) ∧
      256 ≤ frame ∧ kernelEndFrame kernelEndPhys ≤ frame := by
  rw [← init.mem_freeSet map, Memory.mem_freeSet]
  simp [inside]

/-- A page-aligned region above 1 MiB, as emulators report it. -/
def alignedRegion : MapRecord :=
  ⟨⟨20#32, 0x100000#64, 0x7EE0000#64, 1#32⟩, [], by decide⟩

theorem alignedRegion_map : WellFormedMap (bootMemory 0x9000#32 [alignedRegion])
    (bootInfo 0x9000#32 [alignedRegion]) [alignedRegion] :=
  wellFormed_boot 0x9000#32 [alignedRegion] (by decide)

/-- `pmm_init` computes the free set from the raw bytes of the map, provided
that no region reaches beyond the 64-bit address space. -/
theorem pmmInit_free_iff (map : WellFormedMap memory info records)
    (sums : ∀ record ∈ records, record.addr.toNat + record.len.toNat < 2 ^ 64)
    (small : kernelEndPhys ≤ 0xFFFFF000#32) :
    ∃ pmm, PmmInit memory info kernelEndPhys pmm ∧ ∀ frame < 2 ^ 20,
      (bitmapTest pmm.bitmap frame = false ↔
        (∃ record ∈ records, record.type = 1#32 ∧ record.addr.toNat < 2 ^ 32 ∧
          record.addr.toNat / 4096 ≤ frame ∧ frame < record.addr.toNat / 4096 +
            min record.len.toNat (2 ^ 32 - record.addr.toNat) / 4096) ∧
        256 ≤ frame ∧ (kernelEndPhys.toNat + 4095) / 4096 ≤ frame) := by
  obtain ⟨pmm, init⟩ := pmmInit_returns map kernelEndPhys
  refine ⟨pmm, init, ?_⟩
  intro frame inside
  have rounded : kernelEndFrame kernelEndPhys ≤ frame ↔ (kernelEndPhys.toNat + 4095) / 4096 ≤ frame := by
    rw [kernelEndFrame_le_iff small]
    omega
  have exact : (∃ record ∈ records, record.Clears frame) ↔
      ∃ record ∈ records, record.type = 1#32 ∧ record.addr.toNat < 2 ^ 32 ∧
        record.addr.toNat / 4096 ≤ frame ∧ frame < record.addr.toNat / 4096 +
          min record.len.toNat (2 ^ 32 - record.addr.toNat) / 4096 := by
    refine exists_congr fun record => and_congr_right fun member => ?_
    rw [MmapEntry.Clears, if_pos (sums record member)]
  rw [init.clear_iff map inside, exact, rounded]

theorem pmmInit_free_iff_alignedRegion :
    ∃ pmm, PmmInit (bootMemory 0x9000#32 [alignedRegion]) (bootInfo 0x9000#32 [alignedRegion])
      0x180000#32 pmm ∧ bitmapTest pmm.bitmap 0x180 = false ∧ bitmapTest pmm.bitmap 0x17F = true := by
  obtain ⟨pmm, init, exact⟩ := pmmInit_free_iff alignedRegion_map
    (by intro record member; obtain rfl := List.mem_singleton.mp member; decide)
    (by decide : 0x180000#32 ≤ 0xFFFFF000#32)
  refine ⟨pmm, init, ?_, ?_⟩
  · exact (exact 0x180 (by decide)).mpr
      ⟨⟨alignedRegion, List.mem_singleton_self _, by decide⟩, by decide, by decide⟩
  · by_contra used
    have kept := ((exact 0x17F (by decide)).mp (by simpa using used)).2.2
    exact absurd kept (by decide)

/-- A byte that the map declares available. -/
def Available (records : List MapRecord) (byte : Nat) : Prop :=
  ∃ record ∈ records, record.type = 1#32 ∧
    record.addr.toNat ≤ byte ∧ byte < record.addr.toNat + record.len.toNat

/-- Every byte of every free frame is available memory. -/
def OnlyAvailable (records : List MapRecord) (pmm : Pmm) : Prop :=
  ∀ frame < 2 ^ 20, bitmapTest pmm.bitmap frame = false →
    ∀ byte, 4096 * frame ≤ byte → byte < 4096 * frame + 4096 → Available records byte

/-- Where a record starts inside a frame that it frees, the part of that frame
below the record is available too. -/
def HeadsAvailable (records : List MapRecord) (kernelEndPhys : BitVec 32) : Prop :=
  ∀ record ∈ records, record.Clears (record.addr.toNat / 4096) →
    256 ≤ record.addr.toNat / 4096 → kernelEndFrame kernelEndPhys ≤ record.addr.toNat / 4096 →
    ∀ byte, 4096 * (record.addr.toNat / 4096) ≤ byte → byte < record.addr.toNat →
      Available records byte

theorem MmapEntry.Clears.first {entry : MmapEntry} (clears : entry.Clears frame) :
    entry.Clears (entry.addr.toNat / 4096) := by
  obtain ⟨type, low, above, range⟩ := clears
  refine ⟨type, low, le_rfl, ?_⟩
  split
  · rename_i fits
    rw [if_pos fits] at range
    omega
  · rename_i wraps
    rw [if_neg wraps] at range
    omega

/-- From its start on, a record covers the frames that it frees. -/
theorem MmapEntry.Clears.covers {entry : MmapEntry} (clears : entry.Clears frame)
    (inside : byte < 4096 * frame + 4096) : byte < entry.addr.toNat + entry.len.toNat := by
  obtain ⟨type, low, above, range⟩ := clears
  split at range
  · omega
  · omega

/-- The start of a region is rounded down, so `pmm_init` frees only available
memory exactly when the frames so opened are available as a whole. -/
theorem only_available_iff (map : WellFormedMap memory info records) (kernelEndPhys : BitVec 32) :
    ∃ pmm, PmmInit memory info kernelEndPhys pmm ∧
      (OnlyAvailable records pmm ↔ HeadsAvailable records kernelEndPhys) := by
  obtain ⟨pmm, init⟩ := pmmInit_returns map kernelEndPhys
  refine ⟨pmm, init, ?_, ?_⟩
  · intro only record member clears low high byte above below
    have start := clears.2.1
    have inside : record.addr.toNat / 4096 < 2 ^ 20 := by omega
    have free := (init.clear_iff map inside).mpr ⟨⟨record, member, clears⟩, low, high⟩
    exact only _ inside free byte above (by omega)
  · intro heads frame inside free byte above below
    obtain ⟨⟨record, member, clears⟩, low, high⟩ := (init.clear_iff map inside).mp free
    rcases Nat.lt_or_ge byte record.addr.toNat with before | after
    · -- only the record's first frame reaches below its start
      have same : frame = record.addr.toNat / 4096 := by
        have lower := clears.2.2.1
        omega
      subst frame
      exact heads record member clears.first low high byte above before
    · exact ⟨record, member, clears.1, after, clears.covers below⟩

theorem only_available_iff_alignedRegion :
    ∃ pmm, PmmInit (bootMemory 0x9000#32 [alignedRegion]) (bootInfo 0x9000#32 [alignedRegion])
      0x180000#32 pmm ∧ OnlyAvailable [alignedRegion] pmm := by
  obtain ⟨pmm, init, exact⟩ := only_available_iff alignedRegion_map 0x180000#32
  refine ⟨pmm, init, exact.mpr ?_⟩
  intro record member _ _ _ byte above below
  obtain rfl := List.mem_singleton.mp member
  exact absurd (lt_of_le_of_lt above below) (by decide)

/-- A record that starts in the middle of a frame. -/
def unalignedStart : MapRecord :=
  ⟨⟨20#32, 0x200800#64, 0x2000#64, 1#32⟩, [], by decide⟩

theorem unalignedStart_map : WellFormedMap (bootMemory 0x9000#32 [unalignedStart])
    (bootInfo 0x9000#32 [unalignedStart]) [unalignedStart] :=
  wellFormed_boot 0x9000#32 [unalignedStart] (by decide)

/-- Its first half page is handed out although no record declares it. -/
theorem unalignedStart_frees_unavailable :
    WellFormedMap (bootMemory 0x9000#32 [unalignedStart]) (bootInfo 0x9000#32 [unalignedStart]) [unalignedStart] ∧
    ∃ pmm, PmmInit (bootMemory 0x9000#32 [unalignedStart]) (bootInfo 0x9000#32 [unalignedStart])
      0x180000#32 pmm ∧ ¬ OnlyAvailable [unalignedStart] pmm := by
  obtain ⟨pmm, init⟩ := pmmInit_returns unalignedStart_map 0x180000#32
  refine ⟨unalignedStart_map, pmm, init, ?_⟩
  intro only
  have free : bitmapTest _ 0x200 = false := (init.clear_iff unalignedStart_map (by decide)).mpr
    ⟨⟨unalignedStart, List.mem_singleton_self _, by decide⟩, by decide, by decide⟩
  obtain ⟨record, member, _, start, _⟩ := only 0x200 (by decide) free 0x200000 (by decide) (by decide)
  obtain rfl := List.mem_singleton.mp member
  exact absurd start (by decide)

/-- Every frame inside a single available region, above 1 MiB and the kernel, is free. -/
def NoFrameLost (records : List MapRecord) (kernelEndPhys : BitVec 32) (pmm : Pmm) : Prop :=
  ∀ frame < 2 ^ 20,
    (∃ record ∈ records, record.type = 1#32 ∧ record.addr.toNat ≤ 4096 * frame ∧
      4096 * frame + 4096 ≤ record.addr.toNat + record.len.toNat) →
    0x100000 ≤ 4096 * frame → kernelEndPhys.toNat ≤ 4096 * frame →
    bitmapTest pmm.bitmap frame = false

/-- The frames inside an entry that its loop does not visit: the last one, if
the fractions cut from the start and from the length make up a page, or all of
them, if the entry reaches beyond 2^64. -/
def MmapEntry.Drops (entry : MmapEntry) (frame : Nat) : Prop :=
  entry.type = 1#32 ∧ entry.addr.toNat < 2 ^ 32 ∧
    if entry.addr.toNat + entry.len.toNat < 2 ^ 64 then
      4096 ≤ min entry.len.toNat (2 ^ 32 - entry.addr.toNat) ∧
      4096 ≤ entry.addr.toNat % 4096 + min entry.len.toNat (2 ^ 32 - entry.addr.toNat) % 4096 ∧
      frame = entry.addr.toNat / 4096 + min entry.len.toNat (2 ^ 32 - entry.addr.toNat) / 4096
    else entry.addr.toNat % 4096 ≤ entry.addr.toNat + entry.len.toNat - 2 ^ 64 ∧
      entry.addr.toNat ≤ 4096 * frame ∧ frame < 2 ^ 20

/-- Each dropped frame that is not reserved is freed by some record. -/
def DropsRescued (records : List MapRecord) (kernelEndPhys : BitVec 32) : Prop :=
  ∀ record ∈ records, ∀ frame, record.Drops frame → 256 ≤ frame →
    kernelEndPhys.toNat ≤ 4096 * frame → ∃ other ∈ records, other.Clears frame

theorem MmapEntry.clears_or_drops {entry : MmapEntry} (type : entry.type = 1#32)
    (start : entry.addr.toNat ≤ 4096 * frame)
    (stop : 4096 * frame + 4096 ≤ entry.addr.toNat + entry.len.toNat) (inside : frame < 2 ^ 20) :
    entry.Clears frame ∨ entry.Drops frame := by
  have low : entry.addr.toNat < 2 ^ 32 := by omega
  unfold MmapEntry.Clears MmapEntry.Drops
  by_cases fits : entry.addr.toNat + entry.len.toNat < 2 ^ 64
  · simp only [type, low, fits, if_true, true_and]
    omega
  · simp only [type, low, fits, if_false, true_and]
    omega

theorem MmapEntry.Drops.contained {entry : MmapEntry} (drops : entry.Drops frame) :
    entry.addr.toNat ≤ 4096 * frame ∧
      4096 * frame + 4096 ≤ entry.addr.toNat + entry.len.toNat ∧ frame < 2 ^ 20 := by
  obtain ⟨type, low, range⟩ := drops
  split at range <;> omega

theorem kernelEndFrame_le {kernelEndPhys : BitVec 32} (above : kernelEndPhys.toNat ≤ 4096 * frame) :
    kernelEndFrame kernelEndPhys ≤ frame := by
  simp only [kernelEndFrame, BitVec.toNat_udiv, BitVec.toNat_sub, BitVec.toNat_add,
    BitVec.toNat_ofNat, Nat.reducePow, Nat.reduceMod, Nat.reduceSub]
  omega

/-- No usable frame is lost exactly when every dropped one is rescued. -/
theorem no_frame_lost_iff (map : WellFormedMap memory info records) (kernelEndPhys : BitVec 32) :
    ∃ pmm, PmmInit memory info kernelEndPhys pmm ∧
      (NoFrameLost records kernelEndPhys pmm ↔ DropsRescued records kernelEndPhys) := by
  obtain ⟨pmm, init⟩ := pmmInit_returns map kernelEndPhys
  refine ⟨pmm, init, ?_, ?_⟩
  · intro kept record member frame drops low high
    obtain ⟨start, stop, inside⟩ := drops.contained
    have free := kept frame inside ⟨record, member, drops.1, start, stop⟩ (by omega) high
    exact ((init.clear_iff map inside).mp free).1
  · intro rescued frame inside contained low high
    obtain ⟨record, member, type, start, stop⟩ := contained
    have freed : ∃ other ∈ records, other.Clears frame := by
      rcases MmapEntry.clears_or_drops type start stop inside with clears | drops
      · exact ⟨record, member, clears⟩
      · exact rescued record member frame drops (by omega) high
    exact (init.clear_iff map inside).mpr ⟨freed, by omega, kernelEndFrame_le high⟩

theorem no_frame_lost_iff_alignedRegion :
    ∃ pmm, PmmInit (bootMemory 0x9000#32 [alignedRegion]) (bootInfo 0x9000#32 [alignedRegion])
      0x180000#32 pmm ∧ NoFrameLost [alignedRegion] 0x180000#32 pmm := by
  obtain ⟨pmm, init, exact⟩ := no_frame_lost_iff alignedRegion_map 0x180000#32
  refine ⟨pmm, init, exact.mpr ?_⟩
  intro record member frame drops _ _
  obtain rfl := List.mem_singleton.mp member
  exact absurd drops.2.2.2.1 (by decide)

/-- A region of one and a half pages that ends with a whole frame. -/
def unalignedTail : MapRecord :=
  ⟨⟨20#32, 0x200800#64, 0x1800#64, 1#32⟩, [], by decide⟩

theorem unalignedTail_map : WellFormedMap (bootMemory 0x9000#32 [unalignedTail])
    (bootInfo 0x9000#32 [unalignedTail]) [unalignedTail] :=
  wellFormed_boot 0x9000#32 [unalignedTail] (by decide)

/-- The only whole frame of the region stays reserved. -/
theorem unalignedTail_loses_frame :
    WellFormedMap (bootMemory 0x9000#32 [unalignedTail]) (bootInfo 0x9000#32 [unalignedTail]) [unalignedTail] ∧
    ∃ pmm, PmmInit (bootMemory 0x9000#32 [unalignedTail]) (bootInfo 0x9000#32 [unalignedTail])
      0x180000#32 pmm ∧ ¬ NoFrameLost [unalignedTail] 0x180000#32 pmm := by
  obtain ⟨pmm, init⟩ := pmmInit_returns unalignedTail_map 0x180000#32
  refine ⟨unalignedTail_map, pmm, init, ?_⟩
  intro kept
  have free := kept 0x201 (by decide)
    ⟨unalignedTail, List.mem_singleton_self _, by decide⟩ (by decide) (by decide)
  obtain ⟨⟨record, member, clears⟩, _⟩ := (init.clear_iff unalignedTail_map (by decide)).mp free
  obtain rfl := List.mem_singleton.mp member
  exact absurd clears (by decide)

end AstraOS.Memory
