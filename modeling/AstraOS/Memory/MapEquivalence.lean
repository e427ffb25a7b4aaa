import AstraOS.Memory.FrameCount

/-! Two runs of `pmm_init` compared: maps whose records stand in another order,
and the fallback to `mem_upper` against the map that says the same. -/

namespace AstraOS.Memory

open Foundation

/-- What step 2 uses of a record; the size and the padding only move the walk. -/
def MapRecord.region (record : MapRecord) : BitVec 64 × BitVec 64 × BitVec 32 :=
  (record.addr, record.len, record.type)

/-- The frames of a region, whatever record declares it. -/
def regionFrames (region : BitVec 64 × BitVec 64 × BitVec 32) : Finset Nat :=
  entryFrames ⟨0#32, region.1, region.2.1, region.2.2⟩

theorem entryFrames_region (record : MapRecord) :
    entryFrames record.toMmapEntry = regionFrames record.region := rfl

/-- The manager is its free set and its two counters. -/
theorem pmm_eq_of_freeSet {left right : Pmm} (free : left.freeSet = right.freeSet)
    (freeFrames : left.freeFrames = right.freeFrames) (totalFrames : left.totalFrames = right.totalFrames) :
    left = right := by
  obtain ⟨leftMap, leftTotal, leftFree⟩ := left
  obtain ⟨rightMap, rightTotal, rightFree⟩ := right
  obtain rfl : leftMap = rightMap := WordBitmap.zeros_injective free
  cases freeFrames
  cases totalFrames
  rfl

theorem cards_eq_regions (records : List MapRecord) :
    ((records.map MapRecord.toMmapEntry).map (fun entry => (entryFrames entry).card)).sum =
      ((records.map MapRecord.region).map (fun region => (regionFrames region).card)).sum := by
  rw [List.map_map, List.map_map]
  rfl

theorem freeSet_regions (records : List MapRecord) (frame : Nat) :
    frame ∈ (mappedPmm records).freeSet ↔ ∃ region ∈ records.map MapRecord.region, frame ∈ regionFrames region := by
  unfold mappedPmm
  rw [(foldl_releaseEntry_effect _ _).1, allUsed_freeSet]
  simp [entryFrames_region]

/-- Step 2 depends on the regions as a multiset only: the frames form a union
and the counters a sum. -/
theorem mappedPmm_perm {first second : List MapRecord}
    (same : (first.map MapRecord.region).Perm (second.map MapRecord.region)) :
    mappedPmm first = mappedPmm second := by
  obtain ⟨_, freeFirst, totalFirst⟩ := foldl_releaseEntry_effect (first.map MapRecord.toMmapEntry) Pmm.allUsed
  obtain ⟨_, freeSecond, totalSecond⟩ := foldl_releaseEntry_effect (second.map MapRecord.toMmapEntry) Pmm.allUsed
  have counts := (same.map (fun region => (regionFrames region).card)).sum_eq
  apply pmm_eq_of_freeSet
  · ext frame
    rw [freeSet_regions, freeSet_regions]
    constructor
    · rintro ⟨region, member, inside⟩
      exact ⟨region, same.mem_iff.mp member, inside⟩
    · rintro ⟨region, member, inside⟩
      exact ⟨region, same.mem_iff.mpr member, inside⟩
  · rw [mappedPmm, mappedPmm, freeFirst, freeSecond, cards_eq_regions, cards_eq_regions, counts]
  · rw [mappedPmm, mappedPmm, totalFirst, totalSecond, cards_eq_regions, cards_eq_regions, counts]

/-- The order of the records does not matter, nor does their padding: both maps
leave the same bitmap and the same counters. -/
theorem init_order_irrelevant {first second : List MapRecord} {memory memory' : Memory 32}
    {info info' : MultibootInfo} (one : WellFormedMap memory info first)
    (two : WellFormedMap memory' info' second)
    (same : (first.map MapRecord.region).Perm (second.map MapRecord.region)) (kernelEndPhys : BitVec 32) :
    ∃ pmm, PmmInit memory info kernelEndPhys pmm ∧ PmmInit memory' info' kernelEndPhys pmm := by
  refine ⟨pmmInitReserve kernelEndPhys (mappedPmm first), pmmInit_records one kernelEndPhys, ?_⟩
  rw [mappedPmm_perm same]
  exact pmmInit_records two kernelEndPhys

/-- Two overlapping regions, and the same two in the other order with padding. -/
def overlappingRegions : List MapRecord :=
  [⟨⟨20#32, 0x200000#64, 0x3000#64, 1#32⟩, [], by decide⟩,
    ⟨⟨20#32, 0x201000#64, 0x4000#64, 1#32⟩, [], by decide⟩]

def swappedRegions : List MapRecord :=
  [⟨⟨24#32, 0x201000#64, 0x4000#64, 1#32⟩, [7#8, 0#8, 0#8, 9#8], by decide⟩,
    ⟨⟨20#32, 0x200000#64, 0x3000#64, 1#32⟩, [], by decide⟩]

theorem init_order_irrelevant_swapped :
    ∃ pmm, PmmInit (bootMemory 0x9000#32 overlappingRegions) (bootInfo 0x9000#32 overlappingRegions)
        0x180000#32 pmm ∧
      PmmInit (bootMemory 0x9000#32 swappedRegions) (bootInfo 0x9000#32 swappedRegions)
        0x180000#32 pmm :=
  init_order_irrelevant (wellFormed_boot 0x9000#32 overlappingRegions (by decide))
    (wellFormed_boot 0x9000#32 swappedRegions (by decide)) (List.Perm.swap _ _ _) 0x180000#32

/-- The record that announces what `mem_upper` announces. -/
def AnnouncesUpper (memUpper : BitVec 32) (record : MapRecord) : Prop :=
  record.region = (0x100000#64, 1024#64 * memUpper.setWidth 64, 1#32)

/-- The frame after the last one that the fallback frees, in 32-bit arithmetic. -/
def upperEnd (memUpper : BitVec 32) : BitVec 32 := (0x100000#32 + memUpper * 1024#32) / 4096#32

theorem upperEnd_toNat (memUpper : BitVec 32) :
    (upperEnd memUpper).toNat = (0x100000 + 1024 * memUpper.toNat) % 2 ^ 32 / 4096 := by
  have page : (4096#32).toNat = 4096 := by decide
  have kib : (1024#32).toNat = 1024 := by decide
  have mib : (0x100000#32).toNat = 0x100000 := by decide
  rw [upperEnd, BitVec.toNat_udiv, BitVec.toNat_add, BitVec.toNat_mul, page, kib, mib]
  omega

/-- The map path reaches the same frame, cut off at 4 GiB. -/
theorem announced_end {record : MapRecord} (same : AnnouncesUpper memUpper record) :
    record.type = 1#32 ∧ record.addr < 0x100000000#64 ∧ firstFrame record.toMmapEntry = lowFrames ∧
      (firstFrame record.toMmapEntry + numFrames record.toMmapEntry).toNat =
        min ((0x100000 + 1024 * memUpper.toNat) / 4096) pmmMaxFrames := by
  have addr : record.addr = 0x100000#64 := congrArg Prod.fst same
  have len : record.len = 1024#64 * memUpper.setWidth 64 := congrArg (fun region => region.2.1) same
  have type : record.type = 1#32 := congrArg (fun region => region.2.2) same
  have start : record.addr.toNat = 0x100000 := by rw [addr]; decide
  have bound := memUpper.isLt
  have length : record.len.toNat = 1024 * memUpper.toNat := by
    have kib : (1024#64).toNat = 1024 := by decide
    rw [len, BitVec.toNat_mul, BitVec.toNat_setWidth, kib]
    omega
  have first : firstFrame record.toMmapEntry = lowFrames := by
    rw [firstFrame, addr]
    decide
  have low : lowFrames.toNat = 256 := by decide
  refine ⟨type, by rw [addr]; decide, first, ?_⟩
  rw [BitVec.toNat_add, first, low, numFrames_toNat record.toMmapEntry (by omega) (by omega), start, length]
  unfold pmmMaxFrames
  omega

/-- Past 4 GiB the fallback wraps and counts fewer frames than the map, which
is cut off there. -/
theorem fallback_eq_iff {fallback : MultibootInfo} {record : MapRecord} (kernelEndPhys : BitVec 32)
    (same : AnnouncesUpper fallback.memUpper record) :
    pmmInitReserve kernelEndPhys (releaseUpper fallback Pmm.allUsed) =
        pmmInitReserve kernelEndPhys (mappedPmm [record]) ↔
      0x100000 + 1024 * fallback.memUpper.toNat < 2 ^ 32 := by
  obtain ⟨type, below, first, last⟩ := announced_end same
  have upper := upperEnd_toNat fallback.memUpper
  have low : lowFrames.toNat = 256 := by decide
  have released : releaseUpper fallback Pmm.allUsed =
      forFrames lowFrames (upperEnd fallback.memUpper) releaseFrame Pmm.allUsed := rfl
  have mapped : mappedPmm [record] = forFrames lowFrames
      (firstFrame record.toMmapEntry + numFrames record.toMmapEntry) releaseFrame Pmm.allUsed := by
    rw [← first]
    exact if_pos ⟨type, below⟩
  rw [released, mapped]
  constructor
  · intro equal
    have totals := congrArg Pmm.totalFrames equal
    rw [pmmInitReserve_totalFrames, pmmInitReserve_totalFrames, (forFrames_release _ _ _).2.2,
      (forFrames_release _ _ _).2.2, BitVec.add_right_inj, last, upper, low] at totals
    have counts := congrArg BitVec.toNat totals
    rw [BitVec.toNat_ofNat, BitVec.toNat_ofNat] at counts
    by_contra wraps
    unfold pmmMaxFrames at counts
    omega
  · intro fits
    have ends : upperEnd fallback.memUpper =
        firstFrame record.toMmapEntry + numFrames record.toMmapEntry := by
      apply BitVec.eq_of_toNat_eq
      rw [upper, last, Nat.mod_eq_of_lt fits]
      unfold pmmMaxFrames
      omega
    rw [ends]

/-- The fallback and the map that says the same leave one state exactly as long
as the end of upper memory fits into 32 bits. -/
theorem fallback_agrees_iff {memory' : Memory 32} {fallback info : MultibootInfo} {record : MapRecord}
    (memory : Memory 32) (kernelEndPhys : BitVec 32) (absent : fallback.flags &&& 1#32 <<< 6 = 0#32)
    (map : WellFormedMap memory' info [record]) (same : AnnouncesUpper fallback.memUpper record) :
    ∃ left right, PmmInit memory fallback kernelEndPhys left ∧ PmmInit memory' info kernelEndPhys right ∧
      (left = right ↔ 0x100000 + 1024 * fallback.memUpper.toNat < 2 ^ 32) :=
  ⟨_, _, pmmInit_fallback absent memory kernelEndPhys, pmmInit_records map kernelEndPhys,
    fallback_eq_iff kernelEndPhys same⟩

def fallbackInfo (memUpper : BitVec 32) : MultibootInfo := ⟨0#32, memUpper, 0#32, 0#32⟩

def upperRecord (memUpper : BitVec 32) : MapRecord :=
  ⟨⟨20#32, 0x100000#64, 1024#64 * memUpper.setWidth 64, 1#32⟩, [], rfl⟩

theorem upperRecord_map (memUpper : BitVec 32) :
    WellFormedMap (bootMemory 0x9000#32 [upperRecord memUpper]) (bootInfo 0x9000#32 [upperRecord memUpper])
      [upperRecord memUpper] := by
  apply wellFormed_boot
  have size : (upperRecord memUpper).size.toNat = 20 := rfl
  rw [List.flatMap_singleton, MapRecord.bytes_length, size]
  decide

/-- 127 MiB above the first, as emulators report them. -/
theorem fallback_agrees_iff_small :
    ∃ pmm, PmmInit (fun _ => 0#8) (fallbackInfo 0x1FC00#32) 0x180000#32 pmm ∧
      PmmInit (bootMemory 0x9000#32 [upperRecord 0x1FC00#32]) (bootInfo 0x9000#32 [upperRecord 0x1FC00#32])
        0x180000#32 pmm := by
  have absent : (fallbackInfo 0x1FC00#32).flags &&& 1#32 <<< 6 = 0#32 := by decide
  obtain ⟨left, right, one, two, agree⟩ := fallback_agrees_iff (fun _ => 0#8) 0x180000#32 absent
    (upperRecord_map 0x1FC00#32) rfl
  obtain rfl := agree.mpr (by decide)
  exact ⟨left, one, two⟩

/-- With memory up to exactly 4 GiB the end wraps to zero and nothing is freed. -/
theorem fallback_wraps_at_four_gib :
    ∃ left right, PmmInit (fun _ => 0#8) (fallbackInfo 0x3FFC00#32) 0x180000#32 left ∧
      PmmInit (bootMemory 0x9000#32 [upperRecord 0x3FFC00#32]) (bootInfo 0x9000#32 [upperRecord 0x3FFC00#32])
        0x180000#32 right ∧ left ≠ right := by
  have absent : (fallbackInfo 0x3FFC00#32).flags &&& 1#32 <<< 6 = 0#32 := by decide
  have same : AnnouncesUpper (fallbackInfo 0x3FFC00#32).memUpper (upperRecord 0x3FFC00#32) := rfl
  refine ⟨_, _, pmmInit_fallback absent _ _, pmmInit_records (upperRecord_map _) _, ?_⟩
  intro equal
  exact absurd ((fallback_eq_iff 0x180000#32 same).mp equal) (by decide)

end AstraOS.Memory
