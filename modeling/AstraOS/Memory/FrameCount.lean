import Mathlib.Algebra.BigOperators.Group.Finset.Piecewise
import AstraOS.Memory.FreeMap

/-! The counters that `pmm_init` leaves, against the bitmap. Each turn of a
release loop counts, so frames in more than one record are counted again. -/

namespace AstraOS.Memory

open Foundation

/-- How many records free this frame. -/
def clearCount (records : List MapRecord) (frame : Nat) : Nat :=
  records.countP (fun record => decide (record.Clears frame))

/-- The surplus of the counts over the frames: each frame once for every
record after the first that frees it. -/
def overlap (records : List MapRecord) : Nat :=
  ∑ frame ∈ Finset.range pmmMaxFrames, (clearCount records frame - 1)

/-- The counters agree with the bitmap: with its clear bits at the end, and
with those that step 2 left, of which there are at most `PMM_MAX_FRAMES`. -/
def CountersExact (mapped pmm : Pmm) : Prop :=
  (pmmFreeFrames pmm).toNat = pmm.freeSet.card ∧
    (pmmTotalFrames pmm).toNat = mapped.freeSet.card ∧ (pmmTotalFrames pmm).toNat ≤ pmmMaxFrames

theorem MmapEntry.Clears.inside {entry : MmapEntry} (clears : entry.Clears frame) :
    frame < pmmMaxFrames := by
  obtain ⟨_, low, _, range⟩ := clears
  unfold pmmMaxFrames
  split at range <;> omega

theorem entryFrames_card (entry : MmapEntry) :
    (entryFrames entry).card =
      ∑ frame ∈ Finset.range pmmMaxFrames, if entry.Clears frame then 1 else 0 := by
  have filtered : entryFrames entry = (Finset.range pmmMaxFrames).filter entry.Clears := by
    ext frame
    simp only [mem_entryFrames, Finset.mem_filter, Finset.mem_range]
    exact ⟨fun clears => ⟨clears.inside, clears⟩, And.right⟩
  rw [filtered, Finset.card_filter]

/-- Counting record by record is counting frame by frame. -/
theorem sum_card_eq (records : List MapRecord) :
    ((records.map MapRecord.toMmapEntry).map (fun entry => (entryFrames entry).card)).sum =
      ∑ frame ∈ Finset.range pmmMaxFrames, clearCount records frame := by
  induction records with
  | nil => simp [clearCount]
  | cons record rest ih =>
    rw [List.map_cons, List.map_cons, List.sum_cons, ih, entryFrames_card, ← Finset.sum_add_distrib]
    apply Finset.sum_congr rfl
    intro frame _
    simp only [clearCount, List.countP_cons, decide_eq_true_eq]
    exact Nat.add_comm _ _

variable (records : List MapRecord)

/-- The manager after step 2. -/
def mappedPmm : Pmm := (records.map MapRecord.toMmapEntry).foldl releaseEntry Pmm.allUsed

theorem mem_mappedPmm :
    frame ∈ (mappedPmm records).freeSet ↔ ∃ record ∈ records, record.Clears frame := by
  rw [mappedPmm, (foldl_releaseEntry_effect _ _).1]
  simp [mem_entryFrames]

theorem mappedPmm_card :
    (mappedPmm records).freeSet.card =
      ∑ frame ∈ Finset.range pmmMaxFrames, if 0 < clearCount records frame then 1 else 0 := by
  have filtered : (mappedPmm records).freeSet =
      (Finset.range pmmMaxFrames).filter (fun frame => 0 < clearCount records frame) := by
    ext frame
    simp only [mem_mappedPmm, Finset.mem_filter, Finset.mem_range, clearCount,
      List.countP_pos_iff, decide_eq_true_eq]
    constructor
    · rintro ⟨record, member, clears⟩
      exact ⟨clears.inside, record, member, clears⟩
    · rintro ⟨_, found⟩
      exact found
  rw [filtered, Finset.card_filter]

/-- After step 2 both counters hold the number of free frames plus the surplus. -/
theorem mappedPmm_counters :
    (mappedPmm records).freeFrames =
        BitVec.ofNat 32 ((mappedPmm records).freeSet.card + overlap records) ∧
      (mappedPmm records).totalFrames =
        BitVec.ofNat 32 ((mappedPmm records).freeSet.card + overlap records) := by
  have counted : ((records.map MapRecord.toMmapEntry).map (fun entry => (entryFrames entry).card)).sum =
      (mappedPmm records).freeSet.card + overlap records := by
    rw [sum_card_eq, mappedPmm_card, overlap, ← Finset.sum_add_distrib]
    apply Finset.sum_congr rfl
    intro frame _
    split <;> omega
  obtain ⟨_, free, total⟩ := foldl_releaseEntry_effect (records.map MapRecord.toMmapEntry) Pmm.allUsed
  rw [counted] at free total
  simp only [Pmm.allUsed, BitVec.zero_add] at free total
  exact ⟨free, total⟩

theorem counters_of_overlap (kernelEndPhys : BitVec 32) :
    CountersExact (mappedPmm records) (pmmInitReserve kernelEndPhys (mappedPmm records)) ↔
      overlap records % 2 ^ 32 = 0 := by
  obtain ⟨free, total⟩ := mappedPmm_counters records
  have bound := freeSet_card_le (mappedPmm records)
  have drift : (pmmInitReserve kernelEndPhys (mappedPmm records)).drift =
      BitVec.ofNat 32 (overlap records) := by
    rw [pmmInitReserve_drift, Pmm.drift, free, BitVec.ofNat_add]
    bv_omega
  have freeExact : (pmmInitReserve kernelEndPhys (mappedPmm records)).freeFrames.toNat =
      (pmmInitReserve kernelEndPhys (mappedPmm records)).freeSet.card ↔
        overlap records % 2 ^ 32 = 0 := by
    rw [← drift_eq_zero_iff, drift, ← BitVec.toNat_inj]
    simp
  unfold CountersExact pmmFreeFrames pmmTotalFrames pmmMaxFrames
  unfold pmmMaxFrames at bound
  rw [freeExact, pmmInitReserve_totalFrames, total, BitVec.toNat_ofNat]
  omega

theorem pmmInit_steps {records : List MapRecord} (map : WellFormedMap memory info records)
    (kernelEndPhys : BitVec 32) :
    pmmInitMap (records.length + 1) memory info Pmm.boot = some (mappedPmm records) ∧
      pmmInit (records.length + 1) memory info kernelEndPhys Pmm.boot =
        some (pmmInitReserve kernelEndPhys (mappedPmm records)) := by
  have mapped : pmmInitMap (records.length + 1) memory info Pmm.boot = some (mappedPmm records) :=
    pmmInitMap_records map
  exact ⟨mapped, by simp [pmmInit, mapped]⟩

/-- Both counters are exact if and only if the frames counted more than once
add up to a multiple of the counters' range. -/
theorem counters_exact_iff {records : List MapRecord} (map : WellFormedMap memory info records)
    (kernelEndPhys : BitVec 32) :
    ∃ fuel mapped pmm, pmmInitMap fuel memory info Pmm.boot = some mapped ∧
      pmmInit fuel memory info kernelEndPhys Pmm.boot = some pmm ∧
      (CountersExact mapped pmm ↔ overlap records % 2 ^ 32 = 0) := by
  obtain ⟨mapped, finished⟩ := pmmInit_steps map kernelEndPhys
  exact ⟨_, _, _, mapped, finished, counters_of_overlap records kernelEndPhys⟩

/-- Records that free no frame in common have no surplus. -/
theorem overlap_of_disjoint {records : List MapRecord}
    (disjoint : records.Pairwise (fun first second =>
      ∀ frame, ¬ (first.Clears frame ∧ second.Clears frame))) : overlap records = 0 := by
  apply Finset.sum_eq_zero
  intro frame _
  suffices bound : clearCount records frame ≤ 1 by omega
  induction disjoint with
  | nil => simp [clearCount]
  | @cons record rest apart _ ih =>
    rw [clearCount, List.countP_cons]
    by_cases clears : record.Clears frame
    · have others : rest.countP (fun record => decide (record.Clears frame)) = 0 := by
        apply List.countP_eq_zero.mpr
        intro other member
        simpa using fun also => apart other member frame ⟨clears, also⟩
      simp [others, clears]
    · simpa [clears, clearCount] using ih

theorem counters_exact_iff_alignedRegion :
    ∃ fuel mapped pmm, pmmInitMap fuel (bootMemory 0x9000#32 [alignedRegion])
        (bootInfo 0x9000#32 [alignedRegion]) Pmm.boot = some mapped ∧
      pmmInit fuel (bootMemory 0x9000#32 [alignedRegion]) (bootInfo 0x9000#32 [alignedRegion])
        0x180000#32 Pmm.boot = some pmm ∧ CountersExact mapped pmm := by
  obtain ⟨fuel, mapped, pmm, walked, finished, exact⟩ :=
    counters_exact_iff alignedRegion_map 0x180000#32
  refine ⟨fuel, mapped, pmm, walked, finished, exact.mpr ?_⟩
  rw [overlap_of_disjoint (List.pairwise_singleton _ _), Nat.zero_mod]

/-- A region of one frame, reported twice. -/
def repeatedPage : List MapRecord :=
  [⟨⟨20#32, 0x200000#64, 0x1000#64, 1#32⟩, [], by decide⟩,
    ⟨⟨20#32, 0x200000#64, 0x1000#64, 1#32⟩, [], by decide⟩]

theorem repeatedPage_overlap : overlap repeatedPage = 1 := by
  have page : ∀ frame,
      MmapEntry.Clears ⟨20#32, 0x200000#64, 0x1000#64, 1#32⟩ frame ↔ frame = 0x200 := by
    intro frame
    simp [MmapEntry.Clears]
    omega
  have counted : ∀ frame, clearCount repeatedPage frame - 1 = if frame = 0x200 then 1 else 0 := by
    intro frame
    simp only [clearCount, repeatedPage, List.countP_cons, List.countP_nil, page, decide_eq_true_eq]
    split <;> rfl
  simp [overlap, counted, pmmMaxFrames]

/-- The repeated frame is counted twice. -/
theorem repeatedPage_miscounted :
    WellFormedMap (bootMemory 0x9000#32 repeatedPage) (bootInfo 0x9000#32 repeatedPage) repeatedPage ∧
    ∃ fuel mapped pmm, pmmInitMap fuel (bootMemory 0x9000#32 repeatedPage)
        (bootInfo 0x9000#32 repeatedPage) Pmm.boot = some mapped ∧
      pmmInit fuel (bootMemory 0x9000#32 repeatedPage) (bootInfo 0x9000#32 repeatedPage)
        0x180000#32 Pmm.boot = some pmm ∧ ¬ CountersExact mapped pmm := by
  have map := wellFormed_boot 0x9000#32 repeatedPage (by decide)
  obtain ⟨mapped, finished⟩ := pmmInit_steps map 0x180000#32
  refine ⟨map, _, _, _, mapped, finished, ?_⟩
  rw [counters_of_overlap, repeatedPage_overlap]
  decide

end AstraOS.Memory
