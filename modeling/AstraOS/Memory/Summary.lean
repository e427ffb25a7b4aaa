import AstraOS.Memory.FrameCount

/-! The summary that `pmm_init` prints. A figure is a frame count times 4096,
in 32 bits, so it is exact for every count below `PMM_MAX_FRAMES` and only there. -/

namespace AstraOS.Memory

open Foundation

/-- A byte of this entry, available and in exact integers. -/
def MmapEntry.Holds (entry : MmapEntry) (byte : Nat) : Prop :=
  entry.type = 1#32 ∧ entry.addr.toNat ≤ byte ∧ byte < entry.addr.toNat + entry.len.toNat

/-- No byte belongs to two available regions. -/
def DisjointRegions (records : List MapRecord) : Prop :=
  records.Pairwise (fun first second => ∀ byte, ¬ (first.Holds byte ∧ second.Holds byte))

/-- Both figures are the counts in whole MiB. -/
def SummaryExact (pmm : Pmm) : Prop :=
  (pmmSummary pmm).1.toNat = (pmmTotalFrames pmm).toNat * 4096 / 2 ^ 20 ∧
    (pmmSummary pmm).2.1.toNat = (pmmFreeFrames pmm).toNat * 4096 / 2 ^ 20

/-- An entry holds the last byte of each frame that it frees. -/
theorem MmapEntry.Clears.holds {entry : MmapEntry} (clears : entry.Clears frame) :
    entry.Holds (4096 * frame + 4095) := by
  have start := clears.2.2.1
  exact ⟨clears.1, by omega, clears.covers (by omega)⟩

/-- Rounding cannot make disjoint regions free one frame twice. -/
theorem DisjointRegions.overlap {records : List MapRecord} (disjoint : DisjointRegions records) :
    overlap records = 0 := by
  apply overlap_of_disjoint
  apply disjoint.imp
  intro first second apart frame both
  exact apart _ ⟨both.1.holds, both.2.holds⟩

theorem pmmSummary_total (pmm : Pmm) : (pmmSummary pmm).1 = (pmmTotalFrames pmm * 4096#32) >>> 20 := rfl

theorem mebibytes_exact_iff (frames : BitVec 32) :
    ((frames * 4096#32) >>> 20).toNat = frames.toNat * 4096 / 2 ^ 20 ↔ frames.toNat < pmmMaxFrames := by
  have product : (frames * 4096#32).toNat = frames.toNat * 4096 % 2 ^ 32 := BitVec.toNat_mul _ _
  rw [BitVec.toNat_ushiftRight, product, Nat.shiftRight_eq_div_pow]
  unfold pmmMaxFrames
  omega

theorem summaryExact_iff (pmm : Pmm) :
    SummaryExact pmm ↔
      (pmmTotalFrames pmm).toNat < pmmMaxFrames ∧ (pmmFreeFrames pmm).toNat < pmmMaxFrames :=
  and_congr (mebibytes_exact_iff pmm.totalFrames) (mebibytes_exact_iff pmm.freeFrames)

/-- The first MiB is never free, so the free count stays below the maximum. -/
theorem pmmInitReserve_freeSet_lt (kernelEndPhys : BitVec 32) (pmm : Pmm) :
    (pmmInitReserve kernelEndPhys pmm).freeSet.card < pmmMaxFrames := by
  have above : (pmmInitReserve kernelEndPhys pmm).freeSet ⊆ Finset.Ico 256 pmmMaxFrames := by
    intro frame free
    have low := ((mem_pmmInitReserve kernelEndPhys pmm).mp free).2.1
    exact Finset.mem_Ico.mpr ⟨low, lt_of_mem_freeSet free⟩
  have bound := Finset.card_le_card above
  rw [Nat.card_Ico] at bound
  unfold pmmMaxFrames at bound ⊢
  omega

theorem mappedPmm_freeSet_lt_iff (records : List MapRecord) :
    (mappedPmm records).freeSet.card < pmmMaxFrames ↔
      ∃ frame < pmmMaxFrames, ∀ record ∈ records, ¬ record.Clears frame := by
  have subset : (mappedPmm records).freeSet ⊆ Finset.range pmmMaxFrames := by
    intro frame free
    exact Finset.mem_range.mpr (lt_of_mem_freeSet free)
  constructor
  · intro short
    obtain ⟨frame, inside, used⟩ := Finset.exists_mem_notMem_of_card_lt_card
      (short.trans_eq (Finset.card_range pmmMaxFrames).symm)
    refine ⟨frame, Finset.mem_range.mp inside, ?_⟩
    intro record member clears
    exact used ((mem_mappedPmm records).mpr ⟨record, member, clears⟩)
  · rintro ⟨frame, inside, kept⟩
    have proper : (mappedPmm records).freeSet ⊂ Finset.range pmmMaxFrames := by
      refine (Finset.ssubset_iff_of_subset subset).mpr ⟨frame, Finset.mem_range.mpr inside, ?_⟩
      intro free
      obtain ⟨record, member, clears⟩ := (mem_mappedPmm records).mp free
      exact kept record member clears
    have fewer := Finset.card_lt_card proper
    rwa [Finset.card_range] at fewer

/-- Disjoint regions are counted within the supported maximum, and the summary
is exact unless they reach it. -/
theorem summary_exact_iff {records : List MapRecord} (map : WellFormedMap memory info records)
    (disjoint : DisjointRegions records) (kernelEndPhys : BitVec 32) :
    ∃ fuel pmm, pmmInit fuel memory info kernelEndPhys Pmm.boot = some pmm ∧
      (pmmTotalFrames pmm).toNat ≤ pmmMaxFrames ∧
      (SummaryExact pmm ↔ ∃ frame < pmmMaxFrames, ∀ record ∈ records, ¬ record.Clears frame) := by
  obtain ⟨_, finished⟩ := pmmInit_steps map kernelEndPhys
  have counted := (counters_of_overlap records kernelEndPhys).mpr (by rw [disjoint.overlap, Nat.zero_mod])
  obtain ⟨free, total, within⟩ := counted
  have below := pmmInitReserve_freeSet_lt kernelEndPhys (mappedPmm records)
  refine ⟨_, _, finished, within, ?_⟩
  rw [summaryExact_iff, free, total, ← mappedPmm_freeSet_lt_iff]
  exact and_iff_left below

theorem summary_exact_alignedRegion :
    ∃ fuel pmm, pmmInit fuel (bootMemory 0x9000#32 [alignedRegion])
        (bootInfo 0x9000#32 [alignedRegion]) 0x180000#32 Pmm.boot = some pmm ∧ SummaryExact pmm := by
  obtain ⟨fuel, pmm, finished, _, exact⟩ := summary_exact_iff alignedRegion_map
    (List.pairwise_singleton _ _) 0x180000#32
  refine ⟨fuel, pmm, finished, exact.mpr ⟨0, by decide, ?_⟩⟩
  intro record member
  obtain rfl := List.mem_singleton.mp member
  decide

/-- A single available region of 4 GiB. -/
def wholeMemory : MapRecord :=
  ⟨⟨20#32, 0#64, 0x100000000#64, 1#32⟩, [], by decide⟩

theorem wholeMemory_clears (inside : frame < pmmMaxFrames) : wholeMemory.Clears frame := by
  refine ⟨rfl, by decide, Nat.zero_le _, ?_⟩
  rw [if_pos (by decide)]
  unfold pmmMaxFrames at inside
  exact inside

theorem wholeMemory_total :
    (mappedPmm [wholeMemory]).totalFrames = 0x100000#32 := by
  obtain ⟨_, total⟩ := mappedPmm_counters [wholeMemory]
  have bound := freeSet_card_le (mappedPmm [wholeMemory])
  have full : ¬ (mappedPmm [wholeMemory]).freeSet.card < pmmMaxFrames := by
    intro short
    obtain ⟨frame, inside, kept⟩ := (mappedPmm_freeSet_lt_iff _).mp short
    exact kept wholeMemory (List.mem_singleton_self _) (wholeMemory_clears inside)
  have disjoint : DisjointRegions [wholeMemory] := List.pairwise_singleton _ _
  rw [total, disjoint.overlap, Nat.add_zero, Nat.le_antisymm bound (Nat.le_of_not_lt full)]
  rfl

/-- With all of the supported memory the summary reads 0 MB. -/
theorem summary_of_wholeMemory :
    WellFormedMap (bootMemory 0x9000#32 [wholeMemory]) (bootInfo 0x9000#32 [wholeMemory]) [wholeMemory] ∧
    DisjointRegions [wholeMemory] ∧
    ∃ fuel pmm, pmmInit fuel (bootMemory 0x9000#32 [wholeMemory]) (bootInfo 0x9000#32 [wholeMemory])
        0x180000#32 Pmm.boot = some pmm ∧
      (pmmTotalFrames pmm).toNat = pmmMaxFrames ∧ (pmmSummary pmm).1 = 0#32 ∧ ¬ SummaryExact pmm := by
  have map := wellFormed_boot 0x9000#32 [wholeMemory] (by decide)
  obtain ⟨_, finished⟩ := pmmInit_steps map 0x180000#32
  have total : pmmTotalFrames (pmmInitReserve 0x180000#32 (mappedPmm [wholeMemory])) = 0x100000#32 := by
    rw [pmmTotalFrames, pmmInitReserve_totalFrames, wholeMemory_total]
  refine ⟨map, List.pairwise_singleton _ _, _, _, finished, ?_, ?_, ?_⟩
  · rw [total]
    decide
  · rw [pmmSummary_total, total]
    decide
  · intro exact
    have below := ((summaryExact_iff _).mp exact).1
    rw [total] at below
    exact absurd below (by decide)

end AstraOS.Memory
