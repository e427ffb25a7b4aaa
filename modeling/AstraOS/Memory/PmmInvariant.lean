import Mathlib.Order.Interval.Finset.Nat
import AstraOS.Memory.Pmm

/-! What each operation of the memory manager does to the set of free frames
and to the two counters. Later modules use these laws and never the bitmap. -/

namespace AstraOS.Memory

open Foundation

/-- The frames whose bit is clear. -/
def Pmm.freeSet (pmm : Pmm) : Finset Nat := pmm.bitmap.zeros

/-- How far the counter of free frames runs ahead of their number, modulo 2^32. -/
def Pmm.drift (pmm : Pmm) : BitVec 32 := pmm.freeFrames - BitVec.ofNat 32 pmm.freeSet.card

theorem mem_freeSet {pmm : Pmm} :
    frame ∈ pmm.freeSet ↔ frame < pmmMaxFrames ∧ bitmapTest pmm.bitmap frame = false :=
  WordBitmap.mem_zeros

theorem lt_of_mem_freeSet {pmm : Pmm} (free : frame ∈ pmm.freeSet) : frame < pmmMaxFrames :=
  (mem_freeSet.mp free).1

theorem freeSet_card_le (pmm : Pmm) : pmm.freeSet.card ≤ pmmMaxFrames := by
  have subset : pmm.freeSet ⊆ Finset.range pmmMaxFrames := by
    intro frame free
    exact Finset.mem_range.mpr (lt_of_mem_freeSet free)
  simpa using Finset.card_le_card subset

theorem drift_eq_zero_iff (pmm : Pmm) :
    pmm.drift = 0#32 ↔ pmm.freeFrames.toNat = pmm.freeSet.card := by
  have bound := freeSet_card_le pmm
  unfold pmmMaxFrames at bound
  unfold Pmm.drift
  rw [BitVec.sub_eq_iff_eq_add]
  constructor
  · intro same
    rw [same]
    simp
    omega
  · intro same
    apply BitVec.eq_of_toNat_eq
    simp [same]
    omega

theorem freeSet_bitmapSet (pmm : Pmm) (inside : frame < pmmMaxFrames) :
    (bitmapSet pmm.bitmap frame).zeros = pmm.freeSet.erase frame :=
  WordBitmap.zeros_set pmm.bitmap inside

theorem freeSet_bitmapClear (pmm : Pmm) (inside : frame < pmmMaxFrames) :
    (bitmapClear pmm.bitmap frame).zeros = insert frame pmm.freeSet :=
  WordBitmap.zeros_clear pmm.bitmap inside

theorem reserveFrame_freeSet (pmm : Pmm) (inside : frame < pmmMaxFrames) :
    (reserveFrame frame pmm).freeSet = pmm.freeSet.erase frame := by
  unfold reserveFrame
  split
  · exact freeSet_bitmapSet pmm inside
  · rename_i used
    refine (Finset.erase_eq_of_notMem ?_).symm
    intro free
    have clear := (mem_freeSet.mp free).2
    simp [clear] at used

/-- Taking a free frame moves the counter and the set together. -/
theorem drift_take (pmm : Pmm) (free : frame ∈ pmm.freeSet) :
    pmm.freeFrames - 1#32 - BitVec.ofNat 32 (pmm.freeSet.erase frame).card = pmm.drift := by
  have counted := Finset.card_erase_add_one free
  unfold Pmm.drift
  rw [← counted, BitVec.ofNat_add]
  bv_omega

/-- So does giving back a used one. -/
theorem drift_give (pmm : Pmm) (used : frame ∉ pmm.freeSet) :
    pmm.freeFrames + 1#32 - BitVec.ofNat 32 (insert frame pmm.freeSet).card = pmm.drift := by
  unfold Pmm.drift
  rw [Finset.card_insert_of_notMem used, BitVec.ofNat_add]
  bv_omega

theorem reserveFrame_drift (pmm : Pmm) (inside : frame < pmmMaxFrames) :
    (reserveFrame frame pmm).drift = pmm.drift := by
  have after := reserveFrame_freeSet pmm inside
  by_cases free : frame ∈ pmm.freeSet
  · have clear := (mem_freeSet.mp free).2
    have counter : (reserveFrame frame pmm).freeFrames = pmm.freeFrames - 1#32 := by
      simp [reserveFrame, clear]
    rw [Pmm.drift, after, counter, drift_take pmm free]
  · have used : bitmapTest pmm.bitmap frame = true := by
      by_contra clear
      exact free (mem_freeSet.mpr ⟨inside, by simpa using clear⟩)
    have same : reserveFrame frame pmm = pmm := by simp [reserveFrame, used]
    rw [same]

theorem reserveFrame_totalFrames (frame : Nat) (pmm : Pmm) :
    (reserveFrame frame pmm).totalFrames = pmm.totalFrames := by
  unfold reserveFrame
  split <;> rfl

/-- A loop over frames establishes what its body keeps from one frame to the
next; an empty range is the base case. -/
theorem forFrames_invariant (invariant : Nat → Pmm → Prop) {first last : BitVec 32}
    {body : Nat → Pmm → Pmm} {pmm : Pmm}
    (initial : ∀ i ≤ first.toNat, invariant i pmm)
    (preserved : ∀ frame current, first.toNat ≤ frame → frame < last.toNat → frame < pmmMaxFrames →
      invariant frame current → invariant (frame + 1) (body frame current)) :
    invariant (min last.toNat pmmMaxFrames) (forFrames first last body pmm) := by
  unfold forFrames
  rcases Nat.le_total (min last.toNat pmmMaxFrames) first.toNat with empty | ordered
  · rw [forRange_empty body pmm empty]
    exact initial _ empty
  · apply forRange_invariant invariant ordered (initial _ le_rfl)
    intro frame current above below held
    exact preserved frame current above (lt_of_lt_of_le below (min_le_left _ _))
      (lt_of_lt_of_le below (min_le_right _ _)) held

/-- A loop of reservations removes its range and keeps the drift. -/
theorem forFrames_reserve (first last : BitVec 32) (pmm : Pmm) :
    (forFrames first last reserveFrame pmm).freeSet =
        pmm.freeSet \ Finset.Ico first.toNat (min last.toNat pmmMaxFrames) ∧
      (forFrames first last reserveFrame pmm).drift = pmm.drift ∧
      (forFrames first last reserveFrame pmm).totalFrames = pmm.totalFrames := by
  apply forFrames_invariant (fun i current =>
    current.freeSet = pmm.freeSet \ Finset.Ico first.toNat i ∧
      current.drift = pmm.drift ∧ current.totalFrames = pmm.totalFrames)
  · intro i empty
    simp [Finset.Ico_eq_empty_of_le empty]
  · rintro frame current above _ inside ⟨removed, kept, total⟩
    refine ⟨?_, ?_, ?_⟩
    · rw [reserveFrame_freeSet current inside, removed, Nat.Ico_succ_right_eq_insert_Ico above,
        Finset.sdiff_insert]
    · rw [reserveFrame_drift current inside, kept]
    · rw [reserveFrame_totalFrames, total]

/-- A loop of releases adds its range, and each turn counts, whether or not
the frame was already free. -/
theorem forFrames_release (first last : BitVec 32) (pmm : Pmm) :
    (forFrames first last releaseFrame pmm).freeSet =
        pmm.freeSet ∪ Finset.Ico first.toNat (min last.toNat pmmMaxFrames) ∧
      (forFrames first last releaseFrame pmm).freeFrames =
        pmm.freeFrames + BitVec.ofNat 32 (min last.toNat pmmMaxFrames - first.toNat) ∧
      (forFrames first last releaseFrame pmm).totalFrames =
        pmm.totalFrames + BitVec.ofNat 32 (min last.toNat pmmMaxFrames - first.toNat) := by
  apply forFrames_invariant (fun i current =>
    current.freeSet = pmm.freeSet ∪ Finset.Ico first.toNat i ∧
      current.freeFrames = pmm.freeFrames + BitVec.ofNat 32 (i - first.toNat) ∧
      current.totalFrames = pmm.totalFrames + BitVec.ofNat 32 (i - first.toNat))
  · intro i empty
    simp [Finset.Ico_eq_empty_of_le empty, Nat.sub_eq_zero_of_le empty]
  · rintro frame current above _ inside ⟨added, free, total⟩
    have next : frame + 1 - first.toNat = frame - first.toNat + 1 := Nat.sub_add_comm above
    refine ⟨?_, ?_, ?_⟩
    · have cleared : (releaseFrame frame current).freeSet = insert frame current.freeSet :=
        freeSet_bitmapClear current inside
      rw [cleared, added, Nat.Ico_succ_right_eq_insert_Ico above, Finset.union_insert]
    · simp only [releaseFrame, free, next, BitVec.ofNat_add, BitVec.add_assoc]
    · simp only [releaseFrame, total, next, BitVec.ofNat_add, BitVec.add_assoc]

/-- The frame after the last one that step 3 reserves for the kernel image;
the rounding up to a whole frame wraps modulo 2^32. -/
def kernelEndFrame (kernelEndPhys : BitVec 32) : Nat :=
  ((kernelEndPhys + 4096#32 - 1#32) / 4096#32).toNat

theorem mem_pmmInitReserve (kernelEndPhys : BitVec 32) (pmm : Pmm) :
    frame ∈ (pmmInitReserve kernelEndPhys pmm).freeSet ↔
      frame ∈ pmm.freeSet ∧ 256 ≤ frame ∧ kernelEndFrame kernelEndPhys ≤ frame := by
  have low : lowFrames.toNat = 256 := by decide
  unfold pmmInitReserve
  rw [(forFrames_reserve _ _ _).1, (forFrames_reserve _ _ _).1]
  change _ ∈ (pmm.freeSet \ _) \ Finset.Ico _ (min (kernelEndFrame kernelEndPhys) _) ↔ _
  simp only [Finset.mem_sdiff, Finset.mem_Ico, low, BitVec.toNat_ofNat, and_assoc]
  constructor
  · rintro ⟨free, high, outside⟩
    have inside := lt_of_mem_freeSet free
    exact ⟨free, by omega, by omega⟩
  · rintro ⟨free, high, outside⟩
    exact ⟨free, by omega, by omega⟩

theorem pmmInitReserve_drift (kernelEndPhys : BitVec 32) (pmm : Pmm) :
    (pmmInitReserve kernelEndPhys pmm).drift = pmm.drift := by
  unfold pmmInitReserve
  rw [(forFrames_reserve _ _ _).2.1, (forFrames_reserve _ _ _).2.1]

theorem pmmInitReserve_totalFrames (kernelEndPhys : BitVec 32) (pmm : Pmm) :
    (pmmInitReserve kernelEndPhys pmm).totalFrames = pmm.totalFrames := by
  unfold pmmInitReserve
  rw [(forFrames_reserve _ _ _).2.2, (forFrames_reserve _ _ _).2.2]

/-- Below the last page of the address space the rounding up is exact. -/
theorem kernelEndFrame_le_iff {kernelEndPhys : BitVec 32} (small : kernelEndPhys ≤ 0xFFFFF000#32) :
    kernelEndFrame kernelEndPhys ≤ frame ↔ kernelEndPhys.toNat ≤ 4096 * frame := by
  have rounded : kernelEndFrame kernelEndPhys = (kernelEndPhys.toNat + 4095) / 4096 := by
    rw [BitVec.le_def] at small
    simp only [BitVec.toNat_ofNat, Nat.reducePow, Nat.reduceMod] at small
    simp only [kernelEndFrame, BitVec.toNat_udiv, BitVec.toNat_sub, BitVec.toNat_add,
      BitVec.toNat_ofNat, Nat.reducePow, Nat.reduceMod, Nat.reduceSub]
    omega
  omega

theorem allocScanWord_none {bitmap : Bitmap} (failed : allocScanWord bitmap i = none) :
    ∀ bit < 32, bitmapTest bitmap (i * 32 + bit) = true := by
  intro bit inside
  unfold allocScanWord at failed
  split at failed
  · rename_i ones
    exact (WordBitmap.word_eq_allOnes bitmap i).mp ones bit inside
  · have used := List.find?_eq_none.mp failed (i * 32 + bit)
      (List.mem_map.mpr ⟨bit, List.mem_range.mpr inside, rfl⟩)
    simpa using used

theorem allocScanWord_some {bitmap : Bitmap} (found : allocScanWord bitmap i = some frame) :
    ∃ bit < 32, frame = i * 32 + bit ∧ bitmapTest bitmap frame = false ∧
      ∀ lower < bit, bitmapTest bitmap (i * 32 + lower) = true := by
  unfold allocScanWord at found
  split at found
  · cases found
  · rw [List.find?_map] at found
    obtain ⟨bit, first, rfl⟩ := Option.map_eq_some_iff.mp found
    obtain ⟨clear, inside, earlier⟩ := List.find?_range_eq_some.mp first
    refine ⟨bit, List.mem_range.mp inside, rfl, by simpa using clear, ?_⟩
    intro lower below
    simpa using earlier lower below

private theorem frame_split (frame : Nat) : frame = frame / 32 * 32 + frame % 32 :=
  (Nat.div_add_mod' frame 32).symm

theorem allocScan_none {bitmap : Bitmap} (failed : allocScan bitmap = none) :
    bitmap.zeros = ∅ := by
  apply Finset.eq_empty_iff_forall_notMem.mpr
  intro frame free
  obtain ⟨inside, clear⟩ := WordBitmap.mem_zeros.mp free
  have row : frame / 32 < bitmapWords := Nat.div_lt_of_lt_mul (by rwa [Nat.mul_comm])
  have skipped := List.findSome?_eq_none_iff.mp failed (frame / 32) (List.mem_range.mpr row)
  have used := allocScanWord_none skipped (frame % 32) (Nat.mod_lt frame (by decide))
  rw [← frame_split frame, bitmapTest, clear] at used
  cases used

/-- The scan finds the first clear bit. -/
theorem allocScan_some {bitmap : Bitmap} (found : allocScan bitmap = some frame) :
    frame ∈ bitmap.zeros ∧ ∀ other ∈ bitmap.zeros, frame ≤ other := by
  obtain ⟨before, i, after, rows, selected, skipped⟩ := List.findSome?_eq_some_iff.mp found
  rw [List.range_eq_range'] at rows
  obtain ⟨k, bound, rfl, rest⟩ := List.range'_eq_append_iff.mp rows
  obtain ⟨same, remaining, _⟩ := List.range'_eq_cons_iff.mp rest.symm
  obtain rfl : k = i := by omega
  obtain ⟨bit, inside, rfl, clear, earlier⟩ := allocScanWord_some selected
  constructor
  · exact WordBitmap.mem_zeros.mpr ⟨by omega, clear⟩
  · intro other free
    have used := (WordBitmap.mem_zeros.mp free).2
    by_contra smaller
    -- a smaller clear bit lies in a skipped word, or before `bit` in this one
    rcases Nat.lt_or_ge (other / 32) k with earlierWord | laterWord
    · have full := allocScanWord_none (skipped (other / 32) (by simpa using earlierWord))
        (other % 32) (Nat.mod_lt other (by decide))
      rw [← frame_split other, bitmapTest, used] at full
      cases full
    · have lower : other % 32 < bit ∧ other / 32 = k := by omega
      have full := earlier (other % 32) lower.1
      rw [← lower.2, ← frame_split other, bitmapTest, used] at full
      cases full

/-- Everything `pmm_alloc_frame` can do: take the first free frame, or find none. -/
theorem pmmAllocFrame_cases (pmm : Pmm) :
    (∃ frame ∈ pmm.freeSet, (∀ other ∈ pmm.freeSet, frame ≤ other) ∧
      pmmAllocFrame pmm = ({ pmm with
        bitmap := bitmapSet pmm.bitmap frame, freeFrames := pmm.freeFrames - 1#32 },
        BitVec.ofNat 32 (4096 * frame))) ∨
    (pmm.freeSet = ∅ ∧ pmmAllocFrame pmm = (pmm, 0#32)) := by
  unfold pmmAllocFrame
  cases scanned : allocScan pmm.bitmap with
  | none => exact .inr ⟨allocScan_none scanned, rfl⟩
  | some frame =>
    obtain ⟨free, least⟩ := allocScan_some scanned
    refine .inl ⟨frame, free, least, ?_⟩
    simp [BitVec.ofNat_mul, BitVec.mul_comm]

/-- The frame that an address lies in. -/
def frameOf (physAddr : BitVec 32) : Nat := physAddr.toNat / 4096

theorem frameOf_lt (physAddr : BitVec 32) : frameOf physAddr < pmmMaxFrames := by
  have bound := physAddr.isLt
  unfold frameOf pmmMaxFrames
  omega

/-- Everything `pmm_free_frame` can do: release a used frame, or ignore the
address of a free one. -/
theorem pmmFreeFrame_cases (pmm : Pmm) (physAddr : BitVec 32) :
    (frameOf physAddr ∉ pmm.freeSet ∧ pmmFreeFrame pmm physAddr = { pmm with
      bitmap := bitmapClear pmm.bitmap (frameOf physAddr), freeFrames := pmm.freeFrames + 1#32 }) ∨
    (frameOf physAddr ∈ pmm.freeSet ∧ pmmFreeFrame pmm physAddr = pmm) := by
  have frame : (physAddr / 4096#32).toNat = frameOf physAddr := by simp [frameOf]
  have inside := frameOf_lt physAddr
  unfold pmmFreeFrame
  simp only [frame, inside, decide_true, Bool.true_and]
  split
  · rename_i used
    refine .inl ⟨?_, rfl⟩
    intro free
    rw [(mem_freeSet.mp free).2] at used
    cases used
  · rename_i clear
    exact .inr ⟨mem_freeSet.mpr ⟨inside, by simpa using clear⟩, rfl⟩

theorem pmmFreeFrame_freeSet (pmm : Pmm) (physAddr : BitVec 32) :
    (pmmFreeFrame pmm physAddr).freeSet = insert (frameOf physAddr) pmm.freeSet := by
  rcases pmmFreeFrame_cases pmm physAddr with ⟨_, freed⟩ | ⟨clear, same⟩
  · rw [freed]
    exact freeSet_bitmapClear pmm (frameOf_lt physAddr)
  · rw [same, Finset.insert_eq_of_mem clear]

theorem address_toNat (inside : frame < pmmMaxFrames) :
    (BitVec.ofNat 32 (4096 * frame)).toNat = 4096 * frame := by
  unfold pmmMaxFrames at inside
  rw [BitVec.toNat_ofNat]
  omega

/-- An allocation in terms of the free set: the least frame leaves it. -/
theorem pmmAllocFrame_effect (pmm : Pmm) :
    (∃ frame ∈ pmm.freeSet, (∀ other ∈ pmm.freeSet, frame ≤ other) ∧
      (pmmAllocFrame pmm).2.toNat = 4096 * frame ∧
      (pmmAllocFrame pmm).1.freeSet = pmm.freeSet.erase frame) ∨
    (pmm.freeSet = ∅ ∧ pmmAllocFrame pmm = (pmm, 0#32)) := by
  rcases pmmAllocFrame_cases pmm with ⟨frame, free, least, taken⟩ | exhausted
  · have inside := lt_of_mem_freeSet free
    refine .inl ⟨frame, free, least, ?_, ?_⟩
    · rw [taken, address_toNat inside]
    · rw [taken]
      exact freeSet_bitmapSet pmm inside
  · exact .inr exhausted

end AstraOS.Memory
