import AstraOS.Memory.PmmInvariant

/-! `pmm_init` over a well-formed memory map: the byte walk visits exactly the
records, in order, and each adds its own frames to the free set. -/

namespace AstraOS.Memory

open Foundation

/-- `pmm_init`, called at boot, returns and leaves this state. -/
def PmmInit (memory : Memory 32) (info : MultibootInfo) (kernelEndPhys : BitVec 32) (pmm : Pmm) : Prop :=
  ∃ fuel, pmmInit fuel memory info kernelEndPhys Pmm.boot = some pmm

/-- What steps 1 and 2 compute, apart from what they read. -/
theorem pmmInitMap_eq (fuel : Nat) (memory : Memory 32) (info : MultibootInfo) (pmm : Pmm) :
    pmmInitMap fuel memory info pmm =
      let marked := { pmm with
        bitmap := forRange 0 bitmapWords (fun i bitmap => bitmap.setIfInBounds i 0xFFFFFFFF#32) pmm.bitmap }
      if info.flags &&& 1#32 <<< 6 = 0#32 then some (releaseUpper info marked)
      else (whileLoop (fun cursor => decide (cursor.1 < info.mmapAddr + info.mmapLength)) (mmapStep memory) fuel
        (info.mmapAddr, marked)).map Prod.snd := by
  unfold pmmInitMap pmmInitWalk
  by_cases absent : info.flags &&& 1#32 <<< 6 = 0#32
  · simp only [if_pos absent, Reading.value_pure]
  · simp only [if_neg absent, Reading.value_map, Reading.value_loop]
    rfl

theorem pmmInitMap_mono {pmm left right : Pmm}
    (first : pmmInitMap fuel memory info pmm = some left) (more : fuel ≤ budget)
    (second : pmmInitMap budget memory info pmm = some right) : left = right := by
  rw [pmmInitMap_eq] at first second
  split at first
  · rename_i absent
    rw [if_pos absent] at second
    exact Option.some.inj (first.symm.trans second)
  · rename_i announced
    rw [if_neg announced] at second
    obtain ⟨one, ended, rfl⟩ := Option.map_eq_some_iff.mp first
    obtain ⟨two, stopped, rfl⟩ := Option.map_eq_some_iff.mp second
    have same := (whileLoop_mono ended more).symm.trans stopped
    rw [Option.some.inj same]

theorem PmmInit.unique (first : PmmInit memory info kernelEndPhys left)
    (second : PmmInit memory info kernelEndPhys right) : left = right := by
  obtain ⟨fuel, one⟩ := first
  obtain ⟨budget, two⟩ := second
  obtain ⟨mapped, walked, rfl⟩ := Option.map_eq_some_iff.mp one
  obtain ⟨again, rewalked, rfl⟩ := Option.map_eq_some_iff.mp two
  rcases Nat.le_total fuel budget with more | less
  · rw [pmmInitMap_mono walked more rewalked]
  · rw [pmmInitMap_mono rewalked less walked]

/-- The effect of one entry on the manager, without the walk's cursor. -/
def releaseEntry (pmm : Pmm) (entry : MmapEntry) : Pmm :=
  if entry.type = 1#32 ∧ entry.addr < 0x100000000#64 then
    forFrames (firstFrame entry) (firstFrame entry + numFrames entry) releaseFrame pmm
  else pmm

/-- Both ways through the loop body advance by the declared size. -/
theorem mmapStep_eq (memory : Memory 32) (addr : BitVec 32) (pmm : Pmm) :
    mmapStep memory (addr, pmm) = (addr + ((readEntry memory addr).size + 4#32),
      releaseEntry pmm (readEntry memory addr)) := by
  simp only [mmapStep, mmapTurn, Reading.value_bind, loadType_value]
  unfold releaseEntry
  by_cases available : (readEntry memory addr).type = 1#32
  · rw [if_pos available]
    simp only [Reading.value_bind, loadAddr_value, loadLen_value]
    by_cases high : (readEntry memory addr).addr ≥ 0x100000000#64
    · have above : ¬ (readEntry memory addr).addr < 0x100000000#64 := BitVec.not_lt.mpr high
      rw [if_pos high, if_neg (fun both => above both.2)]
      simp only [Reading.value_bind, Reading.value_pure, loadSize_value]
    · have below : (readEntry memory addr).addr < 0x100000000#64 := BitVec.not_le.mp high
      rw [if_neg high, if_pos ⟨available, below⟩]
      simp only [Reading.value_bind, Reading.value_pure, loadSize_value]
  · rw [if_neg available, if_neg (fun both => available both.1)]
    simp only [Reading.value_bind, Reading.value_pure, loadSize_value]

/-- The walk over stored records is the fold over those records. -/
theorem walk_records {memory : Memory 32} {finish : BitVec 32} (records : List MapRecord)
    (address : BitVec 32) (pmm : Pmm)
    (stored : Stored memory address (records.flatMap MapRecord.bytes))
    (spans : address.toNat + (records.flatMap MapRecord.bytes).length = finish.toNat) :
    whileLoop (fun cursor => decide (cursor.1 < finish)) (mmapStep memory) (records.length + 1)
      (address, pmm) =
        some (finish, (records.map MapRecord.toMmapEntry).foldl releaseEntry pmm) := by
  induction records generalizing address pmm with
  | nil =>
    obtain rfl : address = finish := BitVec.eq_of_toNat_eq (by simpa using spans)
    simp [whileLoop]
  | cons record rest ih =>
    rw [List.flatMap_cons, stored_append] at stored
    rw [List.flatMap_cons, List.length_append] at spans
    have length := record.bytes_length
    have bound := finish.isLt
    have continues : address < finish := by
      rw [BitVec.lt_def]
      omega
    have advance : address + BitVec.ofNat 32 record.bytes.length = address + (record.size + 4#32) := by
      rw [length, BitVec.ofNat_add]
      simp
    have position : (address + (record.size + 4#32)).toNat = address.toNat + record.bytes.length := by
      rw [← advance, BitVec.toNat_add, BitVec.toNat_ofNat]
      omega
    rw [whileLoop, if_pos (by simpa using continues), mmapStep_eq, readEntry_bytes stored.1]
    rw [advance] at stored
    exact ih _ _ stored.2 (by omega)

private theorem marked_full (bitmap : Bitmap) :
    forRange 0 bitmapWords (fun i bitmap => bitmap.setIfInBounds i 0xFFFFFFFF#32) bitmap =
      WordBitmap.full 32 bitmapWords :=
  WordBitmap.forRange_fill bitmap (BitVec.allOnes 32)

/-- The manager after step 1 at boot: every frame used, nothing counted. -/
def Pmm.allUsed : Pmm := ⟨WordBitmap.full 32 bitmapWords, 0#32, 0#32⟩

@[simp] theorem allUsed_freeSet : Pmm.allUsed.freeSet = ∅ := WordBitmap.zeros_full

/-- With a map announced, steps 1 and 2 at boot are the walk from `mmap_addr`. -/
theorem pmmInitMap_walk (announced : info.flags &&& 1#32 <<< 6 ≠ 0#32) (fuel : Nat) (memory : Memory 32) :
    pmmInitMap fuel memory info Pmm.boot =
      (whileLoop (fun cursor => decide (cursor.1 < info.mmapAddr + info.mmapLength)) (mmapStep memory) fuel
        (info.mmapAddr, Pmm.allUsed)).map Prod.snd := by
  rw [pmmInitMap_eq, if_neg announced]
  simp only [marked_full, Pmm.boot]
  rfl

/-- Steps 1 and 2 end on every well-formed map. -/
theorem pmmInitMap_records (map : WellFormedMap memory info records) :
    pmmInitMap (records.length + 1) memory info Pmm.boot =
      some ((records.map MapRecord.toMmapEntry).foldl releaseEntry Pmm.allUsed) := by
  have spans : info.mmapAddr.toNat + (records.flatMap MapRecord.bytes).length =
      (info.mmapAddr + info.mmapLength).toNat := by
    rw [map.filled, BitVec.toNat_add, Nat.mod_eq_of_lt map.below]
  rw [pmmInitMap_walk map.announced, walk_records records info.mmapAddr Pmm.allUsed map.stored spans]
  rfl

theorem pmmInit_records (map : WellFormedMap memory info records) (kernelEndPhys : BitVec 32) :
    PmmInit memory info kernelEndPhys (pmmInitReserve kernelEndPhys
      ((records.map MapRecord.toMmapEntry).foldl releaseEntry Pmm.allUsed)) := by
  refine ⟨records.length + 1, ?_⟩
  simp [pmmInit, pmmInitMap_records map]

/-- Without a map the fallback is all there is to step 2. -/
theorem pmmInit_fallback (absent : info.flags &&& 1#32 <<< 6 = 0#32) (memory : Memory 32)
    (kernelEndPhys : BitVec 32) :
    PmmInit memory info kernelEndPhys (pmmInitReserve kernelEndPhys (releaseUpper info Pmm.allUsed)) := by
  refine ⟨0, ?_⟩
  rw [pmmInit, pmmInitMap_eq, if_pos absent]
  simp only [marked_full, Pmm.boot]
  rfl

theorem pmmInit_returns (map : WellFormedMap memory info records) (kernelEndPhys : BitVec 32) :
    ∃ pmm, PmmInit memory info kernelEndPhys pmm := ⟨_, pmmInit_records map kernelEndPhys⟩

/-- The frames that the loop for one entry runs over. -/
def entryFrames (entry : MmapEntry) : Finset Nat :=
  if entry.type = 1#32 ∧ entry.addr < 0x100000000#64 then
    Finset.Ico (firstFrame entry).toNat (min (firstFrame entry + numFrames entry).toNat pmmMaxFrames)
  else ∅

theorem releaseEntry_effect (pmm : Pmm) (entry : MmapEntry) :
    (releaseEntry pmm entry).freeSet = pmm.freeSet ∪ entryFrames entry ∧
      (releaseEntry pmm entry).freeFrames =
        pmm.freeFrames + BitVec.ofNat 32 (entryFrames entry).card ∧
      (releaseEntry pmm entry).totalFrames =
        pmm.totalFrames + BitVec.ofNat 32 (entryFrames entry).card := by
  unfold releaseEntry entryFrames
  split
  · simpa using forFrames_release (firstFrame entry) (firstFrame entry + numFrames entry) pmm
  · simp

/-- Step 2 as a whole: the union of the frames, and the sum of their counts. -/
theorem foldl_releaseEntry_effect (entries : List MmapEntry) (pmm : Pmm) :
    (∀ frame, frame ∈ (entries.foldl releaseEntry pmm).freeSet ↔
        frame ∈ pmm.freeSet ∨ ∃ entry ∈ entries, frame ∈ entryFrames entry) ∧
      (entries.foldl releaseEntry pmm).freeFrames = pmm.freeFrames +
        BitVec.ofNat 32 (entries.map (fun entry => (entryFrames entry).card)).sum ∧
      (entries.foldl releaseEntry pmm).totalFrames = pmm.totalFrames +
        BitVec.ofNat 32 (entries.map (fun entry => (entryFrames entry).card)).sum := by
  induction entries generalizing pmm with
  | nil => simp
  | cons entry rest ih =>
    obtain ⟨union, free, total⟩ := releaseEntry_effect pmm entry
    obtain ⟨unionRest, freeRest, totalRest⟩ := ih (releaseEntry pmm entry)
    simp only [List.foldl_cons, List.map_cons, List.sum_cons, BitVec.ofNat_add]
    refine ⟨?_, ?_, ?_⟩
    · intro frame
      simp [unionRest, union, or_assoc]
    · rw [freeRest, free, BitVec.add_assoc]
    · rw [totalRest, total, BitVec.add_assoc]

end AstraOS.Memory
