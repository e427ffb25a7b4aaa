import AstraOS.Memory.Ownership

/-! The allocator from any state whatever: first fit against a plain scan of
the frames, and the count of free frames over whole runs. -/

namespace AstraOS.Memory

open Foundation

/-- The search without the word skip: every frame in turn. -/
def plainScan (bitmap : Bitmap) : Option Nat :=
  (List.range pmmMaxFrames).find? (fun frame => !bitmapTest bitmap frame)

/-- The frame found by either search: clear, with every lower frame used. -/
def FirstClear (bitmap : Bitmap) (frame : Nat) : Prop :=
  frame < pmmMaxFrames ∧ bitmapTest bitmap frame = false ∧
    ∀ lower < frame, bitmapTest bitmap lower = true

theorem plainScan_some (bitmap : Bitmap) : plainScan bitmap = some frame ↔ FirstClear bitmap frame := by
  unfold plainScan FirstClear
  rw [List.find?_range_eq_some]
  constructor
  · rintro ⟨clear, inside, earlier⟩
    exact ⟨List.mem_range.mp inside, by simpa using clear, fun lower below => by simpa using earlier lower below⟩
  · rintro ⟨inside, clear, earlier⟩
    exact ⟨by simpa using clear, List.mem_range.mpr inside, fun lower below => by simpa using earlier lower below⟩

theorem firstClear_of_least (pmm : Pmm) (free : frame ∈ pmm.freeSet)
    (least : ∀ other ∈ pmm.freeSet, frame ≤ other) : FirstClear pmm.bitmap frame := by
  obtain ⟨inside, clear⟩ := mem_freeSet.mp free
  refine ⟨inside, clear, ?_⟩
  intro lower below
  by_contra unused
  have member : lower ∈ pmm.freeSet :=
    mem_freeSet.mpr ⟨Nat.lt_trans below inside, by simpa using unused⟩
  exact absurd (least lower member) (Nat.not_le.mpr below)

theorem FirstClear.unique {bitmap : Bitmap} (one : FirstClear bitmap first)
    (two : FirstClear bitmap second) : first = second := by
  rcases Nat.lt_trichotomy first second with below | same | above
  · have used := two.2.2 first below
    rw [one.2.1] at used
    cases used
  · exact same
  · have used := one.2.2 second above
    rw [two.2.1] at used
    cases used

/-- Skipping the words of ones changes nothing. -/
theorem allocScan_eq_plainScan (bitmap : Bitmap) : allocScan bitmap = plainScan bitmap := by
  cases scanned : allocScan bitmap with
  | some frame =>
    obtain ⟨free, least⟩ := allocScan_some scanned
    have first : FirstClear bitmap frame := firstClear_of_least ⟨bitmap, 0#32, 0#32⟩ free least
    exact ((plainScan_some bitmap).mpr first).symm
  | none =>
    have empty := allocScan_none scanned
    cases plain : plainScan bitmap with
    | none => rfl
    | some frame =>
      obtain ⟨inside, clear, _⟩ := (plainScan_some bitmap).mp plain
      have member : frame ∈ bitmap.zeros := WordBitmap.mem_zeros.mpr ⟨inside, clear⟩
      simp [empty] at member

/-- What an allocation that finds `frame` does to the manager. -/
structure Takes (pmm : Pmm) (frame : Nat) (after : Pmm) (returned : BitVec 32) : Prop where
  address : returned.toNat = 4096 * frame
  taken : bitmapTest after.bitmap frame = true
  others : ∀ other < pmmMaxFrames, other ≠ frame →
    bitmapTest after.bitmap other = bitmapTest pmm.bitmap other
  counted : after.freeFrames = pmm.freeFrames - 1#32
  total : after.totalFrames = pmm.totalFrames

theorem takes_first {pmm : Pmm} (first : FirstClear pmm.bitmap frame) :
    Takes pmm frame (pmmAllocFrame pmm).1 (pmmAllocFrame pmm).2 := by
  have inside : frame < pmmMaxFrames := first.1
  have scanned : allocScan pmm.bitmap = some frame := by
    rw [allocScan_eq_plainScan]
    exact (plainScan_some pmm.bitmap).mpr first
  have changed : ∀ other, bitmapTest (bitmapSet pmm.bitmap frame) other =
      (decide (frame = other) || bitmapTest pmm.bitmap other) := WordBitmap.test_set pmm.bitmap inside
  unfold pmmAllocFrame
  rw [scanned]
  refine ⟨?_, ?_, ?_, rfl, rfl⟩
  · have product : BitVec.ofNat 32 frame * 4096#32 = BitVec.ofNat 32 (4096 * frame) := by
      rw [Nat.mul_comm, BitVec.ofNat_mul]
    show (BitVec.ofNat 32 frame * 4096#32).toNat = 4096 * frame
    rw [product, address_toNat inside]
  · show bitmapTest (bitmapSet pmm.bitmap frame) frame = true
    rw [changed]
    simp
  · intro other _ different
    show bitmapTest (bitmapSet pmm.bitmap frame) other = bitmapTest pmm.bitmap other
    rw [changed]
    simp [Ne.symm different]

/-- From every state `pmm_alloc_frame` takes the first clear frame, or changes
nothing if there is none; its scan is the plain one. -/
theorem alloc_first_fit (pmm : Pmm) :
    allocScan pmm.bitmap = plainScan pmm.bitmap ∧
    (∀ frame, FirstClear pmm.bitmap frame →
      Takes pmm frame (pmmAllocFrame pmm).1 (pmmAllocFrame pmm).2) ∧
    ((∀ frame < pmmMaxFrames, bitmapTest pmm.bitmap frame = true) → pmmAllocFrame pmm = (pmm, 0#32)) ∧
    ((∃ frame < pmmMaxFrames, bitmapTest pmm.bitmap frame = false) → ∃ frame, FirstClear pmm.bitmap frame) := by
  refine ⟨allocScan_eq_plainScan pmm.bitmap, fun frame first => takes_first first, ?_, ?_⟩
  · intro used
    rcases pmmAllocFrame_cases pmm with ⟨frame, free, _, _⟩ | ⟨_, same⟩
    · obtain ⟨inside, clear⟩ := mem_freeSet.mp free
      rw [used frame inside] at clear
      cases clear
    · exact same
  · rintro ⟨frame, inside, clear⟩
    rcases pmmAllocFrame_cases pmm with ⟨first, free, least, _⟩ | ⟨empty, _⟩
    · exact ⟨first, firstClear_of_least pmm free least⟩
    · have member : frame ∈ pmm.freeSet := mem_freeSet.mpr ⟨inside, clear⟩
      simp [empty] at member

theorem PmmStep.drift {pmm after : Pmm} (taken : PmmStep pmm call after) : after.drift = pmm.drift := by
  cases taken with
  | alloc =>
    rcases pmmAllocFrame_cases pmm with ⟨frame, free, _, result⟩ | ⟨_, same⟩
    · have removed := freeSet_bitmapSet pmm (lt_of_mem_freeSet free)
      rw [result, ← drift_take pmm free, ← removed]
      rfl
    · rw [same]
  | free physAddr =>
    rcases pmmFreeFrame_cases pmm physAddr with ⟨used, result⟩ | ⟨_, same⟩
    · have added := freeSet_bitmapClear pmm (frameOf_lt physAddr)
      rw [result, ← drift_give pmm used, ← added]
      rfl
    · rw [same]

/-- The counter is the number of clear bits. -/
def CountExact (pmm : Pmm) : Prop := pmm.freeFrames.toNat = pmm.freeSet.card

theorem CountExact.step {pmm after : Pmm} (held : CountExact pmm) (taken : PmmStep pmm call after) :
    CountExact after := by
  apply (drift_eq_zero_iff after).mp
  rw [taken.drift]
  exact (drift_eq_zero_iff pmm).mpr held

/-- One call moves the counter by at most one, without wrapping. -/
theorem CountExact.moves {pmm after : Pmm} (held : CountExact pmm) (taken : PmmStep pmm call after) :
    after.freeFrames = pmm.freeFrames ∨ after.freeFrames.toNat + 1 = pmm.freeFrames.toNat ∨
      after.freeFrames.toNat = pmm.freeFrames.toNat + 1 := by
  have kept : after.freeFrames.toNat = after.freeSet.card := held.step taken
  have counted : pmm.freeFrames.toNat = pmm.freeSet.card := held
  cases taken with
  | alloc =>
    rcases pmmAllocFrame_effect pmm with ⟨frame, free, _, _, rest⟩ | ⟨_, same⟩
    · right
      left
      rw [kept, counted, rest]
      exact Finset.card_erase_add_one free
    · exact .inl (by rw [same])
  | free physAddr =>
    rcases pmmFreeFrame_cases pmm physAddr with ⟨used, _⟩ | ⟨_, same⟩
    · right
      right
      rw [kept, counted, pmmFreeFrame_freeSet, Finset.card_insert_of_notMem used]
    · exact .inl (by rw [same])

/-- Every call with every address keeps the counter exact, so it stays in the
range of frames and no call ever wraps it. -/
theorem free_count_exact {start pmm : Pmm} (initial : CountExact start)
    (run : Run PmmStep start calls pmm) :
    CountExact pmm ∧ (pmmFreeFrames pmm).toNat ≤ pmmMaxFrames ∧
      ∀ call after, PmmStep pmm call after →
        after.freeFrames = pmm.freeFrames ∨ after.freeFrames.toNat + 1 = pmm.freeFrames.toNat ∨
          after.freeFrames.toNat = pmm.freeFrames.toNat + 1 := by
  have counted : CountExact pmm := by
    refine run.invariant (fun _ pmm => CountExact pmm) initial ?_
    intro _ state call after held taken
    exact held.step taken
  refine ⟨counted, ?_, fun call after taken => counted.moves taken⟩
  have bound := freeSet_card_le pmm
  rwa [← show pmm.freeFrames.toNat = pmm.freeSet.card from counted] at bound

/-- From the empty manager: a free of a reserved frame, the same again inside
the frame, and the allocation that takes it. -/
theorem free_count_exact_double_free :
    ∃ pmm, Run PmmStep Pmm.allUsed [.free 0x5000#32, .free 0x5123#32, .alloc 0x5000#32] pmm ∧
      CountExact pmm := by
  have initial : CountExact Pmm.allUsed := by
    unfold CountExact
    rw [allUsed_freeSet]
    rfl
  have opened : (pmmFreeFrame (pmmFreeFrame Pmm.allUsed 0x5000#32) 0x5123#32).freeSet = {5} := by
    rw [pmmFreeFrame_freeSet, pmmFreeFrame_freeSet, allUsed_freeSet]
    decide
  have returned : (pmmAllocFrame (pmmFreeFrame (pmmFreeFrame Pmm.allUsed 0x5000#32) 0x5123#32)).2 =
      0x5000#32 := by
    rcases pmmAllocFrame_effect (pmmFreeFrame (pmmFreeFrame Pmm.allUsed 0x5000#32) 0x5123#32) with
      ⟨frame, free, _, address, _⟩ | ⟨empty, _⟩
    · rw [opened, Finset.mem_singleton] at free
      rw [free] at address
      exact BitVec.eq_of_toNat_eq address
    · simp [opened] at empty
  have run := Run.next (.next (.next .start (PmmStep.free Pmm.allUsed 0x5000#32)) (.free _ 0x5123#32)) (.alloc _)
  rw [returned] at run
  exact ⟨_, run, (free_count_exact initial run).1⟩

end AstraOS.Memory
