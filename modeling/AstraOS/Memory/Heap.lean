import AstraOS.Foundation.Mask
import AstraOS.Foundation.Run

/-! The kernel's bump-pointer heap. Pointers into `heap_area` are kept as
offsets from its start. -/

namespace AstraOS.Memory

open Foundation

/-- `HEAP_SIZE`: 256 KiB. -/
def heapSize : BitVec 32 := 256#32 * 1024#32

/-- How a call to `kmalloc` ends: with `heap_area + ptr`, or never. -/
inductive KmallocResult where
  | block (ptr : BitVec 32)
  | panic (message : String)
  deriving DecidableEq

/-- `kmalloc` on the static `heap_offset`, with the offset it leaves. -/
def kmalloc (heapOffset size : BitVec 32) : BitVec 32 × KmallocResult :=
  let size := (size + 15#32) &&& ~~~15#32
  if heapOffset + size > heapSize then (heapOffset, .panic "kmalloc: kernel heap exhausted")
  else (heapOffset + size, .block heapOffset)

/-- `kfree` ignores its argument. -/
def kfree (heapOffset _ptr : BitVec 32) : BitVec 32 := heapOffset

structure Heap where
  heapOffset : BitVec 32
  halted : Bool

def Heap.boot : Heap := ⟨0#32, false⟩

/-- A call, with the offset at which `kmalloc` found the heap. -/
inductive HeapCall where
  | kmalloc (heapOffset size : BitVec 32) (result : KmallocResult)
  | kfree (ptr : BitVec 32)
  deriving DecidableEq

/-- Calls follow each other until one of them panics. -/
inductive HeapStep : Heap → HeapCall → Heap → Prop where
  | block (returned : Memory.kmalloc heapOffset size = (after, .block ptr)) :
      HeapStep ⟨heapOffset, false⟩ (.kmalloc heapOffset size (.block ptr)) ⟨after, false⟩
  | panic (failed : Memory.kmalloc heapOffset size = (after, .panic message)) :
      HeapStep ⟨heapOffset, false⟩ (.kmalloc heapOffset size (.panic message)) ⟨after, true⟩
  | kfree : HeapStep ⟨heapOffset, false⟩ (.kfree ptr) ⟨Memory.kfree heapOffset ptr, false⟩

/-- The size rounded up to 16, in exact integers. -/
def roundUp (size : Nat) : Nat := (size + 15) / 16 * 16

theorem le_roundUp (size : Nat) : size ≤ roundUp size := by
  unfold roundUp
  omega

/-- Neither the rounding of the size nor the sum with the offset wraps. -/
def NoWrap (heapOffset size : BitVec 32) : Prop :=
  size.toNat + 15 < 2 ^ 32 ∧ heapOffset.toNat + roundUp size.toNat < 2 ^ 32

theorem rounded_toNat (size : BitVec 32) :
    ((size + 15#32) &&& ~~~15#32).toNat = (size.toNat + 15) % 2 ^ 32 / 16 * 16 := by
  have masked := and_not_mask_toNat (size + 15#32) 4
  simpa only [Nat.reducePow, Nat.reduceSub, BitVec.toNat_add, BitVec.toNat_ofNat, Nat.reduceMod] using masked

/-- Everything `kmalloc` can do on a heap whose offset is in bounds. A request
that wraps is always granted, and the offset then moves backwards or stays. -/
theorem kmalloc_cases {heapOffset : BitVec 32} (size : BitVec 32)
    (bounded : heapOffset.toNat ≤ heapSize.toNat) :
    (NoWrap heapOffset size ∧ heapOffset.toNat + roundUp size.toNat ≤ heapSize.toNat ∧
      ∃ after : BitVec 32, after.toNat = heapOffset.toNat + roundUp size.toNat ∧
        kmalloc heapOffset size = (after, .block heapOffset)) ∨
    (NoWrap heapOffset size ∧ heapSize.toNat < heapOffset.toNat + roundUp size.toNat ∧
      kmalloc heapOffset size = (heapOffset, .panic "kmalloc: kernel heap exhausted")) ∨
    (¬ NoWrap heapOffset size ∧ heapSize.toNat < size.toNat ∧
      ∃ after : BitVec 32, after.toNat ≤ heapOffset.toNat ∧
        kmalloc heapOffset size = (after, .block heapOffset)) := by
  have limit : heapSize.toNat = 262144 := by decide
  have rounded := rounded_toNat size
  have small := size.isLt
  unfold kmalloc NoWrap
  generalize (size + 15#32) &&& ~~~15#32 = aligned at rounded ⊢
  have sum : (heapOffset + aligned).toNat = (heapOffset.toNat + aligned.toNat) % 2 ^ 32 :=
    BitVec.toNat_add heapOffset aligned
  simp only [gt_iff_lt, BitVec.lt_def]
  unfold roundUp
  rw [limit] at bounded ⊢
  by_cases wrapped : size.toNat + 15 < 2 ^ 32 ∧ heapOffset.toNat + (size.toNat + 15) / 16 * 16 < 2 ^ 32
  · by_cases fits : heapOffset.toNat + (size.toNat + 15) / 16 * 16 ≤ 262144
    · refine .inl ⟨wrapped, fits, heapOffset + aligned, by omega, ?_⟩
      rw [if_neg (by omega)]
    · refine .inr (.inl ⟨wrapped, by omega, ?_⟩)
      rw [if_pos (by omega)]
  · refine .inr (.inr ⟨wrapped, by omega, heapOffset + aligned, by omega, ?_⟩)
    rw [if_neg (by omega)]

theorem kmalloc_panicked {heapOffset : BitVec 32}
    (failed : kmalloc heapOffset size = (next, .panic message)) : next = heapOffset := by
  simp only [kmalloc] at failed
  split at failed
  · exact (Prod.mk.inj failed).1.symm
  · cases (Prod.mk.inj failed).2

/-- A block starts at the old offset, and the new one has passed the check. -/
theorem kmalloc_returned {heapOffset : BitVec 32}
    (returned : kmalloc heapOffset size = (next, .block ptr)) :
    ptr = heapOffset ∧ next = heapOffset + ((size + 15#32) &&& ~~~15#32) ∧ next.toNat ≤ heapSize.toNat := by
  simp only [kmalloc] at returned
  split at returned
  · cases (Prod.mk.inj returned).2
  · rename_i fits
    obtain ⟨rfl, granted⟩ := Prod.mk.inj returned
    exact ⟨(KmallocResult.block.inj granted).symm, rfl, BitVec.le_def.mp (BitVec.not_lt.mp fits)⟩

/-- The rounded size keeps the alignment of the offset, also when the sum wraps. -/
theorem bump_aligned {heapOffset : BitVec 32} (aligned : 16 ∣ heapOffset.toNat) (size : BitVec 32) :
    16 ∣ (heapOffset + ((size + 15#32) &&& ~~~15#32)).toNat := by
  have bound : (16 : Nat) ∣ 2 ^ 32 := ⟨2 ^ 28, rfl⟩
  rw [BitVec.toNat_add, rounded_toNat, Nat.dvd_mod_iff bound]
  exact Nat.dvd_add aligned (Nat.dvd_mul_left 16 _)

/-- Each block lies inside the heap, was asked for in a size that still fitted,
and avoids every non-empty block returned before. -/
structure HeapSafe (calls : List HeapCall) : Prop where
  inside : ∀ heapOffset size ptr, .kmalloc heapOffset size (.block ptr) ∈ calls →
    ptr.toNat + size.toNat ≤ heapSize.toNat
  fitted : ∀ heapOffset size ptr, .kmalloc heapOffset size (.block ptr) ∈ calls →
    roundUp size.toNat ≤ heapSize.toNat - heapOffset.toNat
  disjoint : calls.Pairwise fun earlier later =>
    ∀ heapOffset size ptr heapOffset' size' ptr',
      earlier = .kmalloc heapOffset size (.block ptr) → 0 < size.toNat →
      later = .kmalloc heapOffset' size' (.block ptr') →
      ∀ byte, ptr.toNat ≤ byte → byte < ptr.toNat + size.toNat →
        ¬ (ptr'.toNat ≤ byte ∧ byte < ptr'.toNat + size'.toNat)

/-- No request of the run wraps. -/
def NeverWraps (calls : List HeapCall) : Prop :=
  ∀ heapOffset size result, .kmalloc heapOffset size result ∈ calls → NoWrap heapOffset size

theorem HeapStep.bounded {heap after : Heap} (taken : HeapStep heap call after)
    (bounded : heap.heapOffset.toNat ≤ heapSize.toNat) : after.heapOffset.toNat ≤ heapSize.toNat := by
  cases taken with
  | block returned => exact (kmalloc_returned returned).2.2
  | @panic heapOffset size next message failed =>
    obtain rfl := kmalloc_panicked failed
    exact bounded
  | kfree => exact bounded

/-- The bump pointer never leaves the heap, even after a request that wraps. -/
theorem heapOffset_bounded {heap : Heap} (run : Run HeapStep Heap.boot calls heap) :
    heap.heapOffset.toNat ≤ heapSize.toNat := by
  refine run.invariant (fun _ heap => heap.heapOffset.toNat ≤ heapSize.toNat) (by decide) ?_
  intro _ state call after bounded taken
  exact taken.bounded bounded

/-- Each call of a run is a call of the code at an offset in bounds. -/
theorem run_calls {heap : Heap} (run : Run HeapStep Heap.boot calls heap)
    (member : .kmalloc heapOffset size result ∈ calls) :
    heapOffset.toNat ≤ heapSize.toNat ∧ ∃ after, kmalloc heapOffset size = (after, result) := by
  induction run with
  | start => simp at member
  | @next earlier state after call front taken ih =>
    rcases List.mem_append.mp member with old | new
    · exact ih old
    · have bounded := heapOffset_bounded front
      obtain rfl := List.mem_singleton.mp new
      cases taken with
      | block returned => exact ⟨bounded, _, returned⟩
      | panic failed => exact ⟨bounded, _, failed⟩

/-- A request that wraps is granted far more than the heap holds. -/
theorem neverWraps_of_heapSafe {heap : Heap} (run : Run HeapStep Heap.boot calls heap)
    (safe : HeapSafe calls) : NeverWraps calls := by
  intro heapOffset size result member
  obtain ⟨bounded, after, called⟩ := run_calls run member
  rcases kmalloc_cases size bounded with ⟨exact, _⟩ | ⟨exact, _⟩ | ⟨_, huge, last, _, granted⟩
  · exact exact
  · exact exact
  · obtain ⟨_, rfl⟩ := Prod.mk.inj (called.symm.trans granted)
    have inside := safe.inside heapOffset size heapOffset member
    omega

/-- A call that returns no block adds none. -/
theorem old_block {calls : List HeapCall} {call : HeapCall}
    (other : ∀ heapOffset size ptr, call ≠ .kmalloc heapOffset size (.block ptr))
    (member : .kmalloc heapOffset size (.block ptr) ∈ calls ++ [call]) :
    .kmalloc heapOffset size (.block ptr) ∈ calls := by
  rcases List.mem_append.mp member with old | new
  · exact old
  · exact absurd (List.mem_singleton.mp new).symm (other heapOffset size ptr)

theorem block_cases {calls : List HeapCall}
    (member : .kmalloc heapOffset size (.block ptr) ∈ calls ++ [.kmalloc top asked (.block top)]) :
    .kmalloc heapOffset size (.block ptr) ∈ calls ∨ (heapOffset = top ∧ size = asked ∧ ptr = top) := by
  rcases List.mem_append.mp member with old | new
  · exact .inl old
  · exact .inr (by simpa using new)

theorem HeapSafe.skip (safe : HeapSafe calls)
    (other : ∀ heapOffset size ptr, call ≠ .kmalloc heapOffset size (.block ptr)) :
    HeapSafe (calls ++ [call]) where
  inside heapOffset size ptr member := safe.inside heapOffset size ptr (old_block other member)
  fitted heapOffset size ptr member := safe.fitted heapOffset size ptr (old_block other member)
  disjoint := by
    refine List.pairwise_append.mpr ⟨safe.disjoint, List.pairwise_singleton _ _, ?_⟩
    intro earlier _ later new heapOffset size ptr heapOffset' size' ptr' _ _ same
    obtain rfl := List.mem_singleton.mp new
    exact absurd same (other heapOffset' size' ptr')

/-- A block at or above all earlier ones extends a safe run. -/
theorem HeapSafe.push (safe : HeapSafe calls)
    (below : ∀ heapOffset size ptr, .kmalloc heapOffset size (.block ptr) ∈ calls →
      ptr.toNat + size.toNat ≤ top.toNat)
    (fits : top.toNat + roundUp size.toNat ≤ heapSize.toNat) :
    HeapSafe (calls ++ [.kmalloc top size (.block top)]) where
  inside heapOffset' size' ptr' member := by
    rcases block_cases member with old | ⟨rfl, rfl, rfl⟩
    · exact safe.inside heapOffset' size' ptr' old
    · have room := le_roundUp size'.toNat
      omega
  fitted heapOffset' size' ptr' member := by
    rcases block_cases member with old | ⟨rfl, rfl, rfl⟩
    · exact safe.fitted heapOffset' size' ptr' old
    · omega
  disjoint := by
    refine List.pairwise_append.mpr ⟨safe.disjoint, List.pairwise_singleton _ _, ?_⟩
    intro earlier old later new heapOffset₁ size₁ ptr₁ heapOffset₂ size₂ ptr₂ first _ second
    subst first
    obtain ⟨rfl, rfl, rfl⟩ : heapOffset₂ = top ∧ size₂ = size ∧ ptr₂ = top := by
      simpa [second] using new
    intro byte _ end₁ inside
    have under := below heapOffset₁ size₁ ptr₁ old
    omega

/-- While nothing wraps, the bump pointer is above every block. -/
theorem heapSafe_of_neverWraps {heap : Heap} (run : Run HeapStep Heap.boot calls heap)
    (never : NeverWraps calls) :
    HeapSafe calls ∧ ∀ heapOffset size ptr, .kmalloc heapOffset size (.block ptr) ∈ calls →
      ptr.toNat + size.toNat ≤ heap.heapOffset.toNat := by
  induction run with
  | start => exact ⟨⟨by simp, by simp, List.Pairwise.nil⟩, by simp⟩
  | @next earlier state after call front taken ih =>
    obtain ⟨safe, below⟩ := ih (fun heapOffset size result member =>
      never heapOffset size result (List.mem_append_left _ member))
    cases taken with
    | @block heapOffset size next ptr returned =>
      have bounded : heapOffset.toNat ≤ heapSize.toNat := heapOffset_bounded front
      have exact := never heapOffset size (.block ptr) (by simp)
      rcases kmalloc_cases size bounded with ⟨_, fits, last, value, result⟩ | ⟨_, _, result⟩ | ⟨wrapped, _⟩
      · obtain ⟨rfl, granted⟩ := Prod.mk.inj (returned.symm.trans result)
        obtain rfl := KmallocResult.block.inj granted
        refine ⟨safe.push below fits, ?_⟩
        intro heapOffset' size' ptr' member
        rcases block_cases member with old | ⟨rfl, rfl, rfl⟩
        · have under : ptr'.toNat + size'.toNat ≤ ptr.toNat := below heapOffset' size' ptr' old
          change _ ≤ next.toNat
          omega
        · have room := le_roundUp size'.toNat
          change _ ≤ next.toNat
          omega
      · exact absurd (returned.symm.trans result) (by simp)
      · exact absurd exact wrapped
    | @panic heapOffset size next message failed =>
      obtain rfl := kmalloc_panicked failed
      refine ⟨safe.skip (by simp), ?_⟩
      intro heapOffset' size' ptr' member
      exact below heapOffset' size' ptr' (by simpa using member)
    | kfree =>
      refine ⟨safe.skip (by simp), ?_⟩
      intro heapOffset' size' ptr' member
      exact below heapOffset' size' ptr' (by simpa using member)

/-- The blocks of a run are disjoint and inside the heap, and no request is
granted that does not fit, exactly when no request of the run wraps. -/
theorem heap_safe_iff {heap : Heap} (run : Run HeapStep Heap.boot calls heap) :
    HeapSafe calls ↔ NeverWraps calls :=
  ⟨neverWraps_of_heapSafe run, fun never => (heapSafe_of_neverWraps run never).1⟩

/-- Two requests of odd sizes with a release between them. -/
theorem heap_safe_iff_small_requests :
    ∃ heap, Run HeapStep Heap.boot [.kmalloc 0#32 24#32 (.block 0#32), .kfree 0#32,
        .kmalloc 32#32 1#32 (.block 32#32)] heap ∧
      HeapSafe [.kmalloc 0#32 24#32 (.block 0#32), .kfree 0#32,
        .kmalloc 32#32 1#32 (.block 32#32)] := by
  have run : Run HeapStep Heap.boot [.kmalloc 0#32 24#32 (.block 0#32), .kfree 0#32,
      .kmalloc 32#32 1#32 (.block 32#32)] ⟨48#32, false⟩ :=
    .next (.next (.next .start (.block (by decide))) .kfree) (.block (by decide))
  refine ⟨_, run, (heap_safe_iff run).mpr ?_⟩
  intro heapOffset size result member
  simp only [List.mem_cons, HeapCall.kmalloc.injEq, reduceCtorEq, List.not_mem_nil, or_false,
    false_or] at member
  rcases member with ⟨rfl, rfl, _⟩ | ⟨rfl, rfl, _⟩ <;> unfold NoWrap roundUp <;> decide

/-- After 16 bytes are taken, a request of 2^32 - 16 bytes wraps: it is granted
over the whole address space, and the next block is the first one again. -/
theorem wrapped_request_overlaps :
    ∃ heap, Run HeapStep Heap.boot [.kmalloc 0#32 16#32 (.block 0#32),
        .kmalloc 16#32 0xFFFFFFF0#32 (.block 16#32), .kmalloc 0#32 16#32 (.block 0#32)] heap ∧
      ¬ HeapSafe [.kmalloc 0#32 16#32 (.block 0#32),
        .kmalloc 16#32 0xFFFFFFF0#32 (.block 16#32), .kmalloc 0#32 16#32 (.block 0#32)] := by
  refine ⟨⟨16#32, false⟩,
    .next (.next (.next .start (.block (by decide))) (.block (by decide))) (.block (by decide)), ?_⟩
  intro safe
  have inside := safe.inside 16#32 0xFFFFFFF0#32 16#32 (by simp)
  exact absurd inside (by decide)

/-- What the calls so far leave of the bump pointer: an aligned offset in the
heap, blocks at such offsets, and, if one panicked, the offset it found. -/
structure BumpPointer (calls : List HeapCall) (heap : Heap) : Prop where
  aligned : 16 ∣ heap.heapOffset.toNat
  bounded : heap.heapOffset.toNat ≤ heapSize.toNat
  blocks : ∀ heapOffset size ptr, .kmalloc heapOffset size (.block ptr) ∈ calls →
    16 ∣ ptr.toNat ∧ ptr.toNat ≤ heapSize.toNat
  panicked : ∀ heapOffset size message, .kmalloc heapOffset size (.panic message) ∈ calls →
    heap = ⟨heapOffset, true⟩

/-- Nothing can have panicked on a heap that still takes calls. -/
theorem BumpPointer.running (held : BumpPointer calls ⟨offset, false⟩) :
    .kmalloc heapOffset size (.panic message) ∉ calls := by
  intro member
  cases held.panicked heapOffset size message member

theorem BumpPointer.step {heap after : Heap} (held : BumpPointer earlier heap)
    (taken : HeapStep heap call after) : BumpPointer (earlier ++ [call]) after := by
  have fits := taken.bounded held.bounded
  cases taken with
  | @block heapOffset size next ptr returned =>
    obtain ⟨rfl, rfl, -⟩ := kmalloc_returned returned
    refine ⟨bump_aligned held.aligned size, fits, ?_, ?_⟩
    · intro heapOffset' size' ptr' member
      rcases block_cases member with old | ⟨rfl, rfl, rfl⟩
      · exact held.blocks heapOffset' size' ptr' old
      · exact ⟨held.aligned, held.bounded⟩
    · intro heapOffset' size' message member
      rcases List.mem_append.mp member with old | new
      · exact absurd old held.running
      · cases List.mem_singleton.mp new
  | @panic heapOffset size next message failed =>
    obtain rfl := kmalloc_panicked failed
    refine ⟨held.aligned, fits, ?_, ?_⟩
    · intro heapOffset' size' ptr' member
      exact held.blocks heapOffset' size' ptr' (old_block (by simp) member)
    · intro heapOffset' size' message' member
      rcases List.mem_append.mp member with old | new
      · exact absurd old held.running
      · cases List.mem_singleton.mp new
        rfl
  | kfree =>
    refine ⟨held.aligned, fits, ?_, ?_⟩
    · intro heapOffset' size' ptr' member
      exact held.blocks heapOffset' size' ptr' (by simpa using member)
    · intro heapOffset' size' message' member
      exact absurd (by simpa using member) held.running

/-- A heap that has not panicked answers every request. -/
theorem kmalloc_answers {heap : Heap} (running : heap.halted = false) (size : BitVec 32) :
    ∃ result after, HeapStep heap (.kmalloc heap.heapOffset size result) after := by
  obtain ⟨heapOffset, halted⟩ := heap
  cases running
  rcases answer : Memory.kmalloc heapOffset size with ⟨next, result⟩
  cases result with
  | block ptr => exact ⟨_, _, .block answer⟩
  | panic message => exact ⟨_, _, .panic answer⟩

/-- In every run the bump pointer stays aligned and in bounds, whatever sizes
are asked for, and every size can be asked for next until a call panics. -/
theorem bump_pointer_invariant {heap : Heap} (run : Run HeapStep Heap.boot calls heap) :
    BumpPointer calls heap ∧ (heap.halted = false → ∀ size,
      ∃ result after, HeapStep heap (.kmalloc heap.heapOffset size result) after) :=
  ⟨run.invariant BumpPointer ⟨⟨0, rfl⟩, by decide, by simp, by simp⟩ fun _ _ _ _ held taken => held.step taken,
    kmalloc_answers⟩

/-- A wrapped request, after which the offset is back at the start, and one that is too large. -/
theorem bump_pointer_invariant_wrapped :
    ∃ heap, Run HeapStep Heap.boot [.kmalloc 0#32 16#32 (.block 0#32),
        .kmalloc 16#32 0xFFFFFFF0#32 (.block 16#32),
        .kmalloc 0#32 0x50000#32 (.panic "kmalloc: kernel heap exhausted")] heap ∧
      BumpPointer [.kmalloc 0#32 16#32 (.block 0#32), .kmalloc 16#32 0xFFFFFFF0#32 (.block 16#32),
        .kmalloc 0#32 0x50000#32 (.panic "kmalloc: kernel heap exhausted")] heap ∧
      heap = ⟨0#32, true⟩ := by
  have run : Run HeapStep Heap.boot [.kmalloc 0#32 16#32 (.block 0#32),
      .kmalloc 16#32 0xFFFFFFF0#32 (.block 16#32),
      .kmalloc 0#32 0x50000#32 (.panic "kmalloc: kernel heap exhausted")] ⟨0#32, true⟩ :=
    .next (.next (.next .start (.block (by decide))) (.block (by decide))) (.panic (by decide))
  exact ⟨_, run, (bump_pointer_invariant run).1, rfl⟩

end AstraOS.Memory
