import AstraOS.Memory.MapEquivalence
import Mathlib.Data.Finset.Sort

/-! Allocations in a row: the manager hands out its free frames from the lowest
up, each once, and then says that there are no more. -/

namespace AstraOS.Memory

open Foundation

/-- So many calls of `pmm_alloc_frame`, with what they return. -/
def allocRun : Nat → Pmm → List (BitVec 32) × Pmm
  | 0, pmm => ([], pmm)
  | count + 1, pmm =>
    ((pmmAllocFrame pmm).2 :: (allocRun count (pmmAllocFrame pmm).1).1, (allocRun count (pmmAllocFrame pmm).1).2)

def frameAddress (frame : Nat) : BitVec 32 := BitVec.ofNat 32 (4096 * frame)

/-- The free frames from the lowest up. -/
def Pmm.ascending (pmm : Pmm) : List Nat := pmm.freeSet.sort

/-- The managers before and after an allocation that succeeds. -/
structure TakesLeast (pmm : Pmm) (frame : Nat) (after : Pmm) : Prop where
  order : pmm.ascending = frame :: after.ascending
  free : after.freeSet = pmm.freeSet.erase frame
  counted : after.freeFrames = pmm.freeFrames - 1#32
  total : after.totalFrames = pmm.totalFrames

theorem ascending_erase {pmm after : Pmm} (member : frame ∈ pmm.freeSet) (least : ∀ other ∈ pmm.freeSet, frame ≤ other)
    (free : after.freeSet = pmm.freeSet.erase frame) : pmm.ascending = frame :: after.ascending := by
  have rest : ∀ other ∈ after.freeSet, frame ≤ other := by
    intro other inside
    rw [free] at inside
    exact least other (Finset.mem_of_mem_erase inside)
  have absent : frame ∉ after.freeSet := by
    rw [free]
    exact Finset.notMem_erase frame pmm.freeSet
  have whole : insert frame after.freeSet = pmm.freeSet := by
    rw [free, Finset.insert_erase member]
  rw [Pmm.ascending, ← whole, Finset.sort_insert _ rest absent, Pmm.ascending]

theorem pmmAllocFrame_ascending (pmm : Pmm) :
    (∃ frame, TakesLeast pmm frame (pmmAllocFrame pmm).1 ∧ (pmmAllocFrame pmm).2 = frameAddress frame) ∨
      pmm.ascending = [] ∧ pmmAllocFrame pmm = (pmm, 0#32) := by
  rcases pmmAllocFrame_cases pmm with ⟨frame, member, least, result⟩ | ⟨empty, result⟩
  · have free : (pmmAllocFrame pmm).1.freeSet = pmm.freeSet.erase frame := by
      rw [result]
      exact freeSet_bitmapSet pmm (lt_of_mem_freeSet member)
    refine .inl ⟨frame, ⟨ascending_erase member least free, free, ?_, ?_⟩, ?_⟩
    · rw [result]
    · rw [result]
    · rw [result]
      rfl
  · refine .inr ⟨?_, result⟩
    rw [Pmm.ascending, empty, Finset.sort_empty]

theorem TakesLeast.member {pmm after : Pmm} (takes : TakesLeast pmm frame after) : frame ∈ pmm.freeSet := by
  have first : frame ∈ pmm.ascending := takes.order ▸ List.mem_cons_self
  exact (Finset.mem_sort (· ≤ ·)).mp first

/-- Releasing the frame again gives back the manager as it was, counter and all. -/
theorem TakesLeast.released {pmm after : Pmm} (takes : TakesLeast pmm frame after) :
    pmmFreeFrame after (frameAddress frame) = pmm := by
  have number : frameOf (frameAddress frame) = frame := by
    rw [frameOf, frameAddress, address_toNat (lt_of_mem_freeSet takes.member)]
    exact Nat.mul_div_cancel_left frame (Nat.zero_lt_succ 4095)
  have free : (pmmFreeFrame after (frameAddress frame)).freeSet = pmm.freeSet := by
    rw [pmmFreeFrame_freeSet, number, takes.free, Finset.insert_erase takes.member]
  rcases pmmFreeFrame_cases after (frameAddress frame) with ⟨_, freed⟩ | ⟨clear, _⟩
  · refine pmm_eq_of_freeSet free ?_ ?_
    · rw [freed, takes.counted]
      exact BitVec.sub_add_cancel _ _
    · rw [freed, takes.total]
  · rw [number, takes.free] at clear
    exact absurd clear (Finset.notMem_erase frame pmm.freeSet)

/-- What a run of allocations returns and leaves. -/
structure Ascends (pmm : Pmm) (count : Nat) (result : List (BitVec 32) × Pmm) : Prop where
  returned : result.1 = (pmm.ascending.take count).map frameAddress ++
    List.replicate (count - pmm.ascending.length) 0#32
  left : result.2.ascending = pmm.ascending.drop count
  counted : result.2.freeFrames = pmm.freeFrames - BitVec.ofNat 32 (min count pmm.ascending.length)
  total : result.2.totalFrames = pmm.totalFrames

theorem Ascends.take {pmm after : Pmm} {result : List (BitVec 32) × Pmm} (later : Ascends after count result)
    (takes : TakesLeast pmm frame after) : Ascends pmm (count + 1) (frameAddress frame :: result.1, result.2) := by
  have order := takes.order
  refine ⟨?_, ?_, ?_, later.total.trans takes.total⟩
  · rw [later.returned, order, List.take_succ_cons, List.map_cons, List.cons_append, List.length_cons,
      Nat.add_sub_add_right]
  · rw [later.left, order, List.drop_succ_cons]
  · have one : min (count + 1) (after.ascending.length + 1) = 1 + min count after.ascending.length := by omega
    rw [later.counted, takes.counted, order, List.length_cons, one, BitVec.ofNat_add, BitVec.sub_sub]

theorem Ascends.fail {pmm : Pmm} {result : List (BitVec 32) × Pmm} (later : Ascends pmm count result)
    (empty : pmm.ascending = []) : Ascends pmm (count + 1) (0#32 :: result.1, result.2) := by
  refine ⟨?_, ?_, ?_, later.total⟩
  · rw [later.returned, empty]
    simp [List.replicate_succ]
  · rw [later.left, empty, List.drop_nil, List.drop_nil]
  · rw [later.counted, empty, List.length_nil, Nat.min_zero, Nat.min_zero]

/-- From every state, any number of allocations in a row returns the addresses of
the free frames in ascending order and then zeros; the frames that are left, and
the counter, are what one expects. -/
theorem alloc_run_ascends (pmm : Pmm) (count : Nat) : Ascends pmm count (allocRun count pmm) := by
  induction count generalizing pmm with
  | zero => constructor <;> simp [allocRun]
  | succ count ih =>
    rw [allocRun]
    rcases pmmAllocFrame_ascending pmm with ⟨frame, takes, address⟩ | ⟨empty, result⟩
    · rw [address]
      exact (ih _).take takes
    · rw [result]
      exact (ih pmm).fail empty

end AstraOS.Memory
