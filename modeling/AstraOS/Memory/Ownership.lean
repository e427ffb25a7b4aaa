import AstraOS.Foundation.Run
import AstraOS.Memory.FreeMap

/-! Whole runs of the frame allocator: who owns which frame when a client frees
only what it holds, and what stays reserved whatever is freed. -/

namespace AstraOS.Memory

open Foundation

/-- A call to the allocator, with the address returned or passed. -/
inductive PmmCall where
  | alloc (returned : BitVec 32)
  | free (physAddr : BitVec 32)
  deriving DecidableEq

/-- The allocator and the addresses that its client holds. -/
structure Client where
  pmm : Pmm
  held : Finset (BitVec 32)

/-- The calls of a disciplined client: it frees only what it holds. -/
inductive ClientStep : Client → PmmCall → Client → Prop where
  | alloc (client : Client) : ClientStep client (.alloc (pmmAllocFrame client.pmm).2)
      ⟨(pmmAllocFrame client.pmm).1,
        if (pmmAllocFrame client.pmm).2 = 0#32 then client.held
        else insert (pmmAllocFrame client.pmm).2 client.held⟩
  | free (client : Client) (owned : physAddr ∈ client.held) :
      ClientStep client (.free physAddr)
        ⟨pmmFreeFrame client.pmm physAddr, client.held.erase physAddr⟩

def heldFrames (held : Finset (BitVec 32)) : Finset Nat := held.image frameOf

/-- The frames that were free at first are now divided between the client and
the bitmap. -/
structure Owned (initial : Finset Nat) (client : Client) : Prop where
  aligned : ∀ physAddr ∈ client.held, physAddr.toNat % 4096 = 0
  disjoint : Disjoint (heldFrames client.held) client.pmm.freeSet
  union : heldFrames client.held ∪ client.pmm.freeSet = initial

theorem frameOf_injOn {left right : BitVec 32} (first : left.toNat % 4096 = 0)
    (second : right.toNat % 4096 = 0) (same : frameOf left = frameOf right) : left = right := by
  apply BitVec.eq_of_toNat_eq
  unfold frameOf at same
  omega

theorem Owned.nothing_held (pmm : Pmm) : Owned pmm.freeSet ⟨pmm, ∅⟩ := by
  refine ⟨by simp, ?_, ?_⟩ <;> simp [heldFrames]

theorem Owned.heldFrames_erase {client : Client} (owned : Owned initial client)
    (holds : physAddr ∈ client.held) :
    heldFrames (client.held.erase physAddr) = (heldFrames client.held).erase (frameOf physAddr) := by
  ext frame
  simp only [heldFrames, Finset.mem_image, Finset.mem_erase]
  constructor
  · rintro ⟨other, ⟨different, member⟩, rfl⟩
    refine ⟨?_, other, member, rfl⟩
    intro same
    exact different (frameOf_injOn (owned.aligned other member) (owned.aligned physAddr holds) same)
  · rintro ⟨different, other, member, rfl⟩
    refine ⟨other, ⟨?_, member⟩, rfl⟩
    rintro rfl
    exact different rfl

theorem Owned.free {client : Client} (owned : Owned initial client) (holds : physAddr ∈ client.held) :
    Owned initial ⟨pmmFreeFrame client.pmm physAddr, client.held.erase physAddr⟩ := by
  refine ⟨?_, ?_, ?_⟩
  · intro other member
    exact owned.aligned other (Finset.mem_of_mem_erase member)
  · simp only [pmmFreeFrame_freeSet, owned.heldFrames_erase holds]
    rw [Finset.disjoint_insert_right]
    exact ⟨Finset.notMem_erase _ _, owned.disjoint.mono_left (Finset.erase_subset _ _)⟩
  · simp only [pmmFreeFrame_freeSet, owned.heldFrames_erase holds]
    rw [Finset.union_insert, ← Finset.insert_union, Finset.insert_erase, owned.union]
    exact Finset.mem_image_of_mem frameOf holds

/-- What an allocation does once frame 0 is known to be reserved. -/
theorem Owned.alloc {client : Client} (owned : Owned initial client) (zero : 0 ∉ initial) :
    (∃ frame ∈ client.pmm.freeSet, (pmmAllocFrame client.pmm).2.toNat = 4096 * frame ∧
      (pmmAllocFrame client.pmm).2 ≠ 0#32 ∧
      (pmmAllocFrame client.pmm).1.freeSet = client.pmm.freeSet.erase frame) ∨
    (client.pmm.freeSet = ∅ ∧ pmmAllocFrame client.pmm = (client.pmm, 0#32)) := by
  rcases pmmAllocFrame_effect client.pmm with ⟨frame, free, _, address, rest⟩ | exhausted
  · refine .inl ⟨frame, free, address, ?_, rest⟩
    intro null
    rw [null, BitVec.toNat_ofNat] at address
    obtain rfl : frame = 0 := by omega
    exact zero (owned.union ▸ Finset.mem_union_right _ free)
  · exact .inr exhausted

theorem Owned.step (owned : Owned initial client) (zero : 0 ∉ initial)
    (taken : ClientStep client call after) : Owned initial after := by
  cases taken with
  | free _ holds => exact owned.free holds
  | alloc =>
    rcases owned.alloc zero with ⟨frame, free, address, nonnull, rest⟩ | ⟨_, same⟩
    · have number : frameOf (pmmAllocFrame client.pmm).2 = frame := by
        unfold frameOf
        omega
      rw [if_neg nonnull]
      have added : heldFrames (insert (pmmAllocFrame client.pmm).2 client.held) =
          insert frame (heldFrames client.held) := by
        rw [heldFrames, Finset.image_insert, number, heldFrames]
      refine ⟨?_, ?_, ?_⟩
      · intro other member
        rcases Finset.mem_insert.mp member with same | earlier
        · rw [same, address]
          exact Nat.mul_mod_right 4096 frame
        · exact owned.aligned other earlier
      · simp only [added, rest]
        rw [Finset.disjoint_insert_left]
        exact ⟨Finset.notMem_erase _ _, owned.disjoint.mono_right (Finset.erase_subset _ _)⟩
      · simp only [added, rest]
        rw [Finset.insert_union, ← Finset.union_insert, Finset.insert_erase free, owned.union]
    · simp only [same, if_true]
      exact owned

/-- Returning everything, in any order, restores the bitmap. -/
theorem Owned.free_all {start : Pmm} {client : Client} (owned : Owned start.freeSet client) (order : List (BitVec 32))
    (distinct : order.Nodup) (lists : ∀ physAddr, physAddr ∈ order ↔ physAddr ∈ client.held) :
    (order.foldl pmmFreeFrame client.pmm).bitmap = start.bitmap := by
  induction order generalizing client with
  | nil =>
    have empty : client.held = ∅ := by
      apply Finset.eq_empty_iff_forall_notMem.mpr
      intro physAddr member
      simpa using (lists physAddr).mpr member
    have union := owned.union
    simp only [empty, heldFrames, Finset.image_empty, Finset.empty_union] at union
    exact WordBitmap.zeros_injective union
  | cons physAddr rest ih =>
    have holds := (lists physAddr).mp (by simp)
    obtain ⟨absent, distinctRest⟩ := List.nodup_cons.mp distinct
    refine ih (owned.free holds) distinctRest ?_
    intro other
    rw [Finset.mem_erase, ← lists other, List.mem_cons]
    constructor
    · intro member
      exact ⟨fun same => absent (same ▸ member), .inr member⟩
    · rintro ⟨different, same | member⟩
      · exact absurd same different
      · exact member

/-- Step 3 keeps frame 0, and all of the first MiB, out of the free set. -/
theorem PmmInit.reserved {pmm : Pmm} (init : PmmInit memory info kernelEndPhys pmm)
    (free : frame ∈ pmm.freeSet) :
    256 ≤ frame ∧ kernelEndFrame kernelEndPhys ≤ frame := by
  obtain ⟨fuel, finished⟩ := init
  obtain ⟨mapped, _, rfl⟩ := Option.map_eq_some_iff.mp finished
  exact ((mem_pmmInitReserve kernelEndPhys mapped).mp free).2

theorem PmmInit.zero_reserved {pmm : Pmm} (init : PmmInit memory info kernelEndPhys pmm) :
    0 ∉ pmm.freeSet := by
  intro free
  have low := (init.reserved free).1
  omega

/-- Frame ownership at every point of every run of a disciplined client. -/
theorem frame_ownership {start : Pmm} {client : Client}
    (init : PmmInit memory info kernelEndPhys start)
    (run : Run ClientStep ⟨start, ∅⟩ calls client) :
    Disjoint (heldFrames client.held) client.pmm.freeSet ∧
    heldFrames client.held ∪ client.pmm.freeSet = start.freeSet ∧
    (∀ after returned, pmmAllocFrame client.pmm = (after, returned) →
      (returned ≠ 0#32 → returned.toNat % 4096 = 0 ∧ frameOf returned ∉ heldFrames client.held) ∧
      (returned = 0#32 ↔ start.freeSet ⊆ heldFrames client.held) ∧
      (returned = 0#32 → after.bitmap = client.pmm.bitmap ∧
        after.freeFrames = client.pmm.freeFrames)) ∧
    (∀ order : List (BitVec 32), order.Nodup →
      (∀ physAddr, physAddr ∈ order ↔ physAddr ∈ client.held) →
      (order.foldl pmmFreeFrame client.pmm).bitmap = start.bitmap) := by
  have owned : Owned start.freeSet client := by
    refine run.invariant (fun _ client => Owned start.freeSet client) (.nothing_held start) ?_
    intro _ state call after owned taken
    exact owned.step init.zero_reserved taken
  refine ⟨owned.disjoint, owned.union, ?_, fun order => owned.free_all order⟩
  intro after returned called
  rcases owned.alloc init.zero_reserved with ⟨frame, free, address, nonnull, _⟩ | ⟨none, same⟩
  · simp only [called] at address nonnull
    have number : frameOf returned = frame := by
      unfold frameOf
      omega
    have unheld : frame ∉ heldFrames client.held := fun held =>
      Finset.disjoint_left.mp owned.disjoint held free
    refine ⟨fun _ => ⟨by omega, by rwa [number]⟩, ?_, fun null => absurd null nonnull⟩
    refine ⟨fun null => absurd null nonnull, fun all => absurd (all ?_) unheld⟩
    exact owned.union ▸ Finset.mem_union_right _ free
  · obtain ⟨rfl, rfl⟩ := Prod.mk.inj (called.symm.trans same)
    refine ⟨fun nonnull => absurd rfl nonnull, ?_, fun _ => ⟨rfl, rfl⟩⟩
    simp [← owned.union, none]

/-- The first frame after the kernel image, in the emulator's memory. -/
theorem alignedRegion_first {start : Pmm} (init : PmmInit (bootMemory 0x9000#32 [alignedRegion])
    (bootInfo 0x9000#32 [alignedRegion]) 0x180000#32 start) :
    (pmmAllocFrame start).2 = 0x180000#32 := by
  have member : 0x180 ∈ start.freeSet := (init.mem_freeSet alignedRegion_map).mpr
    ⟨⟨alignedRegion, List.mem_singleton_self _, by decide⟩, by decide, by decide⟩
  rcases pmmAllocFrame_effect start with ⟨frame, free, least, address, _⟩ | ⟨none, _⟩
  · have kernel : 0x180 ≤ frame := (init.reserved free).2
    obtain rfl : frame = 0x180 := Nat.le_antisymm (least _ member) kernel
    exact BitVec.eq_of_toNat_eq address
  · simp [none] at member

/-- A client that takes that frame; giving it back restores the bitmap. -/
theorem frame_ownership_alignedRegion :
    ∃ start client, PmmInit (bootMemory 0x9000#32 [alignedRegion])
        (bootInfo 0x9000#32 [alignedRegion]) 0x180000#32 start ∧
      Run ClientStep ⟨start, ∅⟩ [.alloc 0x180000#32] client ∧
      heldFrames client.held ∪ client.pmm.freeSet = start.freeSet ∧
      (pmmFreeFrame client.pmm 0x180000#32).bitmap = start.bitmap := by
  obtain ⟨start, init⟩ := pmmInit_returns alignedRegion_map 0x180000#32
  have run := Run.next .start (ClientStep.alloc ⟨start, ∅⟩)
  simp only [alignedRegion_first init] at run
  obtain ⟨_, union, _, restore⟩ := frame_ownership init run
  refine ⟨start, _, init, run, union, ?_⟩
  exact restore [0x180000#32] (List.nodup_singleton _) (by simp)

/-- Every call with every address. -/
inductive PmmStep : Pmm → PmmCall → Pmm → Prop where
  | alloc (pmm : Pmm) : PmmStep pmm (.alloc (pmmAllocFrame pmm).2) (pmmAllocFrame pmm).1
  | free (pmm : Pmm) (physAddr : BitVec 32) : PmmStep pmm (.free physAddr) (pmmFreeFrame pmm physAddr)

/-- A frame below 1 MiB or overlapping the kernel image. -/
def Reserved (kernelEndPhys : BitVec 32) (frame : Nat) : Prop :=
  4096 * frame < 0x100000 ∨
    (4096 * frame < kernelEndPhys.toNat ∧ 0x100000 < 4096 * frame + 4096)

/-- An allocation that takes a frame returns a true address of unreserved memory. -/
def HandsOutUnreserved (kernelEndPhys : BitVec 32) (pmm : Pmm) : Prop :=
  ∀ after returned, pmmAllocFrame pmm = (after, returned) → after.bitmap ≠ pmm.bitmap →
    returned ≠ 0#32 ∧ 0x100000 ≤ returned.toNat ∧ ¬ Reserved kernelEndPhys (frameOf returned)

theorem handsOutUnreserved_of_freeSet {pmm : Pmm}
    (unreserved : ∀ frame ∈ pmm.freeSet, ¬ Reserved kernelEndPhys frame) :
    HandsOutUnreserved kernelEndPhys pmm := by
  intro after returned called changed
  rcases pmmAllocFrame_effect pmm with ⟨frame, free, _, address, _⟩ | ⟨_, same⟩
  · simp only [called] at address
    have outside := unreserved frame free
    have number : frameOf returned = frame := by
      unfold frameOf
      omega
    have high : 0x100000 ≤ returned.toNat := by
      by_contra low
      exact outside (.inl (by omega))
    refine ⟨?_, high, by rwa [number]⟩
    rintro rfl
    simp at high
  · obtain ⟨rfl, -⟩ := Prod.mk.inj (called.symm.trans same)
    exact absurd rfl changed

/-- Reserved frames stay out of the free set as long as nobody frees them. -/
theorem unreserved_preserved {pmm after : Pmm} (taken : PmmStep pmm call after)
    (respects : ∀ physAddr, call = .free physAddr → ¬ Reserved kernelEndPhys (frameOf physAddr))
    (unreserved : ∀ frame ∈ pmm.freeSet, ¬ Reserved kernelEndPhys frame) :
    ∀ frame ∈ after.freeSet, ¬ Reserved kernelEndPhys frame := by
  intro frame free
  cases taken with
  | alloc =>
    rcases pmmAllocFrame_effect pmm with ⟨least, _, _, _, rest⟩ | ⟨_, same⟩
    · rw [rest] at free
      exact unreserved frame (Finset.mem_of_mem_erase free)
    · rw [same] at free
      exact unreserved frame free
  | free physAddr =>
    rw [pmmFreeFrame_freeSet] at free
    rcases Finset.mem_insert.mp free with rfl | earlier
    · exact respects physAddr rfl
    · exact unreserved frame earlier

theorem PmmInit.unreserved {pmm : Pmm} (init : PmmInit memory info kernelEndPhys pmm)
    (small : kernelEndPhys ≤ 0xFFFFF000#32) :
    ∀ frame ∈ pmm.freeSet, ¬ Reserved kernelEndPhys frame := by
  intro frame free
  obtain ⟨low, high⟩ := init.reserved free
  rw [kernelEndFrame_le_iff small] at high
  unfold Reserved
  omega

/-- Whatever is freed outside reserved memory, allocations stay outside it. -/
theorem reserved_never_handed_out {start pmm : Pmm} (init : PmmInit memory info kernelEndPhys start)
    (small : kernelEndPhys ≤ 0xFFFFF000#32) (run : Run PmmStep start calls pmm)
    (respects : ∀ physAddr, .free physAddr ∈ calls → ¬ Reserved kernelEndPhys (frameOf physAddr)) :
    HandsOutUnreserved kernelEndPhys pmm := by
  apply handsOutUnreserved_of_freeSet
  refine run.invariant (fun calls pmm =>
    (∀ physAddr, .free physAddr ∈ calls → ¬ Reserved kernelEndPhys (frameOf physAddr)) →
      ∀ frame ∈ pmm.freeSet, ¬ Reserved kernelEndPhys frame) ?_ ?_ respects
  · intro _
    exact init.unreserved small
  · intro earlier state call after held taken respected
    apply unreserved_preserved taken
    · rintro physAddr rfl
      exact respected physAddr (by simp)
    · apply held
      intro physAddr member
      exact respected physAddr (by simp [member])

/-- Freeing an unallocated address outside reserved memory does no harm. -/
theorem reserved_never_handed_out_alignedRegion :
    ∃ start pmm, PmmInit (bootMemory 0x9000#32 [alignedRegion])
        (bootInfo 0x9000#32 [alignedRegion]) 0x180000#32 start ∧
      Run PmmStep start [.free 0x200800#32] pmm ∧ HandsOutUnreserved 0x180000#32 pmm := by
  obtain ⟨start, init⟩ := pmmInit_returns alignedRegion_map 0x180000#32
  have run := Run.next .start (PmmStep.free start 0x200800#32)
  refine ⟨start, _, init, run, reserved_never_handed_out init (by decide) run ?_⟩
  intro physAddr member
  obtain rfl : physAddr = 0x200800#32 := by simpa using member
  unfold Reserved
  decide

/-- Freeing address 0 opens frame 0, and the next allocation takes it: the
address returned is the out-of-memory value. -/
theorem free_zero_hands_out_zero :
    ∃ start pmm, PmmInit (bootMemory 0x9000#32 [alignedRegion])
        (bootInfo 0x9000#32 [alignedRegion]) 0x180000#32 start ∧
      Run PmmStep start [.free 0#32] pmm ∧
      (pmmAllocFrame pmm).1.bitmap ≠ pmm.bitmap ∧ (pmmAllocFrame pmm).2 = 0#32 := by
  obtain ⟨start, init⟩ := pmmInit_returns alignedRegion_map 0x180000#32
  refine ⟨start, _, init, Run.next .start (PmmStep.free start 0#32), ?_⟩
  have opened : 0 ∈ (pmmFreeFrame start 0#32).freeSet := by
    rw [pmmFreeFrame_freeSet]
    exact Finset.mem_insert_self _ _
  rcases pmmAllocFrame_effect (pmmFreeFrame start 0#32) with ⟨frame, _, least, address, rest⟩ | ⟨none, _⟩
  · obtain rfl : frame = 0 := Nat.le_zero.mp (least 0 opened)
    refine ⟨?_, BitVec.eq_of_toNat_eq address⟩
    intro same
    have remains : 0 ∈ (pmmAllocFrame (pmmFreeFrame start 0#32)).1.freeSet := by
      rw [Pmm.freeSet, same]
      exact opened
    rw [rest] at remains
    exact Finset.notMem_erase 0 _ remains
  · simp [none] at opened

end AstraOS.Memory
