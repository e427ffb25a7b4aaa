import AstraOS.Foundation.Orbit
import AstraOS.Memory.FreeMap

/-! The memory-map walk over arbitrary memory, and when it ends. The code trusts
the size that each entry declares. -/

namespace AstraOS.Memory

open Foundation

/-- `addr += entry->size + 4`. -/
def nextEntry (memory : Memory 32) (addr : BitVec 32) : BitVec 32 :=
  addr + ((readEntry memory addr).size + 4#32)

/-- Where the walk stands after `k` turns, if it gets that far. -/
def entryAt (memory : Memory 32) (info : MultibootInfo) (k : Nat) : BitVec 32 :=
  (nextEntry memory)^[k] info.mmapAddr

def mapEnd (info : MultibootInfo) : BitVec 32 := info.mmapAddr + info.mmapLength

/-- The loop condition held up to the entry `k`, so that its fields are read. -/
def Visited (memory : Memory 32) (info : MultibootInfo) (k : Nat) : Prop :=
  ∀ i ≤ k, entryAt memory info i < mapEnd info

/-- Step 2 of `pmm_init` returns. -/
def WalkEnds (memory : Memory 32) (info : MultibootInfo) : Prop :=
  ∃ fuel pmm, pmmInitMap fuel memory info Pmm.boot = some pmm

theorem mmapStep_cursor (memory : Memory 32) (cursor : BitVec 32 × Pmm) (k : Nat) :
    ((mmapStep memory)^[k] cursor).1 = (nextEntry memory)^[k] cursor.1 := by
  have moves : Function.Semiconj Prod.fst (mmapStep memory) (nextEntry memory) := by
    intro state
    rw [mmapStep_eq]
    rfl
  exact (moves.iterate_right k).eq cursor

/-- The walk ends exactly when its addresses ever leave the map. -/
theorem walkEnds_iff_leaves (announced : info.flags &&& 1#32 <<< 6 ≠ 0#32) (memory : Memory 32) :
    WalkEnds memory info ↔ ∃ k, ¬ entryAt memory info k < mapEnd info := by
  have ended : WalkEnds memory info ↔ ∃ fuel final, whileLoop (fun cursor => decide (cursor.1 < mapEnd info))
      (mmapStep memory) fuel (info.mmapAddr, Pmm.allUsed) = some final := by
    refine exists_congr fun fuel => ?_
    rw [pmmInitMap_walk announced]
    simp only [Option.map_eq_some_iff]
    exact ⟨fun ⟨_, final, finished, _⟩ => ⟨final, finished⟩, fun ⟨final, finished⟩ => ⟨_, final, finished, rfl⟩⟩
  rw [ended, whileLoop_ends_iff]
  refine exists_congr fun k => ?_
  rw [mmapStep_cursor, decide_eq_false_iff_not]
  rfl

instance finiteAddress : Finite (BitVec 32) := Finite.of_injective BitVec.toFin (fun _ _ => BitVec.eq_of_toFin_eq)

/-- There are finitely many addresses, so the walk ends exactly when it never
comes back to one. -/
theorem walkEnds_iff_distinct (announced : info.flags &&& 1#32 <<< 6 ≠ 0#32) (memory : Memory 32) :
    WalkEnds memory info ↔ ∀ i j, i < j → Visited memory info j →
      entryAt memory info i ≠ entryAt memory info j := by
  rw [walkEnds_iff_leaves announced memory]
  exact orbit_leaves_iff (nextEntry memory) (fun addr => addr < mapEnd info) info.mmapAddr

theorem entryAt_succ (memory : Memory 32) (info : MultibootInfo) (k : Nat) :
    entryAt memory info (k + 1) = nextEntry memory (entryAt memory info k) :=
  Function.iterate_succ_apply' _ k _

/-- The stride of a visited entry does not wrap around the address space. -/
def StridesAdvance (memory : Memory 32) (info : MultibootInfo) : Prop :=
  ∀ k, Visited memory info k →
    (entryAt memory info k).toNat + (readEntry memory (entryAt memory info k)).size.toNat + 4 < 2 ^ 32

theorem StridesAdvance.next {memory : Memory 32} {info : MultibootInfo} (advance : StridesAdvance memory info)
    (visited : Visited memory info k) : (entryAt memory info (k + 1)).toNat =
      (entryAt memory info k).toNat + (readEntry memory (entryAt memory info k)).size.toNat + 4 := by
  have exact := advance k visited
  rw [entryAt_succ, nextEntry, BitVec.toNat_add, BitVec.toNat_add]
  simp only [BitVec.toNat_ofNat]
  omega

/-- Later entries lie higher. -/
theorem StridesAdvance.increasing {memory : Memory 32} {info : MultibootInfo}
    (advance : StridesAdvance memory info) (visited : Visited memory info j) (before : i < j) :
    (entryAt memory info i).toNat < (entryAt memory info j).toNat := by
  induction j with
  | zero => exact absurd before (Nat.not_lt_zero i)
  | succ j ih =>
    have earlier : Visited memory info j := fun k bound => visited k (Nat.le_succ_of_le bound)
    have step := advance.next earlier
    rcases Nat.lt_succ_iff_lt_or_eq.mp before with below | rfl
    · have lower := ih earlier below
      omega
    · omega

/-- The walk over any memory ends if and only if it visits no address twice;
so it does when no stride wraps, and on every well-formed map. -/
theorem walk_ends_iff (announced : info.flags &&& 1#32 <<< 6 ≠ 0#32) (memory : Memory 32) :
    (WalkEnds memory info ↔ ∀ i j, i < j → Visited memory info j →
      entryAt memory info i ≠ entryAt memory info j) ∧
    (StridesAdvance memory info → WalkEnds memory info) ∧
    (∀ records, WellFormedMap memory info records → WalkEnds memory info) := by
  refine ⟨walkEnds_iff_distinct announced memory, ?_, ?_⟩
  · intro advance
    apply (walkEnds_iff_distinct announced memory).mpr
    intro i j before visited same
    have lower := advance.increasing visited before
    rw [same] at lower
    exact Nat.lt_irrefl _ lower
  · intro records map
    exact ⟨records.length + 1, _, pmmInitMap_records map⟩

/-- Memory full of zeros: entries of four bytes, each over the next. -/
theorem walk_ends_iff_zeros : WalkEnds (fun _ => 0#8) ⟨1#32 <<< 6, 0#32, 24#32, 0x9000#32⟩ := by
  apply (walk_ends_iff (by decide) (fun _ => 0#8)).2.1
  intro k visited
  have below := visited k le_rfl
  have finish : (mapEnd ⟨1#32 <<< 6, 0#32, 24#32, 0x9000#32⟩).toNat = 0x9018 := by decide
  have size : ∀ addr, (readEntry (fun _ => 0#8) addr).size.toNat = 0 := by
    intro addr
    simp [readEntry, leRead]
  rw [BitVec.lt_def, finish] at below
  rw [size]
  omega

/-- One entry of the declared size -4: the walk stays where it is. -/
def stuckInfo : MultibootInfo := ⟨1#32 <<< 6, 0#32, 24#32, 0x9000#32⟩

def stuckMemory : Memory 32 := loadBytes 0x9000#32 [0xFC#8, 0xFF#8, 0xFF#8, 0xFF#8]

theorem stuck_entryAt (k : Nat) : entryAt stuckMemory stuckInfo k = 0x9000#32 := by
  have fixed : nextEntry stuckMemory 0x9000#32 = 0x9000#32 := by decide
  exact Function.iterate_fixed fixed k

theorem walk_never_ends : ¬ WalkEnds stuckMemory stuckInfo := by
  intro ends
  obtain ⟨k, left⟩ := (walkEnds_iff_leaves (by decide) stuckMemory).mp ends
  rw [stuck_entryAt] at left
  exact absurd left (by decide)

end AstraOS.Memory
