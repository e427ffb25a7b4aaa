import AstraOS.Memory.WalkBounds

/-! Which bytes the memory-map walk reads. The loop condition looks only at the
first byte of an entry, so an entry may reach past the end of the map. -/

namespace AstraOS.Memory

open Foundation

/-- The byte lies in `[mmap_addr, mmap_addr + mmap_length)`, in exact integers. -/
def InsideMap (info : MultibootInfo) (byte : BitVec 32) : Prop :=
  info.mmapAddr.toNat ≤ byte.toNat ∧ byte.toNat < info.mmapAddr.toNat + info.mmapLength.toNat

/-- However long the walk goes on, it reads only bytes of the map. -/
def ReadsInside (memory : Memory 32) (info : MultibootInfo) : Prop :=
  ∀ fuel, ∀ byte ∈ (pmmInitWalk fuel info Pmm.boot).reads memory, InsideMap info byte

/-- The offsets at which an entry is read: `size` and `type` always, the region
only if it is available. -/
def ReadOffset (entry : MmapEntry) (i : Nat) : Prop := i < 24 ∧ (i < 4 ∨ 20 ≤ i ∨ entry.type = 1#32)

theorem mem_field {memory : Memory 32} {addr byte : BitVec 32} {offset count : Nat} :
    byte ∈ (Reading.load (addr + BitVec.ofNat 32 offset) count).reads memory ↔
      ∃ i, offset ≤ i ∧ i < offset + count ∧ byte = addr + BitVec.ofNat 32 i := by
  rw [Reading.reads_load, List.mem_map]
  constructor
  · rintro ⟨i, inside, rfl⟩
    refine ⟨offset + i, Nat.le_add_right offset i, Nat.add_lt_add_left (List.mem_range.mp inside) offset, ?_⟩
    rw [BitVec.add_assoc, ← BitVec.ofNat_add]
  · rintro ⟨i, above, inside, rfl⟩
    refine ⟨i - offset, List.mem_range.mpr (by omega), ?_⟩
    rw [BitVec.add_assoc, ← BitVec.ofNat_add, Nat.add_sub_of_le above]

/-- The loads of one turn, in their order. -/
theorem mmapTurn_reads (memory : Memory 32) (addr : BitVec 32) (pmm : Pmm) :
    (mmapTurn (addr, pmm)).reads memory = (loadType addr).reads memory ++
      ((if (readEntry memory addr).type = 1#32 then (loadAddr addr).reads memory ++ (loadLen addr).reads memory
        else []) ++ (loadSize addr).reads memory) := by
  simp only [mmapTurn, Reading.reads_bind, loadType_value]
  by_cases available : (readEntry memory addr).type = 1#32
  · rw [if_pos available, if_pos available]
    simp only [Reading.reads_bind, loadAddr_value]
    by_cases high : (readEntry memory addr).addr ≥ 0x100000000#64
    · rw [if_pos high]
      simp only [Reading.reads_bind, Reading.reads_pure, List.append_nil, List.append_assoc]
    · rw [if_neg high]
      simp only [Reading.reads_bind, Reading.reads_pure, List.append_nil, List.append_assoc]
  · rw [if_neg available, if_neg available]
    simp only [Reading.reads_bind, Reading.reads_pure, List.append_nil, List.nil_append]

theorem mem_mmapTurn_reads {memory : Memory 32} {addr byte : BitVec 32} {pmm : Pmm} :
    byte ∈ (mmapTurn (addr, pmm)).reads memory ↔
      ∃ i, ReadOffset (readEntry memory addr) i ∧ byte = addr + BitVec.ofNat 32 i := by
  have size : byte ∈ (loadSize addr).reads memory ↔ ∃ i, 0 ≤ i ∧ i < 0 + 4 ∧ byte = addr + BitVec.ofNat 32 i := by
    rw [loadSize, Reading.reads_map, ← mem_field, BitVec.add_zero]
  have region : byte ∈ (loadAddr addr).reads memory ++ (loadLen addr).reads memory ↔
      ∃ i, 4 ≤ i ∧ i < 4 + 16 ∧ byte = addr + BitVec.ofNat 32 i := by
    rw [List.mem_append, loadAddr, loadLen, Reading.reads_map, Reading.reads_map, mem_field, mem_field]
    constructor
    · rintro (⟨i, lower, upper, here⟩ | ⟨i, lower, upper, here⟩)
      all_goals exact ⟨i, by omega, by omega, here⟩
    · rintro ⟨i, lower, upper, here⟩
      rcases Nat.lt_or_ge i 12 with addr | len
      · exact Or.inl ⟨i, lower, addr, here⟩
      · exact Or.inr ⟨i, len, upper, here⟩
  have type : byte ∈ (loadType addr).reads memory ↔ ∃ i, 20 ≤ i ∧ i < 20 + 4 ∧ byte = addr + BitVec.ofNat 32 i := by
    rw [loadType, Reading.reads_map]
    exact mem_field
  rw [mmapTurn_reads, List.mem_append, List.mem_append, size, type]
  by_cases available : (readEntry memory addr).type = 1#32
  · rw [if_pos available, region]
    constructor
    · rintro (⟨i, lower, upper, here⟩ | ⟨i, lower, upper, here⟩ | ⟨i, lower, upper, here⟩)
      all_goals exact ⟨i, ⟨by omega, Or.inr (Or.inr available)⟩, here⟩
    · rintro ⟨i, ⟨inside, -⟩, here⟩
      rcases Nat.lt_or_ge i 4 with low | above
      · exact Or.inr (Or.inr ⟨i, Nat.zero_le i, low, here⟩)
      rcases Nat.lt_or_ge i 20 with middle | high
      · exact Or.inr (Or.inl ⟨i, above, middle, here⟩)
      · exact Or.inl ⟨i, high, inside, here⟩
  · rw [if_neg available]
    constructor
    · rintro (⟨i, lower, upper, here⟩ | nothing | ⟨i, lower, upper, here⟩)
      · exact ⟨i, ⟨upper, Or.inr (Or.inl lower)⟩, here⟩
      · cases nothing
      · exact ⟨i, ⟨by omega, Or.inl upper⟩, here⟩
    · rintro ⟨i, ⟨inside, low | high | region⟩, here⟩
      · exact Or.inr (Or.inr ⟨i, Nat.zero_le i, low, here⟩)
      · exact Or.inl ⟨i, high, inside, here⟩
      · exact absurd region available

/-- The walk reads at the entries that it visits, and nowhere else. -/
theorem mem_walk_reads {memory : Memory 32} {byte : BitVec 32} (fuel : Nat) (pmm : Pmm) :
    byte ∈ (Reading.loop (fun cursor => decide (cursor.1 < mapEnd info)) mmapTurn fuel
        (info.mmapAddr, pmm)).reads memory ↔
      ∃ k < fuel, Visited memory info k ∧ ∃ i, ReadOffset (readEntry memory (entryAt memory info k)) i ∧
        byte = entryAt memory info k + BitVec.ofNat 32 i := by
  rw [Reading.mem_reads_loop]
  refine exists_congr fun k => and_congr_right fun _ => ?_
  have here (i : Nat) : ((mmapStep memory)^[i] (info.mmapAddr, pmm)).1 = entryAt memory info i :=
    mmapStep_cursor memory _ i
  apply and_congr
  · refine forall_congr' fun i => forall_congr' fun _ => ?_
    rw [decide_eq_true_iff, ← here i]
    rfl
  · rw [← here k]
    exact mem_mmapTurn_reads

/-- The entry at `addr` is whole in the map, or it lies across the end of the
address space with its unread region outside. -/
def EntryInside (memory : Memory 32) (info : MultibootInfo) (addr : BitVec 32) : Prop :=
  info.mmapAddr.toNat ≤ addr.toNat ∧
    (addr.toNat + 24 ≤ info.mmapAddr.toNat + info.mmapLength.toNat ∨
      (readEntry memory addr).type ≠ 1#32 ∧ info.mmapAddr.toNat + 2 ^ 32 ≤ addr.toNat + 20 ∧
        addr.toNat + 4 ≤ info.mmapAddr.toNat + info.mmapLength.toNat)

theorem offset_toNat (addr : BitVec 32) (i : Nat) : (addr + BitVec.ofNat 32 i).toNat = (addr.toNat + i) % 2 ^ 32 := by
  rw [BitVec.toNat_add, BitVec.toNat_ofNat, Nat.add_mod_mod]

/-- The top of the address space is outside, so a field that begins below it and
is all inside does not wrap. -/
theorem field_inside (below : info.mmapAddr.toNat + info.mmapLength.toNat < 2 ^ 32) {addr : BitVec 32}
    (first last : Nat) (begins : addr.toNat + first < 2 ^ 32) (nonempty : first < last)
    (inside : ∀ i, first ≤ i → i < last → InsideMap info (addr + BitVec.ofNat 32 i)) :
    addr.toNat + last ≤ info.mmapAddr.toNat + info.mmapLength.toNat := by
  simp only [InsideMap, offset_toNat] at inside
  by_cases wraps : addr.toNat + last ≤ 2 ^ 32
  · have final := inside (last - 1) (by omega) (by omega)
    omega
  · have top := inside (2 ^ 32 - 1 - addr.toNat) (by omega) (by omega)
    omega

theorem entryInside_iff (below : info.mmapAddr.toNat + info.mmapLength.toNat < 2 ^ 32) {memory : Memory 32}
    {addr : BitVec 32} : EntryInside memory info addr ↔
      ∀ i, ReadOffset (readEntry memory addr) i → InsideMap info (addr + BitVec.ofNat 32 i) := by
  have bound := addr.isLt
  constructor
  · rintro ⟨lower, whole | ⟨reserved, wraps, front⟩⟩ i ⟨inside, offset⟩
    all_goals rw [InsideMap, offset_toNat]
    · omega
    · rcases offset with size | type | available
      · omega
      · omega
      · exact absurd available reserved
  · intro inside
    have size : addr.toNat + 4 ≤ info.mmapAddr.toNat + info.mmapLength.toNat :=
      field_inside below 0 4 bound (by decide) fun i _ short => inside i ⟨by omega, Or.inl short⟩
    have start := inside 0 ⟨by decide, Or.inl (by decide)⟩
    have type := inside 20 ⟨by decide, Or.inr (Or.inl le_rfl)⟩
    simp only [InsideMap, offset_toNat] at start type
    refine ⟨by omega, ?_⟩
    by_cases whole : addr.toNat + 24 ≤ info.mmapAddr.toNat + info.mmapLength.toNat
    · exact Or.inl whole
    refine Or.inr ⟨?_, ?_, size⟩
    · intro available
      have every (i : Nat) (short : i < 24) := inside i ⟨short, Or.inr (Or.inr available)⟩
      exact whole (field_inside below 0 24 bound (by decide) fun i _ short => every i short)
    · have crosses : ¬ addr.toNat + 20 < 2 ^ 32 := fun begins => whole
        (field_inside below 20 24 begins (by decide) fun i long short => inside i ⟨short, Or.inr (Or.inl long)⟩)
      omega

/-- The exact condition, on the entries alone. -/
theorem readsInside_iff (below : info.mmapAddr.toNat + info.mmapLength.toNat < 2 ^ 32) (memory : Memory 32) :
    ReadsInside memory info ↔ (info.flags &&& 1#32 <<< 6 ≠ 0#32 →
      ∀ k, Visited memory info k → EntryInside memory info (entryAt memory info k)) := by
  unfold ReadsInside pmmInitWalk
  by_cases absent : info.flags &&& 1#32 <<< 6 = 0#32
  · simp only [if_pos absent, Reading.reads_pure]
    constructor
    · intro _ announced
      exact absurd absent announced
    · intro _ fuel byte read
      cases read
  · simp only [if_neg absent, Reading.reads_map]
    constructor
    · intro inside _ k visited
      apply (entryInside_iff below).mpr
      intro i offset
      apply inside (k + 1)
      exact (mem_walk_reads (k + 1) _).mpr ⟨k, Nat.lt_succ_self k, visited, i, offset, rfl⟩
    · intro fit fuel byte read
      obtain ⟨k, -, visited, i, offset, rfl⟩ := (mem_walk_reads fuel _).mp read
      exact (entryInside_iff below).mp (fit absent k visited) i offset

/-- How many bytes the first `k` records take. -/
def bytesBefore (records : List MapRecord) (k : Nat) : Nat := ((records.take k).flatMap MapRecord.bytes).length

theorem bytesBefore_succ (records : List MapRecord) (inside : k < records.length) :
    bytesBefore records (k + 1) = bytesBefore records k + (records[k].size.toNat + 4) := by
  unfold bytesBefore
  rw [← List.take_concat_get' records k inside, List.flatMap_append, List.length_append,
    List.flatMap_singleton, MapRecord.bytes_length]

theorem bytesBefore_le (records : List MapRecord) (k : Nat) :
    bytesBefore records k ≤ (records.flatMap MapRecord.bytes).length := by
  have parts : records = records.take k ++ records.drop k := (List.take_append_drop k records).symm
  unfold bytesBefore
  nth_rewrite 2 [parts]
  rw [List.flatMap_append, List.length_append]
  exact Nat.le_add_right _ _

/-- The bytes of a record are where the records before it end. -/
theorem WellFormedMap.record_stored (map : WellFormedMap memory info records) (inside : k < records.length) :
    Stored memory (info.mmapAddr + BitVec.ofNat 32 (bytesBefore records k)) records[k].bytes := by
  have stored := map.stored
  have parts : records = records.take k ++ records[k] :: records.drop (k + 1) := by simp
  rw [parts, List.flatMap_append, stored_append, List.flatMap_cons, stored_append] at stored
  exact stored.2.1

/-- What the walk reads at the end of the first `k` records, and how far the
next record reaches. -/
theorem WellFormedMap.entry_here (map : WellFormedMap memory info records) (inside : k < records.length)
    (here : (entryAt memory info k).toNat = info.mmapAddr.toNat + bytesBefore records k) :
    readEntry memory (entryAt memory info k) = records[k].toMmapEntry ∧
      (entryAt memory info k).toNat + (records[k].size.toNat + 4) ≤
        info.mmapAddr.toNat + info.mmapLength.toNat := by
  have below := map.below
  have limit := bytesBefore_le records (k + 1)
  rw [map.filled, bytesBefore_succ records inside] at limit
  have address : entryAt memory info k = info.mmapAddr + BitVec.ofNat 32 (bytesBefore records k) := by
    apply BitVec.eq_of_toNat_eq
    rw [here, BitVec.toNat_add, BitVec.toNat_ofNat]
    omega
  refine ⟨?_, by omega⟩
  rw [address]
  exact readEntry_bytes (map.record_stored inside)

/-- On a well-formed map the walk stands at the records. -/
theorem WellFormedMap.entryAt_eq (map : WellFormedMap memory info records) (bound : k ≤ records.length) :
    (entryAt memory info k).toNat = info.mmapAddr.toNat + bytesBefore records k := by
  have below := map.below
  induction k with
  | zero => rfl
  | succ k ih =>
    have here := ih (Nat.le_of_succ_le bound)
    obtain ⟨entry, limit⟩ := map.entry_here bound here
    rw [entryAt_succ, nextEntry, entry, bytesBefore_succ records bound, BitVec.toNat_add, BitVec.toNat_add, here]
    simp only [BitVec.toNat_ofNat]
    omega

theorem WellFormedMap.visited_lt (map : WellFormedMap memory info records)
    (visited : Visited memory info k) : k < records.length := by
  by_contra beyond
  have finish := visited records.length (Nat.not_lt.mp beyond)
  have whole : bytesBefore records records.length = info.mmapLength.toNat := by
    rw [bytesBefore, List.take_length, map.filled]
  rw [BitVec.lt_def, map.entryAt_eq le_rfl, whole, mapEnd, BitVec.toNat_add] at finish
  have below := map.below
  omega

theorem WellFormedMap.entryInside (map : WellFormedMap memory info records) (visited : Visited memory info k) :
    EntryInside memory info (entryAt memory info k) := by
  have inside := map.visited_lt visited
  have here := map.entryAt_eq inside.le
  obtain ⟨_, limit⟩ := map.entry_here inside here
  have declared := records[k].declared
  exact ⟨by omega, Or.inl (by omega)⟩

/-- The walk over a map below 4 GiB reads only the map if and only if each entry
that it visits is inside; every well-formed map is of that kind. -/
theorem walk_reads_inside (memory : Memory 32)
    (below : info.mmapAddr.toNat + info.mmapLength.toNat < 2 ^ 32) :
    (ReadsInside memory info ↔ (info.flags &&& 1#32 <<< 6 ≠ 0#32 →
      ∀ k, Visited memory info k → EntryInside memory info (entryAt memory info k))) ∧
    (∀ records, WellFormedMap memory info records → ReadsInside memory info) := by
  refine ⟨readsInside_iff below memory, ?_⟩
  intro records map
  apply (readsInside_iff below memory).mpr
  intro _ k visited
  exact map.entryInside visited

theorem walk_reads_inside_alignedRegion :
    ReadsInside (bootMemory 0x9000#32 [alignedRegion]) (bootInfo 0x9000#32 [alignedRegion]) :=
  (walk_reads_inside (bootMemory 0x9000#32 [alignedRegion]) alignedRegion_map.below).2 _ alignedRegion_map

/-- A map of one byte: the first entry is read all the same. -/
def shortInfo : MultibootInfo := ⟨1#32 <<< 6, 0#32, 1#32, 0x9000#32⟩

theorem short_map_read_past :
    shortInfo.mmapAddr.toNat + shortInfo.mmapLength.toNat < 2 ^ 32 ∧ ¬ ReadsInside (fun _ => 0#8) shortInfo := by
  have below : shortInfo.mmapAddr.toNat + shortInfo.mmapLength.toNat < 2 ^ 32 := by decide
  refine ⟨below, ?_⟩
  intro inside
  have visited : Visited (fun _ => 0#8) shortInfo 0 := by
    intro i bound
    obtain rfl := Nat.le_zero.mp bound
    decide
  have first := (readsInside_iff below _).mp inside (by decide) 0 visited
  rcases first.2 with whole | ⟨-, wraps, -⟩
  · exact absurd whole (by decide)
  · exact absurd wraps (by decide)

/-- Nothing outside a map that is read only inside can change what `pmm_init` does. -/
theorem pmmInit_inside {memory other : Memory 32} (inside : ReadsInside memory info)
    (same : ∀ byte, InsideMap info byte → other byte = memory byte) (kernelEndPhys : BitVec 32) (pmm : Pmm) :
    PmmInit other info kernelEndPhys pmm ↔ PmmInit memory info kernelEndPhys pmm := by
  have walked (fuel : Nat) : pmmInitMap fuel other info Pmm.boot = pmmInitMap fuel memory info Pmm.boot := by
    have run := (pmmInitWalk fuel info Pmm.boot).run_congr fun byte read => same byte (inside fuel byte read)
    exact run.1
  unfold PmmInit pmmInit
  simp only [walked]

instance (info : MultibootInfo) (byte : BitVec 32) : Decidable (InsideMap info byte) :=
  inferInstanceAs (Decidable (_ ∧ _))

/-- The aligned region in a memory that is otherwise full of ones. -/
def filledMemory : Memory 32 := fun byte =>
  if InsideMap (bootInfo 0x9000#32 [alignedRegion]) byte then bootMemory 0x9000#32 [alignedRegion] byte else 0xFF#8

theorem pmmInit_inside_alignedRegion : ∃ pmm,
    PmmInit filledMemory (bootInfo 0x9000#32 [alignedRegion]) 0x180000#32 pmm := by
  have inside : ReadsInside (bootMemory 0x9000#32 [alignedRegion]) (bootInfo 0x9000#32 [alignedRegion]) :=
    (readsInside_iff alignedRegion_map.below _).mpr fun _ _ visited => alignedRegion_map.entryInside visited
  obtain ⟨pmm, init⟩ := pmmInit_returns alignedRegion_map 0x180000#32
  exact ⟨pmm, (pmmInit_inside inside (fun _ member => if_pos member) 0x180000#32 pmm).mpr init⟩

end AstraOS.Memory
