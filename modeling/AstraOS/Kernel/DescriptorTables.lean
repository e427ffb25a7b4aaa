import AstraOS.Interrupts.Frames
import AstraOS.Kernel.Descriptors
import Mathlib.Data.List.Nodup

/-! The two tables as a whole: `gdt_init` and `idt_init` fill them and load
their registers, and the processor finds its way through both to a stub. -/

namespace AstraOS.Kernel
open AstraOS.Foundation AstraOS.Interrupts

def accessPresent : BitVec 8 := 0x80#8
def accessRing0 : BitVec 8 := 0x00#8
def accessSeg : BitVec 8 := 0x10#8
def accessExec : BitVec 8 := 0x08#8
def accessRw : BitVec 8 := 0x02#8

def accessCode : BitVec 8 := accessPresent ||| accessRing0 ||| accessSeg ||| accessExec ||| accessRw
def accessData : BitVec 8 := accessPresent ||| accessRing0 ||| accessSeg ||| accessRw

def gran4k32bit : BitVec 8 := 0xCF#8

/-- `gdt_ptr_t` and `idt_ptr_t`, and the registers that are loaded from them. -/
structure TablePtr where
  limit : BitVec 16
  base : BitVec 32
deriving DecidableEq

structure Selectors where
  cs : BitVec 16
  ds : BitVec 16
  es : BitVec 16
  fs : BitVec 16
  gs : BitVec 16
  ss : BitVec 16
deriving DecidableEq

/-- The tables in memory, and the processor's registers for them. -/
structure Descriptors where
  gdt : Vector GdtEntry gdtEntries
  idt : Vector IdtEntry 256
  gdtr : TablePtr
  idtr : TablePtr
  selectors : Selectors

/-- `gdt_init`, with the table at `address`. -/
def gdtInit (address : BitVec 32) (state : Descriptors) : Option Descriptors := do
  let gdt ← gdtSetEntry 0 0#32 0#32 0#8 0#8 state.gdt
  let gdt ← gdtSetEntry 1 0x00000000#32 0xFFFFFFFF#32 accessCode gran4k32bit gdt
  let gdt ← gdtSetEntry 2 0x00000000#32 0xFFFFFFFF#32 accessData gran4k32bit gdt
  some { state with
    gdt := gdt
    gdtr := ⟨BitVec.ofNat 16 (8 * gdtEntries - 1), address⟩
    selectors := ⟨0x08#16, 0x10#16, 0x10#16, 0x10#16, 0x10#16, 0x10#16⟩ }

/-- The calls of `idt_set_gate`, in order. -/
def idtGates (stub : StubName → BitVec 32) : List (BitVec 8 × BitVec 32) :=
  (List.finRange 32).map (fun num => (BitVec.ofNat 8 num.val, stub (.isr num))) ++
    (List.finRange 16).map (fun line => (BitVec.ofNat 8 (32 + line.val), stub (.irq line)))

def setGates (gates : List (BitVec 8 × BitVec 32)) (idt : Vector IdtEntry 256) : Option (Vector IdtEntry 256) :=
  gates.foldlM (fun idt gate => idtSetGate gate.1 gate.2 idt) idt

/-- `idt_init`, with the table at `address`. -/
def idtInit (stub : StubName → BitVec 32) (address : BitVec 32) (state : Descriptors) : Option Descriptors := do
  let idt ← setGates (idtGates stub) state.idt
  some { state with idt := idt, idtr := ⟨BitVec.ofNat 16 (8 * 256 - 1), address⟩ }

/-- The processor fetches a descriptor; one beyond the limit is a fault. -/
def fetchDescriptor (memory : Memory 32) (table : TablePtr) (index : Nat) : Option (BitVec 64) :=
  if 8 * index + 7 ≤ table.limit.toNat
  then some (BitVec.ofNat 64 (leRead memory (table.base + BitVec.ofNat 32 (8 * index)) 8)) else none

/-- The highest offset inside a segment. -/
def Segment.lastByte (segment : Segment) : Nat :=
  if segment.flags.getLsbD 3 then segment.limit.toNat * 4096 + 4095 else segment.limit.toNat

def Segment.present (segment : Segment) : Bool := segment.access.getLsbD 7
def Segment.application (segment : Segment) : Bool := segment.access.getLsbD 4
def Segment.executable (segment : Segment) : Bool := segment.access.getLsbD 3
def Segment.level (segment : Segment) : BitVec 2 := segment.access.extractLsb' 5 2

/-- A selector of the global table, not the null one. -/
def loadSegment (memory : Memory 32) (gdtr : TablePtr) (selector : BitVec 16) : Option Segment :=
  if selector.getLsbD 2 ∨ selector.toNat / 8 = 0 then none
  else (fetchDescriptor memory gdtr (selector.toNat / 8)).map decodeSegment

/-- Where the processor goes on. -/
structure Target where
  cs : BitVec 16
  eip : BitVec 32
  linear : BitVec 32
deriving DecidableEq

/-- Delivery through the tables in ring 0: the gate must be a present 32-bit
interrupt gate, and its segment present code that ring 0 may enter. -/
def interruptTarget (memory : Memory 32) (gdtr idtr : TablePtr) (vector : BitVec 8) : Option Target := do
  let gate ← (fetchDescriptor memory idtr vector.toNat).map decodeGate
  guard (gate.attributes.getLsbD 7 = true ∧ gate.attributes.extractLsb' 0 5 = 0xE#5)
  let segment ← loadSegment memory gdtr gate.selector
  guard (segment.present = true ∧ segment.application = true ∧ segment.executable = true ∧ segment.level = 0#2 ∧
    gate.offset.toNat ≤ segment.lastByte)
  some ⟨gate.selector &&& ~~~3#16, gate.offset, segment.base + gate.offset⟩

/-- Both tables stand in memory where the registers say. -/
structure Descriptors.InMemory (state : Descriptors) (memory : Memory 32) : Prop where
  gdt : Stored memory state.gdtr.base (state.gdt.toList.flatMap GdtEntry.bytes)
  idt : Stored memory state.idtr.base (state.idt.toList.flatMap IdtEntry.bytes)

theorem fetch_stored {Entry : Type} {memory : Memory 32} {table : TablePtr} {encode : Entry → List (BitVec 8)}
    {entries : List Entry} {entry : Entry} (eight : ∀ entry, (encode entry).length = 8)
    (stored : Stored memory table.base (entries.flatMap encode)) (found : entries[i]? = some entry)
    (inside : 8 * i + 7 ≤ table.limit.toNat) :
    fetchDescriptor memory table i = some (descriptorWord (encode entry)) := by
  have read := (stored_table eight stored found).leRead_bytes
  rw [eight] at read
  rw [fetchDescriptor, if_pos inside, read, descriptorWord]

theorem GdtEntry.bytes_length (entry : GdtEntry) : entry.bytes.length = 8 := by
  simp [GdtEntry.bytes]

theorem IdtEntry.bytes_length (entry : IdtEntry) : entry.bytes.length = 8 := by
  simp [IdtEntry.bytes]

theorem table_length {Entry : Type} {encode : Entry → List (BitVec 8)} {entries : List Entry}
    (eight : ∀ entry, (encode entry).length = 8) : (entries.flatMap encode).length = 8 * entries.length := by
  induction entries with
  | nil => rfl
  | cons first rest ih =>
    rw [List.flatMap_cons, List.length_append, eight, ih, List.length_cons, Nat.mul_succ, Nat.add_comm]

/-- What a sequence of calls for different vectors leaves in the table. -/
theorem setGates_effect {gates : List (BitVec 8 × BitVec 32)} (distinct : (gates.map Prod.fst).Nodup)
    (idt : Vector IdtEntry 256) :
    ∃ after, setGates gates idt = some after ∧
      (∀ gate ∈ gates, after[gate.1.toNat]? = some (idtEntry gate.2)) ∧
      ∀ j, (∀ gate ∈ gates, gate.1.toNat ≠ j) → after[j]? = idt[j]? := by
  induction gates generalizing idt with
  | nil => exact ⟨idt, rfl, fun gate member => (by cases member), fun j others => rfl⟩
  | cons gate rest ih =>
    rw [List.map_cons, List.nodup_cons] at distinct
    obtain ⟨middle, stored, replaced⟩ := storeAt_replaced idt (idtEntry gate.2) gate.1.isLt
    obtain ⟨after, finished, gates, others⟩ := ih distinct.2 middle
    have apart : ∀ other ∈ rest, other.1.toNat ≠ gate.1.toNat := by
      intro other member same
      exact distinct.1 (BitVec.eq_of_toNat_eq same ▸ List.mem_map_of_mem member)
    refine ⟨after, ?_, ?_, ?_⟩
    · rw [setGates, List.foldlM_cons, idtSetGate, stored]
      exact finished
    · intro other member
      rcases List.mem_cons.mp member with rfl | later
      · rw [others _ apart, replaced.here]
      · exact gates other later
    · intro j away
      rw [others j fun other member => away other (List.mem_cons_of_mem gate member)]
      exact replaced.elsewhere j (Ne.symm (away gate List.mem_cons_self))

/-- The kernel's two segments as the processor reads them. -/
def codeSegment : Segment := ⟨0#32, 0xFFFFF#20, 0x9A#8, 0xC#4⟩
def dataSegment : Segment := ⟨0#32, 0xFFFFF#20, 0x92#8, 0xC#4⟩

/-- What `gdt_init` leaves. -/
structure GdtReady (address : BitVec 32) (after : Descriptors) : Prop where
  code : after.gdt[1]? = some (gdtEntry 0#32 0xFFFFFFFF#32 accessCode gran4k32bit)
  data : after.gdt[2]? = some (gdtEntry 0#32 0xFFFFFFFF#32 accessData gran4k32bit)
  register : after.gdtr = ⟨23#16, address⟩
  selectors : after.selectors = ⟨0x08#16, 0x10#16, 0x10#16, 0x10#16, 0x10#16, 0x10#16⟩

theorem gdtInit_effect (address : BitVec 32) (before : Descriptors) :
    ∃ after, gdtInit address before = some after ∧ GdtReady address after ∧ after.idt = before.idt := by
  obtain ⟨first, nullStored, -⟩ := storeAt_replaced before.gdt (gdtEntry 0#32 0#32 0#8 0#8) (show 0 < gdtEntries by decide)
  obtain ⟨second, codeStored, code⟩ := storeAt_replaced first
    (gdtEntry 0#32 0xFFFFFFFF#32 accessCode gran4k32bit) (show 1 < gdtEntries by decide)
  obtain ⟨third, dataStored, data⟩ := storeAt_replaced second
    (gdtEntry 0#32 0xFFFFFFFF#32 accessData gran4k32bit) (show 2 < gdtEntries by decide)
  refine ⟨{ before with
    gdt := third
    gdtr := ⟨23#16, address⟩
    selectors := ⟨0x08#16, 0x10#16, 0x10#16, 0x10#16, 0x10#16, 0x10#16⟩ }, ?_, ?_⟩
  · rw [gdtInit, gdtSetEntry, nullStored]
    simp only [gdtSetEntry, Option.bind_eq_bind, Option.bind_some, codeStored, dataStored]
    rfl
  · exact ⟨⟨(data.elsewhere 1 (by decide)).trans code.here, data.here, rfl, rfl⟩, rfl⟩

/-- The vectors of the calls are 0 to 47, in order. -/
theorem idtGates_vectors (stub : StubName → BitVec 32) :
    (idtGates stub).map Prod.fst = (List.range 48).map (BitVec.ofNat 8) := by
  have counted : (List.finRange 32).map (fun num => BitVec.ofNat 8 num.val) ++
      (List.finRange 16).map (fun line => BitVec.ofNat 8 (32 + line.val)) = (List.range 48).map (BitVec.ofNat 8) := by
    decide
  rw [idtGates, List.map_append, List.map_map, List.map_map]
  exact counted

theorem idtGates_below (stub : StubName → BitVec 32) : ∀ gate ∈ idtGates stub, gate.1.toNat < 48 := by
  intro gate member
  have listed : gate.1 ∈ (idtGates stub).map Prod.fst := List.mem_map_of_mem member
  rw [idtGates_vectors] at listed
  obtain ⟨vector, below, same⟩ := List.mem_map.mp listed
  rw [← same, BitVec.toNat_ofNat]
  exact lt_of_le_of_lt (Nat.mod_le _ _) (List.mem_range.mp below)

theorem idtGates_distinct (stub : StubName → BitVec 32) : ((idtGates stub).map Prod.fst).Nodup := by
  rw [idtGates_vectors]
  refine List.Nodup.map_on ?_ List.nodup_range
  intro x small y other same
  have values := congrArg BitVec.toNat same
  rw [BitVec.toNat_ofNat, BitVec.toNat_ofNat] at values
  rw [List.mem_range] at small other
  omega

/-- Every one of the 48 vectors has its call, and no other vector has one. -/
theorem mem_idtGates (stub : StubName → BitVec 32) (vector : Fin 48) :
    (BitVec.ofNat 8 vector.val, stub (idtStub vector)) ∈ idtGates stub := by
  unfold idtGates idtStub
  split
  · rename_i exception
    exact List.mem_append_left _ (List.mem_map.mpr ⟨⟨vector.val, exception⟩, List.mem_finRange _, rfl⟩)
  · rename_i hardware
    refine List.mem_append_right _ (List.mem_map.mpr ⟨⟨vector.val - 32, by omega⟩, List.mem_finRange _, ?_⟩)
    rw [Nat.add_sub_of_le (Nat.not_lt.mp hardware)]

/-- What `idt_init` leaves: the stub of each vector below 48, and the rest as it was. -/
structure IdtReady (stub : StubName → BitVec 32) (address : BitVec 32) (before after : Descriptors) : Prop where
  gates : ∀ vector : Fin 48, after.idt[vector.val]? = some (idtEntry (stub (idtStub vector)))
  others : ∀ j, 48 ≤ j → after.idt[j]? = before.idt[j]?
  register : after.idtr = ⟨2047#16, address⟩
  gdt : after.gdt = before.gdt
  gdtr : after.gdtr = before.gdtr
  selectors : after.selectors = before.selectors

theorem idtInit_effect (stub : StubName → BitVec 32) (address : BitVec 32) (before : Descriptors) :
    ∃ after, idtInit stub address before = some after ∧ IdtReady stub address before after := by
  obtain ⟨idt, stored, gates, others⟩ := setGates_effect (idtGates_distinct stub) before.idt
  refine ⟨{ before with idt := idt, idtr := ⟨2047#16, address⟩ }, ?_, ?_, ?_, rfl, rfl, rfl, rfl⟩
  · rw [idtInit, stored]
    rfl
  · intro vector
    have here := gates _ (mem_idtGates stub vector)
    have index : (BitVec.ofNat 8 vector.val).toNat = vector.val :=
      Nat.mod_eq_of_lt (Nat.lt_trans vector.isLt (by decide))
    rw [index] at here
    exact here
  · intro j above
    exact others j fun gate member same => absurd (same ▸ idtGates_below stub gate member) (Nat.not_lt.mpr above)

/-- From the two tables in memory to the first instruction of a stub. -/
structure TablesReady (stub : StubName → BitVec 32) (ready : Descriptors) (memory : Memory 32) : Prop where
  stubs : ∀ vector : Fin 48, interruptTarget memory ready.gdtr ready.idtr (BitVec.ofNat 8 vector.val) =
    some ⟨0x08#16, stub (idtStub vector), stub (idtStub vector)⟩
  others : ∀ vector : BitVec 8, 48 ≤ vector.toNat → interruptTarget memory ready.gdtr ready.idtr vector = none
  code : loadSegment memory ready.gdtr ready.selectors.cs = some codeSegment
  data : ∀ selector ∈ [ready.selectors.ds, ready.selectors.es, ready.selectors.fs, ready.selectors.gs,
    ready.selectors.ss], loadSegment memory ready.gdtr selector = some dataSegment
  loads_iff : ∀ selector : BitVec 16, (∃ segment, loadSegment memory ready.gdtr selector = some segment) ↔
    selector.getLsbD 2 = false ∧ (selector.toNat / 8 = 1 ∨ selector.toNat / 8 = 2)

theorem code_decoded : decodeSegment (descriptorWord (gdtEntry 0#32 0xFFFFFFFF#32 accessCode gran4k32bit).bytes) =
    codeSegment := by
  rw [decodeSegment_bytes]
  decide

theorem data_decoded : decodeSegment (descriptorWord (gdtEntry 0#32 0xFFFFFFFF#32 accessData gran4k32bit).bytes) =
    dataSegment := by
  rw [decodeSegment_bytes]
  decide

/-- Both segments are flat: 4 GiB from address zero. -/
theorem kernel_segments_flat : codeSegment.lastByte = 4294967295 ∧ dataSegment.lastByte = 4294967295 := by decide

section
variable {before ready : Descriptors} {memory : Memory 32} {gdtAddress idtAddress : BitVec 32}
variable {stub : StubName → BitVec 32}

/-- The selectors that the loaded table can serve. -/
theorem GdtReady.load (held : GdtReady gdtAddress ready) (inMemory : ready.InMemory memory)
    (selector : BitVec 16) : loadSegment memory ready.gdtr selector =
      if selector.getLsbD 2 = false ∧ selector.toNat / 8 = 1 then some codeSegment
      else if selector.getLsbD 2 = false ∧ selector.toNat / 8 = 2 then some dataSegment else none := by
  have limit : ready.gdtr.limit.toNat = 23 := by rw [held.register]; rfl
  have codeList : ready.gdt.toList[1]? = some (gdtEntry 0#32 0xFFFFFFFF#32 accessCode gran4k32bit) :=
    (Vector.getElem?_toList).trans held.code
  have dataList : ready.gdt.toList[2]? = some (gdtEntry 0#32 0xFFFFFFFF#32 accessData gran4k32bit) :=
    (Vector.getElem?_toList).trans held.data
  have code := fetch_stored GdtEntry.bytes_length inMemory.gdt codeList (by omega)
  have data := fetch_stored GdtEntry.bytes_length inMemory.gdt dataList (by omega)
  unfold loadSegment
  cases table : selector.getLsbD 2 with
  | true => simp
  | false =>
    by_cases null : selector.toNat / 8 = 0
    · simp [null]
    by_cases one : selector.toNat / 8 = 1
    · simp [one, code, code_decoded]
    by_cases two : selector.toNat / 8 = 2
    · simp [two, data, data_decoded]
    · have beyond : ¬ 8 * (selector.toNat / 8) + 7 ≤ ready.gdtr.limit.toNat := by omega
      simp [null, one, two, fetchDescriptor, beyond]

/-- A gate of the installed table: present, of the right kind, through the code segment. -/
theorem IdtReady.target (held : IdtReady stub idtAddress before ready) (inMemory : ready.InMemory memory)
    (code : loadSegment memory ready.gdtr 0x08#16 = some codeSegment) (vector : Fin 48) :
    interruptTarget memory ready.gdtr ready.idtr (BitVec.ofNat 8 vector.val) =
      some ⟨0x08#16, stub (idtStub vector), stub (idtStub vector)⟩ := by
  have index : (BitVec.ofNat 8 vector.val).toNat = vector.val :=
    Nat.mod_eq_of_lt (Nat.lt_trans vector.isLt (by decide))
  have limit : ready.idtr.limit.toNat = 2047 := by rw [held.register]; rfl
  have listed : ready.idt.toList[vector.val]? = some (idtEntry (stub (idtStub vector))) :=
    (Vector.getElem?_toList).trans (held.gates vector)
  have fetched := fetch_stored IdtEntry.bytes_length inMemory.idt listed (by omega)
  have reach : (stub (idtStub vector)).toNat ≤ codeSegment.lastByte := by
    rw [kernel_segments_flat.1]
    exact Nat.le_of_lt_succ (stub (idtStub vector)).isLt
  have valid : codeSegment.present = true ∧ codeSegment.application = true ∧ codeSegment.executable = true ∧
      codeSegment.level = 0#2 ∧ (stub (idtStub vector)).toNat ≤ codeSegment.lastByte :=
    ⟨by decide, by decide, by decide, by decide, reach⟩
  have start : codeSegment.base + stub (idtStub vector) = stub (idtStub vector) := BitVec.zero_add _
  have kind : (0x8E#8).getLsbD 7 = true ∧ (0x8E#8).extractLsb' 0 5 = 0xE#5 := by decide
  rw [interruptTarget, index, fetched, Option.map_some, decode_idtEntry]
  simp only [Option.bind_eq_bind, Option.bind_some, code, guard, if_pos kind, if_pos valid, start]
  rfl

/-- A gate that was never written is not present. -/
theorem IdtReady.blank (held : IdtReady stub idtAddress before ready) (inMemory : ready.InMemory memory)
    {vector : BitVec 8} (above : 48 ≤ vector.toNat) (zero : before.idt[vector.toNat]? = some ⟨0#16, 0#16, 0#8, 0#8, 0#16⟩) :
    interruptTarget memory ready.gdtr ready.idtr vector = none := by
  have bound : vector.toNat < 256 := vector.isLt
  have limit : ready.idtr.limit.toNat = 2047 := by rw [held.register]; rfl
  have listed : ready.idt.toList[vector.toNat]? = some ⟨0#16, 0#16, 0#8, 0#8, 0#16⟩ :=
    (Vector.getElem?_toList).trans ((held.others _ above).trans zero)
  have fetched := fetch_stored IdtEntry.bytes_length inMemory.idt listed (by omega)
  have absent : ¬ ((0#8).getLsbD 7 = true ∧ (0#8).extractLsb' 0 5 = 0xE#5) := by decide
  rw [interruptTarget, fetched, Option.map_some, decodeGate_bytes]
  simp only [Option.bind_eq_bind, Option.bind_some, guard, if_neg absent]
  rfl

theorem TablesReady.of (gdt : GdtReady gdtAddress ready) (idt : IdtReady stub idtAddress before ready)
    (zero : ∀ j, 48 ≤ j → j < 256 → before.idt[j]? = some ⟨0#16, 0#16, 0#8, 0#8, 0#16⟩)
    (inMemory : ready.InMemory memory) : TablesReady stub ready memory := by
  have loads := gdt.load inMemory
  have code : loadSegment memory ready.gdtr 0x08#16 = some codeSegment := by
    rw [loads, if_pos (by decide)]
  have data : loadSegment memory ready.gdtr 0x10#16 = some dataSegment := by
    rw [loads, if_neg (by decide), if_pos (by decide)]
  refine ⟨idt.target inMemory code, ?_, ?_, ?_, ?_⟩
  · intro vector above
    exact idt.blank inMemory above (zero _ above vector.isLt)
  · rw [gdt.selectors]
    exact code
  · intro selector member
    rw [gdt.selectors] at member
    simp only [List.mem_cons, List.not_mem_nil, or_false, or_self] at member
    rw [member]
    exact data
  · intro selector
    rw [loads]
    split
    · rename_i first
      exact iff_of_true ⟨_, rfl⟩ ⟨first.1, .inl first.2⟩
    · rename_i other
      split
      · rename_i second
        exact iff_of_true ⟨_, rfl⟩ ⟨second.1, .inr second.2⟩
      · rename_i neither
        refine iff_of_false (by simp) ?_
        rintro ⟨global, one | two⟩
        · exact other ⟨global, one⟩
        · exact neither ⟨global, two⟩

/-- What `gdt_init` has done survives `idt_init`. -/
theorem IdtReady.keeps (idt : IdtReady stub idtAddress before ready) (gdt : GdtReady gdtAddress before) :
    GdtReady gdtAddress ready :=
  ⟨idt.gdt ▸ gdt.code, idt.gdt ▸ gdt.data, idt.gdtr.trans gdt.register, idt.selectors.trans gdt.selectors⟩

/-- Any two tables fit into memory, one behind the other. -/
theorem Descriptors.inMemory (state : Descriptors) (global : state.gdtr.base = 0x1000#32)
    (interrupts : state.idtr.base = 0x1018#32) :
    state.InMemory (loadBytes 0x1000#32 (state.gdt.toList.flatMap GdtEntry.bytes ++
      state.idt.toList.flatMap IdtEntry.bytes)) := by
  have gdtLength : (state.gdt.toList.flatMap GdtEntry.bytes).length = 24 := by
    rw [table_length GdtEntry.bytes_length, Vector.length_toList]
    rfl
  have idtLength : (state.idt.toList.flatMap IdtEntry.bytes).length = 2048 := by
    rw [table_length IdtEntry.bytes_length, Vector.length_toList]
  have stored := stored_loadBytes 0x1000#32
    (state.gdt.toList.flatMap GdtEntry.bytes ++ state.idt.toList.flatMap IdtEntry.bytes)
    (by rw [List.length_append, gdtLength, idtLength]; decide)
  rw [stored_append, gdtLength] at stored
  exact ⟨global ▸ stored.1, interrupts ▸ stored.2⟩

end

/-- Stubs of sixteen bytes each. -/
def evenStubs : StubName → BitVec 32
  | .isr num => 0x101000#32 + BitVec.ofNat 32 (16 * num.val)
  | .irq line => 0x101200#32 + BitVec.ofNat 32 (16 * line.val)

/-- The zero-filled tables, with registers as a bootloader may leave them. -/
def bootDescriptors : Descriptors where
  gdt := Vector.replicate _ ⟨0#16, 0#16, 0#8, 0#8, 0#8, 0#8⟩
  idt := Vector.replicate _ ⟨0#16, 0#16, 0#8, 0#8, 0#16⟩
  gdtr := ⟨0x27#16, 0x8A00#32⟩
  idtr := ⟨0#16, 0#32⟩
  selectors := ⟨0x10#16, 0x18#16, 0x18#16, 0x18#16, 0x18#16, 0x18#16⟩

end AstraOS.Kernel
