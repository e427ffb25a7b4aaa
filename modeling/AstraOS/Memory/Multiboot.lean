import AstraOS.Foundation.Reading

/-! The boot information as the kernel reads it, and the memory map as a
bootloader lays it out. The two meet in `readEntry_bytes`. -/

namespace AstraOS.Memory

open Foundation

/-- `multiboot_info_t`, reduced to the fields that the memory manager reads. -/
structure MultibootInfo where
  flags : BitVec 32
  memUpper : BitVec 32
  mmapLength : BitVec 32
  mmapAddr : BitVec 32

/-- `mmap_entry_t`: `size` does not count its own four bytes. -/
structure MmapEntry where
  size : BitVec 32
  addr : BitVec 64
  len : BitVec 64
  type : BitVec 32

/-- The packed fields at offsets 0, 4, 12 and 20 of `(mmap_entry_t *)address`. -/
def readEntry (memory : Memory 32) (address : BitVec 32) : MmapEntry where
  size := BitVec.ofNat 32 (leRead memory address 4)
  addr := BitVec.ofNat 64 (leRead memory (address + 4#32) 8)
  len := BitVec.ofNat 64 (leRead memory (address + 12#32) 8)
  type := BitVec.ofNat 32 (leRead memory (address + 20#32) 4)

/-- `entry->size`. -/
def loadSize (entry : BitVec 32) : Reading 32 (BitVec 32) := BitVec.ofNat 32 <$> Reading.load entry 4

/-- `entry->addr`. -/
def loadAddr (entry : BitVec 32) : Reading 32 (BitVec 64) := BitVec.ofNat 64 <$> Reading.load (entry + 4#32) 8

/-- `entry->len`. -/
def loadLen (entry : BitVec 32) : Reading 32 (BitVec 64) := BitVec.ofNat 64 <$> Reading.load (entry + 12#32) 8

/-- `entry->type`. -/
def loadType (entry : BitVec 32) : Reading 32 (BitVec 32) := BitVec.ofNat 32 <$> Reading.load (entry + 20#32) 4

/-- The fields of `*(multiboot_info_t *)mbi` at offsets 0, 8, 44 and 48. -/
def readInfo (memory : Memory 32) (mbi : BitVec 32) : MultibootInfo where
  flags := BitVec.ofNat 32 (leRead memory mbi 4)
  memUpper := BitVec.ofNat 32 (leRead memory (mbi + 8#32) 4)
  mmapLength := BitVec.ofNat 32 (leRead memory (mbi + 44#32) 4)
  mmapAddr := BitVec.ofNat 32 (leRead memory (mbi + 48#32) 4)

/-- A memory-map record in a bootloader's hands: the four defined fields and
whatever padding the declared size leaves after them. -/
structure MapRecord extends MmapEntry where
  padding : List (BitVec 8)
  declared : size.toNat = 20 + padding.length

def MapRecord.bytes (record : MapRecord) : List (BitVec 8) :=
  leBytes 4 record.size.toNat ++ (leBytes 8 record.addr.toNat ++
    (leBytes 8 record.len.toNat ++ (leBytes 4 record.type.toNat ++ record.padding)))

/-- Bit 6 of `flags` announces a map, and the records fill exactly the bytes
from `mmap_addr` to `mmap_addr + mmap_length`. -/
structure WellFormedMap (memory : Memory 32) (info : MultibootInfo)
    (records : List MapRecord) : Prop where
  announced : info.flags &&& 1#32 <<< 6 ≠ 0#32
  below : info.mmapAddr.toNat + info.mmapLength.toNat < 2 ^ 32
  filled : (records.flatMap MapRecord.bytes).length = info.mmapLength.toNat
  stored : Stored memory info.mmapAddr (records.flatMap MapRecord.bytes)

section Fields
variable (memory : Memory 32) (entry : BitVec 32)

@[simp] theorem loadSize_value : (loadSize entry).value memory = (readEntry memory entry).size := by
  simp [loadSize, readEntry]

@[simp] theorem loadAddr_value : (loadAddr entry).value memory = (readEntry memory entry).addr := by
  simp [loadAddr, readEntry]

@[simp] theorem loadLen_value : (loadLen entry).value memory = (readEntry memory entry).len := by
  simp [loadLen, readEntry]

@[simp] theorem loadType_value : (loadType entry).value memory = (readEntry memory entry).type := by
  simp [loadType, readEntry]

end Fields

theorem MapRecord.bytes_length (record : MapRecord) :
    record.bytes.length = record.size.toNat + 4 := by
  have declared := record.declared
  simp only [MapRecord.bytes, List.length_append, leBytes_length]
  omega

/-- What the kernel parses is what the bootloader stored, whatever the padding. -/
theorem readEntry_bytes {memory : Memory 32} {address : BitVec 32} {record : MapRecord}
    (stored : Stored memory address record.bytes) :
    readEntry memory address = record.toMmapEntry := by
  simp only [MapRecord.bytes, stored_append, leBytes_length, BitVec.add_assoc] at stored
  obtain ⟨size, addr, len, type, _⟩ := stored
  have sizeRead := size.leRead_exact record.size.isLt
  have addrRead := addr.leRead_exact record.addr.isLt
  have lenRead := len.leRead_exact record.len.isLt
  have typeRead := type.leRead_exact record.type.isLt
  simp only [BitVec.reduceAdd] at lenRead typeRead
  simp [readEntry, sizeRead, addrRead, lenRead, typeRead]

/-- The information and the memory of a bootloader that puts the records at `base`. -/
def bootInfo (base : BitVec 32) (records : List MapRecord) : MultibootInfo where
  flags := 1#32 <<< 6
  memUpper := 0#32
  mmapLength := BitVec.ofNat 32 (records.flatMap MapRecord.bytes).length
  mmapAddr := base

def bootMemory (base : BitVec 32) (records : List MapRecord) : Memory 32 :=
  loadBytes base (records.flatMap MapRecord.bytes)

/-- Every list of records that fits below 4 GiB has a well-formed map. -/
theorem wellFormed_boot (base : BitVec 32) (records : List MapRecord)
    (fits : base.toNat + (records.flatMap MapRecord.bytes).length < 2 ^ 32) :
    WellFormedMap (bootMemory base records) (bootInfo base records) records := by
  have length : (bootInfo base records).mmapLength.toNat = (records.flatMap MapRecord.bytes).length := by
    rw [bootInfo, BitVec.toNat_ofNat]
    exact Nat.mod_eq_of_lt (by omega)
  refine ⟨by simp [bootInfo], ?_, length.symm, stored_loadBytes base _ (by omega)⟩
  rw [length]
  exact fits

end AstraOS.Memory
