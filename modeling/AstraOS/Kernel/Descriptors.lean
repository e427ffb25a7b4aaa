import AstraOS.Foundation.Buffer
import AstraOS.Foundation.Bytes
import AstraOS.Foundation.Mask

/-! The two descriptor tables. The kernel writes an entry field by field, and
the processor reads the same eight bytes as one word with its own layout. -/

namespace AstraOS.Kernel
open AstraOS.Foundation

structure GdtEntry where
  limitLow : BitVec 16
  baseLow : BitVec 16
  baseMid : BitVec 8
  access : BitVec 8
  granularity : BitVec 8
  baseHigh : BitVec 8
deriving DecidableEq

/-- The packed structure in memory. -/
def GdtEntry.bytes (entry : GdtEntry) : List (BitVec 8) :=
  leBytes 2 entry.limitLow.toNat ++ leBytes 2 entry.baseLow.toNat ++
    [entry.baseMid, entry.access, entry.granularity, entry.baseHigh]

structure IdtEntry where
  baseLow : BitVec 16
  sel : BitVec 16
  zero : BitVec 8
  flags : BitVec 8
  baseHigh : BitVec 16
deriving DecidableEq

def IdtEntry.bytes (entry : IdtEntry) : List (BitVec 8) :=
  leBytes 2 entry.baseLow.toNat ++ leBytes 2 entry.sel.toNat ++ [entry.zero, entry.flags] ++
    leBytes 2 entry.baseHigh.toNat

def gdtEntries : Nat := 3

/-- The entry that `gdt_set_entry` writes. -/
def gdtEntry (base limit : BitVec 32) (access gran : BitVec 8) : GdtEntry where
  limitLow := (limit &&& 0xFFFF#32).setWidth 16
  baseLow := (base &&& 0xFFFF#32).setWidth 16
  baseMid := ((base >>> 16) &&& 0xFF#32).setWidth 8
  access := access
  granularity := ((gran.setWidth 32 &&& 0xF0#32) ||| ((limit >>> 16) &&& 0x0F#32)).setWidth 8
  baseHigh := ((base >>> 24) &&& 0xFF#32).setWidth 8

def gdtSetEntry (idx : Nat) (base limit : BitVec 32) (access gran : BitVec 8) (gdt : Vector GdtEntry gdtEntries) :
    Option (Vector GdtEntry gdtEntries) :=
  storeAt gdt idx (gdtEntry base limit access gran)

def idtGateFlags : BitVec 8 := 0x8E#8

/-- The gate that `idt_set_gate` writes. -/
def idtEntry (base : BitVec 32) : IdtEntry where
  baseLow := (base &&& 0xFFFF#32).setWidth 16
  sel := 0x08#16
  zero := 0#8
  flags := idtGateFlags
  baseHigh := ((base >>> 16) &&& 0xFFFF#32).setWidth 16

def idtSetGate (vector : BitVec 8) (base : BitVec 32) (idt : Vector IdtEntry 256) : Option (Vector IdtEntry 256) :=
  storeAt idt vector.toNat (idtEntry base)

/-- Eight bytes as the processor loads them. -/
def descriptorWord (bytes : List (BitVec 8)) : BitVec 64 := BitVec.ofNat 64 (leValue bytes)

/-- A segment descriptor as the processor understands it. -/
structure Segment where
  base : BitVec 32
  limit : BitVec 20
  access : BitVec 8
  flags : BitVec 4
deriving DecidableEq

def decodeSegment (word : BitVec 64) : Segment where
  base := word.extractLsb' 56 8 ++ word.extractLsb' 16 24
  limit := word.extractLsb' 48 4 ++ word.extractLsb' 0 16
  access := word.extractLsb' 40 8
  flags := word.extractLsb' 52 4

/-- An interrupt gate as the processor understands it. -/
structure Gate where
  offset : BitVec 32
  selector : BitVec 16
  reserved : BitVec 8
  attributes : BitVec 8
deriving DecidableEq

def decodeGate (word : BitVec 64) : Gate where
  offset := word.extractLsb' 48 16 ++ word.extractLsb' 0 16
  selector := word.extractLsb' 16 16
  reserved := word.extractLsb' 32 8
  attributes := word.extractLsb' 40 8

theorem low_word_toNat (x : BitVec 32) : ((x &&& 0xFFFF#32).setWidth 16).toNat = x.toNat % 65536 := by
  have masked : (x &&& 0xFFFF#32).toNat = x.toNat % 2 ^ 16 := and_mask_toNat (k := 16) x (by decide)
  rw [BitVec.toNat_setWidth, masked]
  exact Nat.mod_mod _ _

theorem high_word_toNat (x : BitVec 32) : (((x >>> 16) &&& 0xFFFF#32).setWidth 16).toNat = x.toNat / 65536 := by
  have bound : x.toNat < 4294967296 := x.isLt
  rw [low_word_toNat, BitVec.toNat_ushiftRight, Nat.shiftRight_eq_div_pow]
  omega

theorem byte_toNat (x : BitVec 32) : ((x &&& 0xFF#32).setWidth 8).toNat = x.toNat % 256 := by
  have masked : (x &&& 0xFF#32).toNat = x.toNat % 2 ^ 8 := and_mask_toNat (k := 8) x (by decide)
  rw [BitVec.toNat_setWidth, masked]
  exact Nat.mod_mod _ _

/-- The byte that flags and limit share: flags above, limit below. -/
theorem granularity_toNat (gran : BitVec 8) (limit : BitVec 32) :
    (((gran.setWidth 32 &&& 0xF0#32) ||| ((limit >>> 16) &&& 0x0F#32)).setWidth 8).toNat =
      16 * (gran.toNat / 16) + limit.toNat / 65536 % 16 := by
  have flags : ∀ gran : BitVec 8, (gran.setWidth 32 &&& 0xF0#32).toNat = 2 ^ 4 * (gran.toNat / 16) := by decide
  have rest : ((limit >>> 16) &&& 0x0F#32).toNat = limit.toNat / 65536 % 2 ^ 4 := by
    have masked : ((limit >>> 16) &&& 0x0F#32).toNat = (limit >>> 16).toNat % 2 ^ 4 :=
      and_mask_toNat (k := 4) (limit >>> 16) (by decide)
    rw [masked, BitVec.toNat_ushiftRight, Nat.shiftRight_eq_div_pow]
  have bound : gran.toNat < 256 := gran.isLt
  rw [BitVec.toNat_setWidth, BitVec.toNat_or, flags, rest,
    ← Nat.two_pow_add_eq_or_of_lt (Nat.mod_lt _ (Nat.two_pow_pos 4)) (gran.toNat / 16)]
  omega

theorem descriptorWord_toNat {bytes : List (BitVec 8)} (eight : bytes.length = 8) :
    (descriptorWord bytes).toNat = leValue bytes := by
  have bound := leValue_lt bytes
  rw [eight] at bound
  rw [descriptorWord, BitVec.toNat_ofNat]
  exact Nat.mod_eq_of_lt bound

/-- A field of whole bytes, cut out of a descriptor. -/
theorem descriptor_field (front middle back : List (BitVec 8)) (start length : Nat)
    (eight : (front ++ (middle ++ back)).length = 8) (begins : start = 8 * front.length)
    (long : length = 8 * middle.length) :
    ((descriptorWord (front ++ (middle ++ back))).extractLsb' start length).toNat = leValue middle := by
  have base : (256 : Nat) = 2 ^ 8 := rfl
  rw [extract_toNat, descriptorWord_toNat eight, begins, long, Nat.pow_mul, Nat.pow_mul, ← base]
  exact leValue_slice front middle back

theorem leValue_word (x : BitVec 16) : leValue (leBytes 2 x.toNat) = x.toNat := by
  rw [leValue_leBytes]
  exact Nat.mod_eq_of_lt x.isLt

theorem leValue_byte (byte : BitVec 8) : leValue [byte] = byte.toNat := by simp [leValue]

/-- The flags and the high limit bits are the two halves of one byte. -/
theorem nibbles_of_byte (word : BitVec 64) :
    word.extractLsb' 48 4 = (word.extractLsb' 48 8).extractLsb' 0 4 ∧
      word.extractLsb' 52 4 = (word.extractLsb' 48 8).extractLsb' 4 4 := by
  constructor
  · apply BitVec.eq_of_toNat_eq
    rw [extract_toNat, extract_toNat, extract_toNat]
    omega
  · apply BitVec.eq_of_toNat_eq
    rw [extract_toNat, extract_toNat, extract_toNat]
    omega

/-- The processor's fields of a segment descriptor, from those of the structure. -/
theorem decodeSegment_bytes (entry : GdtEntry) :
    decodeSegment (descriptorWord entry.bytes) =
      ⟨entry.baseHigh ++ (entry.baseMid ++ entry.baseLow), entry.granularity.extractLsb' 0 4 ++ entry.limitLow,
        entry.access, entry.granularity.extractLsb' 4 4⟩ := by
  obtain ⟨limitLow, baseLow, baseMid, access, granularity, baseHigh⟩ := entry
  obtain ⟨word, named⟩ : ∃ word, word =
      descriptorWord (GdtEntry.bytes ⟨limitLow, baseLow, baseMid, access, granularity, baseHigh⟩) := ⟨_, rfl⟩
  have limitField : (word.extractLsb' 0 16).toNat = leValue (leBytes 2 limitLow.toNat) :=
    named ▸ descriptor_field [] (leBytes 2 limitLow.toNat)
      (leBytes 2 baseLow.toNat ++ [baseMid, access, granularity, baseHigh]) 0 16 rfl rfl rfl
  have baseField : (word.extractLsb' 16 24).toNat = leValue (leBytes 2 baseLow.toNat ++ [baseMid]) :=
    named ▸ descriptor_field (leBytes 2 limitLow.toNat) (leBytes 2 baseLow.toNat ++ [baseMid])
      [access, granularity, baseHigh] 16 24 rfl rfl rfl
  have accessField : (word.extractLsb' 40 8).toNat = leValue [access] :=
    named ▸ descriptor_field (leBytes 2 limitLow.toNat ++ leBytes 2 baseLow.toNat ++ [baseMid]) [access]
      [granularity, baseHigh] 40 8 rfl rfl rfl
  have sharedField : (word.extractLsb' 48 8).toNat = leValue [granularity] :=
    named ▸ descriptor_field (leBytes 2 limitLow.toNat ++ leBytes 2 baseLow.toNat ++ [baseMid, access])
      [granularity] [baseHigh] 48 8 rfl rfl rfl
  have topField : (word.extractLsb' 56 8).toNat = leValue [baseHigh] :=
    named ▸ descriptor_field (leBytes 2 limitLow.toNat ++ leBytes 2 baseLow.toNat ++ [baseMid, access, granularity])
      [baseHigh] [] 56 8 rfl rfl rfl
  rw [leValue_append, leBytes_length, leValue_word, leValue_byte] at baseField
  rw [leValue_word] at limitField
  rw [leValue_byte] at accessField sharedField topField
  obtain ⟨lowHalf, highHalf⟩ := nibbles_of_byte word
  rw [← named, decodeSegment, lowHalf, highHalf, BitVec.eq_of_toNat_eq limitField, BitVec.eq_of_toNat_eq accessField,
    BitVec.eq_of_toNat_eq sharedField, BitVec.eq_of_toNat_eq topField, Segment.mk.injEq]
  refine ⟨?_, rfl, rfl, rfl⟩
  apply BitVec.eq_of_toNat_eq
  rw [append_toNat, append_toNat, append_toNat, baseField, Nat.add_comm baseLow.toNat, Nat.mul_comm (256 ^ 2)]
  rfl

theorem decodeGate_bytes (entry : IdtEntry) :
    decodeGate (descriptorWord entry.bytes) =
      ⟨entry.baseHigh ++ entry.baseLow, entry.sel, entry.zero, entry.flags⟩ := by
  obtain ⟨baseLow, sel, zero, flags, baseHigh⟩ := entry
  obtain ⟨word, named⟩ : ∃ word, word = descriptorWord (IdtEntry.bytes ⟨baseLow, sel, zero, flags, baseHigh⟩) := ⟨_, rfl⟩
  have lowField : (word.extractLsb' 0 16).toNat = leValue (leBytes 2 baseLow.toNat) :=
    named ▸ descriptor_field [] (leBytes 2 baseLow.toNat)
      (leBytes 2 sel.toNat ++ [zero, flags] ++ leBytes 2 baseHigh.toNat) 0 16 rfl rfl rfl
  have selField : (word.extractLsb' 16 16).toNat = leValue (leBytes 2 sel.toNat) :=
    named ▸ descriptor_field (leBytes 2 baseLow.toNat) (leBytes 2 sel.toNat)
      ([zero, flags] ++ leBytes 2 baseHigh.toNat) 16 16 rfl rfl rfl
  have zeroField : (word.extractLsb' 32 8).toNat = leValue [zero] :=
    named ▸ descriptor_field (leBytes 2 baseLow.toNat ++ leBytes 2 sel.toNat) [zero]
      ([flags] ++ leBytes 2 baseHigh.toNat) 32 8 rfl rfl rfl
  have flagsField : (word.extractLsb' 40 8).toNat = leValue [flags] :=
    named ▸ descriptor_field (leBytes 2 baseLow.toNat ++ leBytes 2 sel.toNat ++ [zero]) [flags]
      (leBytes 2 baseHigh.toNat) 40 8 rfl rfl rfl
  have highField : (word.extractLsb' 48 16).toNat = leValue (leBytes 2 baseHigh.toNat) :=
    named ▸ descriptor_field (leBytes 2 baseLow.toNat ++ leBytes 2 sel.toNat ++ [zero, flags])
      (leBytes 2 baseHigh.toNat) [] 48 16 rfl rfl rfl
  rw [leValue_word] at lowField selField highField
  rw [leValue_byte] at zeroField flagsField
  rw [← named, decodeGate, BitVec.eq_of_toNat_eq lowField, BitVec.eq_of_toNat_eq selField,
    BitVec.eq_of_toNat_eq zeroField, BitVec.eq_of_toNat_eq flagsField, BitVec.eq_of_toNat_eq highField]

/-- The pieces that `gdt_set_entry` cuts go together again. -/
theorem decode_gdtEntry (base : BitVec 32) (limit : BitVec 20) (access gran : BitVec 8) :
    decodeSegment (descriptorWord (gdtEntry base (limit.setWidth 32) access gran).bytes) =
      ⟨base, limit, access, gran.extractLsb' 4 4⟩ := by
  have limitBound : limit.toNat < 1048576 := limit.isLt
  have baseBound : base.toNat < 4294967296 := base.isLt
  have granBound : gran.toNat < 256 := gran.isLt
  have widened : (limit.setWidth 32).toNat = limit.toNat := by
    rw [BitVec.toNat_setWidth]
    exact Nat.mod_eq_of_lt (Nat.lt_trans limit.isLt (by decide))
  have shifted (k : Nat) : (base >>> k).toNat = base.toNat / 2 ^ k := by
    rw [BitVec.toNat_ushiftRight, Nat.shiftRight_eq_div_pow]
  rw [decodeSegment_bytes, gdtEntry, Segment.mk.injEq]
  refine ⟨?_, ?_, rfl, ?_⟩
  · apply BitVec.eq_of_toNat_eq
    rw [append_toNat, append_toNat, byte_toNat, byte_toNat, low_word_toNat, shifted, shifted]
    omega
  · apply BitVec.eq_of_toNat_eq
    rw [append_toNat, extract_toNat, granularity_toNat, low_word_toNat, widened]
    omega
  · apply BitVec.eq_of_toNat_eq
    rw [extract_toNat, extract_toNat, granularity_toNat, widened]
    omega

theorem decode_idtEntry (base : BitVec 32) :
    decodeGate (descriptorWord (idtEntry base).bytes) = ⟨base, 0x08#16, 0#8, 0x8E#8⟩ := by
  rw [decodeGate_bytes, idtEntry, Gate.mk.injEq]
  refine ⟨?_, rfl, rfl, rfl⟩
  apply BitVec.eq_of_toNat_eq
  rw [append_toNat, high_word_toNat, low_word_toNat]
  omega

/-- A store into a table: the entry is there, and every other one is as before. -/
structure Replaced (before after : Vector α size) (idx : Nat) (entry : α) : Prop where
  here : after[idx]? = some entry
  elsewhere : ∀ j, j ≠ idx → after[j]? = before[j]?

theorem storeAt_replaced (before : Vector α size) (entry : α) (inside : idx < size) :
    ∃ after, storeAt before idx entry = some after ∧ Replaced before after idx entry := by
  obtain ⟨after, stored, cells⟩ := storeAt_inside before entry inside
  refine ⟨after, stored, ?_, ?_⟩
  · rw [cells, if_pos rfl]
  · intro j other
    rw [cells, if_neg other]

/-- Both encoders are invertible, write one entry, and leave the others alone. -/
theorem descriptors_lossless :
    (∀ (idx : Nat) (base : BitVec 32) (limit : BitVec 20) (access gran : BitVec 8) (gdt : Vector GdtEntry gdtEntries),
      idx < gdtEntries → ∃ after entry, gdtSetEntry idx base (limit.setWidth 32) access gran gdt = some after ∧
        Replaced gdt after idx entry ∧
        decodeSegment (descriptorWord entry.bytes) = ⟨base, limit, access, gran.extractLsb' 4 4⟩) ∧
    (∀ (vector : BitVec 8) (base : BitVec 32) (idt : Vector IdtEntry 256),
      ∃ after entry, idtSetGate vector base idt = some after ∧ Replaced idt after vector.toNat entry ∧
        decodeGate (descriptorWord entry.bytes) = ⟨base, 0x08#16, 0#8, 0x8E#8⟩) ∧
    (∀ (base base' : BitVec 32) (limit limit' : BitVec 20) (access access' gran gran' : BitVec 8),
      (gdtEntry base (limit.setWidth 32) access gran).bytes = (gdtEntry base' (limit'.setWidth 32) access' gran').bytes →
        base = base' ∧ limit = limit' ∧ access = access' ∧ gran.extractLsb' 4 4 = gran'.extractLsb' 4 4) ∧
    ∀ base base' : BitVec 32, (idtEntry base).bytes = (idtEntry base').bytes → base = base' := by
  refine ⟨?_, ?_, ?_, ?_⟩
  · intro idx base limit access gran gdt inside
    obtain ⟨after, stored, replaced⟩ := storeAt_replaced gdt (gdtEntry base (limit.setWidth 32) access gran) inside
    exact ⟨after, _, stored, replaced, decode_gdtEntry base limit access gran⟩
  · intro vector base idt
    obtain ⟨after, stored, replaced⟩ := storeAt_replaced idt (idtEntry base) vector.isLt
    exact ⟨after, _, stored, replaced, decode_idtEntry base⟩
  · intro base base' limit limit' access access' gran gran' same
    have decoded := decode_gdtEntry base limit access gran
    rw [same, decode_gdtEntry, Segment.mk.injEq] at decoded
    exact ⟨decoded.1.symm, decoded.2.1.symm, decoded.2.2.1.symm, decoded.2.2.2.symm⟩
  · intro base base' same
    have decoded := decode_idtEntry base
    rw [same, decode_idtEntry, Gate.mk.injEq] at decoded
    exact decoded.1.symm

/-- The kernel's code segment, and the gate of a handler at 0x00101234. -/
theorem descriptors_lossless_kernel :
    (∃ after entry, gdtSetEntry 1 0#32 ((0xFFFFF#20).setWidth 32) 0x9A#8 0xCF#8
        (Vector.replicate gdtEntries (gdtEntry 0#32 0#32 0#8 0#8)) = some after ∧
      Replaced (Vector.replicate gdtEntries (gdtEntry 0#32 0#32 0#8 0#8)) after 1 entry ∧
      decodeSegment (descriptorWord entry.bytes) = ⟨0#32, 0xFFFFF#20, 0x9A#8, 0xC#4⟩) ∧
    (idtEntry 0x00101234#32).bytes = [0x34#8, 0x12#8, 0x08#8, 0x00#8, 0x00#8, 0x8E#8, 0x10#8, 0x00#8] ∧
    (gdtEntry 0x12345678#32 0xABCDE#32 0x92#8 0x4F#8).bytes ≠ (gdtEntry 0x12345678#32 0xABCDE#32 0x92#8 0x8F#8).bytes := by
  refine ⟨descriptors_lossless.1 1 0#32 0xFFFFF#20 0x9A#8 0xCF#8 _ (by decide), by decide, ?_⟩
  intro same
  have equal := descriptors_lossless.2.2.1 0x12345678#32 0x12345678#32 0xABCDE#20 0xABCDE#20 0x92#8 0x92#8 0x4F#8 0x8F#8 same
  exact absurd equal.2.2.2 (by decide)

end AstraOS.Kernel
