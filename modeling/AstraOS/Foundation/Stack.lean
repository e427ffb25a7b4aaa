import AstraOS.Foundation.Bytes

/-! A descending stack of 32-bit words in byte-addressed memory. Distances are
taken upwards from an address, so a stack may lie across the end of the address
space. -/

namespace AstraOS.Foundation

/-- The low `count` bytes of a value, written from `address` on. -/
def writeBytes (count : Nat) (memory : Memory 32) (address value : BitVec 32) : Memory 32 :=
  fun a => if (a - address).toNat < count then leByte value.toNat (a - address).toNat else memory a

def store32 (memory : Memory 32) (address value : BitVec 32) : Memory 32 := writeBytes 4 memory address value

def load32 (memory : Memory 32) (address : BitVec 32) : BitVec 32 := BitVec.ofNat 32 (leRead memory address 4)

/-- The two memories hold the same bytes in the `extent` bytes from `base` on. -/
def Agree (extent : Nat) (base : BitVec 32) (memory other : Memory 32) : Prop :=
  ∀ address, (address - base).toNat < extent → other address = memory address

/-- The words of a stack, from its top on. -/
def Stacked (memory : Memory 32) : BitVec 32 → List (BitVec 32) → Prop
  | _, [] => True
  | esp, word :: rest => load32 memory esp = word ∧ Stacked memory (esp + 4) rest

variable {memory other third : Memory 32} {base address esp value word : BitVec 32} {words : List (BitVec 32)}

theorem Agree.trans (one : Agree extent base memory other) (two : Agree extent base other third) :
    Agree extent base memory third := by
  intro address inside
  rw [two address inside, one address inside]

/-- A part of an agreeing range agrees. -/
theorem Agree.within (same : Agree extent base memory other) {offset part : Nat}
    (inside : offset + part ≤ extent) (range : extent ≤ 4294967296) :
    Agree part (base + BitVec.ofNat 32 offset) memory other := by
  intro address near
  apply same
  rw [BitVec.toNat_sub, BitVec.toNat_add, BitVec.toNat_ofNat] at near
  rw [BitVec.toNat_sub]
  have bound := address.isLt
  have low := base.isLt
  omega

/-- The bytes up to the end of the address space are those at or above `base`. -/
theorem Agree.above (same : Agree (2 ^ 32 - base.toNat) base memory other) (address : BitVec 32)
    (above : base ≤ address) : other address = memory address := by
  apply same
  have bound := address.isLt
  have order : base.toNat ≤ address.toNat := above
  rw [BitVec.toNat_sub]
  omega

theorem writeBytes_here (i : Nat) (inside : i < count) (small : count ≤ 4) :
    writeBytes count memory address value (address + BitVec.ofNat 32 i) = leByte value.toNat i := by
  have distance : (address + BitVec.ofNat 32 i - address).toNat = i := by
    rw [BitVec.add_comm, BitVec.add_sub_cancel, BitVec.toNat_ofNat]
    omega
  unfold writeBytes
  rw [distance, if_pos inside]

/-- A write leaves the range behind it alone, up to its own first byte. -/
theorem writeBytes_agree (small : count ≤ 4) (room : extent + 4 ≤ 4294967296) :
    Agree extent (address + 4) memory (writeBytes count memory address value) := by
  intro a near
  refine if_neg ?_
  have four : (4 : BitVec 32).toNat = 4 := rfl
  rw [BitVec.toNat_sub, BitVec.toNat_add, four] at near
  rw [BitVec.toNat_sub]
  have bound := a.isLt
  have low := address.isLt
  omega

theorem leRead_congr (same : ∀ i < count, other (address + BitVec.ofNat 32 i) = memory (address + BitVec.ofNat 32 i)) :
    leRead other address count = leRead memory address count := by
  induction count with
  | zero => rfl
  | succ count ih =>
    rw [leRead, leRead, ih (fun i inside => same i (Nat.lt_succ_of_lt inside)), same count (Nat.lt_succ_self count)]

theorem load32_agree (same : Agree extent address memory other) (inside : 4 ≤ extent) :
    load32 other address = load32 memory address := by
  refine congrArg (BitVec.ofNat 32) (leRead_congr ?_)
  intro i near
  apply same
  rw [BitVec.add_comm, BitVec.add_sub_cancel, BitVec.toNat_ofNat]
  omega

theorem load32_store32 (memory : Memory 32) (address value : BitVec 32) :
    load32 (store32 memory address value) address = value := by
  have digits : leRead (store32 memory address value) address 4 = value.toNat := by
    simp only [leRead, store32]
    rw [writeBytes_here 0 (by decide) le_rfl, writeBytes_here 1 (by decide) le_rfl,
      writeBytes_here 2 (by decide) le_rfl, writeBytes_here 3 (by decide) le_rfl]
    have bound := value.isLt
    simp only [leByte, BitVec.toNat_ofNat]
    omega
  rw [load32, digits, BitVec.ofNat_toNat, BitVec.setWidth_eq]

/-- A half-word write determines the low half of the word. -/
theorem load32_writeBytes_half (memory : Memory 32) (address value : BitVec 32) :
    (load32 (writeBytes 2 memory address value) address).setWidth 16 = value.setWidth 16 := by
  have digits : leRead (writeBytes 2 memory address value) address 4 % 65536 = value.toNat % 65536 := by
    simp only [leRead]
    rw [writeBytes_here 0 (by decide) (by decide), writeBytes_here 1 (by decide) (by decide)]
    simp only [leByte, BitVec.toNat_ofNat]
    omega
  apply BitVec.eq_of_toNat_eq
  rw [load32, BitVec.toNat_setWidth, BitVec.toNat_setWidth, BitVec.toNat_ofNat]
  omega

theorem Stacked.agree (stacked : Stacked memory esp words) (same : Agree (4 * words.length) esp memory other)
    (range : 4 * words.length ≤ 4294967296) : Stacked other esp words := by
  induction words generalizing esp with
  | nil => trivial
  | cons word rest ih =>
    rw [List.length_cons] at same range
    have upper : Agree (4 * rest.length) (esp + BitVec.ofNat 32 4) memory other := same.within (by omega) range
    exact ⟨(load32_agree same (by omega)).trans stacked.1, ih stacked.2 upper (by omega)⟩

/-- Words on a stack, above which `height` bytes are as they were in `origin`. -/
structure StackOver (origin : Memory 32) (height : Nat) (memory : Memory 32) (esp : BitVec 32)
    (words : List (BitVec 32)) : Prop where
  stacked : Stacked memory esp words
  kept : Agree height (esp + BitVec.ofNat 32 (4 * words.length)) origin memory

variable {origin : Memory 32}

theorem StackOver.empty (memory : Memory 32) (height : Nat) (esp : BitVec 32) :
    StackOver memory height memory esp [] := ⟨trivial, fun _ _ => rfl⟩

/-- What the stack holds survives a change elsewhere. -/
theorem StackOver.agree (stack : StackOver origin height memory esp words)
    (same : Agree (4 * words.length + height) esp memory other) (range : 4 * words.length + height ≤ 4294967296) :
    StackOver origin height other esp words := by
  constructor
  · have lower : Agree (4 * words.length) (esp + BitVec.ofNat 32 0) memory other := same.within (by omega) range
    rw [BitVec.add_zero] at lower
    exact stack.stacked.agree lower (by omega)
  · exact stack.kept.trans (same.within (by omega) range)

theorem StackOver.pop (stack : StackOver origin height memory esp (word :: words)) :
    load32 memory esp = word ∧ StackOver origin height memory (esp + 4) words := by
  have place : esp + BitVec.ofNat 32 (4 * (word :: words).length) = esp + 4 + BitVec.ofNat 32 (4 * words.length) := by
    rw [List.length_cons, Nat.mul_add, Nat.add_comm, BitVec.ofNat_add, ← BitVec.add_assoc]
    rfl
  exact ⟨stack.stacked.1, stack.stacked.2, place ▸ stack.kept⟩

/-- Writing one slot below the stack pushes the word that the slot then holds. -/
theorem StackOver.write (stack : StackOver origin height memory esp words) (small : count ≤ 4)
    (room : 4 * (words.length + 1) + height ≤ 4294967296) (value : BitVec 32) :
    StackOver origin height (writeBytes count memory (esp - 4) value) (esp - 4)
      (load32 (writeBytes count memory (esp - 4) value) (esp - 4) :: words) := by
  have above : Agree (4 * words.length + height) (esp - 4 + 4) memory (writeBytes count memory (esp - 4) value) :=
    writeBytes_agree small (by omega)
  rw [BitVec.sub_add_cancel] at above
  have moved := stack.agree above (by omega)
  have place : esp - 4 + BitVec.ofNat 32 (4 * (words.length + 1)) = esp + BitVec.ofNat 32 (4 * words.length) := by
    rw [Nat.mul_add, Nat.add_comm, BitVec.ofNat_add, ← BitVec.add_assoc]
    exact congrArg (· + BitVec.ofNat 32 (4 * words.length)) (BitVec.sub_add_cancel esp 4)
  refine ⟨⟨rfl, ?_⟩, ?_⟩
  · rw [BitVec.sub_add_cancel]
    exact moved.stacked
  · rw [List.length_cons, place]
    exact moved.kept

theorem StackOver.push (stack : StackOver origin height memory esp words)
    (room : 4 * (words.length + 1) + height ≤ 4294967296) (value : BitVec 32) :
    StackOver origin height (store32 memory (esp - 4) value) (esp - 4) (value :: words) := by
  have written := stack.write le_rfl room value
  rw [← store32, load32_store32] at written
  exact written

theorem StackOver.drop (stack : StackOver origin height memory esp words) (n : Nat) (inside : n ≤ words.length) :
    StackOver origin height memory (esp + BitVec.ofNat 32 (4 * n)) (words.drop n) := by
  induction n generalizing esp words with
  | zero =>
    rw [Nat.mul_zero, BitVec.add_zero]
    exact stack
  | succ n ih =>
    cases words with
    | nil => cases inside
    | cons word words =>
      have rest := ih stack.pop.2 (Nat.le_of_succ_le_succ inside)
      rw [Nat.mul_succ, Nat.add_comm, BitVec.ofNat_add, ← BitVec.add_assoc]
      exact rest

theorem StackOver.slot (stack : StackOver origin height memory esp words) (n : Nat) (inside : n < words.length) :
    load32 memory (esp + BitVec.ofNat 32 (4 * n)) = words[n] := by
  have rest := stack.drop n inside.le
  rw [List.drop_eq_getElem_cons inside] at rest
  exact rest.pop.1

end AstraOS.Foundation
