import Mathlib.Algebra.Order.Group.Nat
import Mathlib.Algebra.Order.Ring.Nat
import Mathlib.Data.List.Induction
import Mathlib.Data.Nat.Digits.Defs

/-! Byte-addressed memory and little-endian integers. Addresses are machine
words, so an object may be laid out across the end of the address space. -/

namespace AstraOS.Foundation

abbrev Memory (width : Nat) := BitVec width → BitVec 8

/-- Byte `i` of the little-endian encoding of `value`. -/
def leByte (value i : Nat) : BitVec 8 := BitVec.ofNat 8 (value / 256 ^ i)

def leBytes (count value : Nat) : List (BitVec 8) := (List.range count).map (leByte value)

/-- The number that bytes spell, the least significant first. -/
def leValue (bytes : List (BitVec 8)) : Nat := Nat.ofDigits 256 (bytes.map BitVec.toNat)

/-- The number spelled by the `count` bytes from `address` on. -/
def leRead (memory : Memory width) (address : BitVec width) : Nat → Nat
  | 0 => 0
  | count + 1 => leRead memory address count +
      (memory (address + BitVec.ofNat width count)).toNat * 256 ^ count

/-- The bytes stand in memory consecutively from `address` on. -/
def Stored (memory : Memory width) : BitVec width → List (BitVec 8) → Prop
  | _, [] => True
  | address, byte :: rest => memory address = byte ∧ Stored memory (address + 1) rest

@[simp] theorem leBytes_length (count value : Nat) : (leBytes count value).length = count := by
  simp [leBytes]

theorem leValue_append (front back : List (BitVec 8)) :
    leValue (front ++ back) = leValue front + 256 ^ front.length * leValue back := by
  rw [leValue, List.map_append, Nat.ofDigits_append, List.length_map]
  rfl

theorem leValue_leBytes (count value : Nat) : leValue (leBytes count value) = value % 256 ^ count := by
  induction count with
  | zero => simp [leBytes, leValue, Nat.mod_one]
  | succ count ih =>
    have split : leBytes (count + 1) value = leBytes count value ++ [leByte value count] := by
      simp [leBytes, List.range_succ]
    have digit : leValue [leByte value count] = value / 256 ^ count % 256 := by
      simp [leValue, leByte]
    rw [split, leValue_append, ih, leBytes_length, digit, Nat.pow_succ, Nat.mod_mul]

theorem leValue_lt (bytes : List (BitVec 8)) : leValue bytes < 256 ^ bytes.length := by
  have digits : ∀ digit ∈ bytes.map BitVec.toNat, digit < 256 := by
    intro digit member
    obtain ⟨byte, -, rfl⟩ := List.mem_map.mp member
    exact byte.isLt
  have bound := Nat.ofDigits_lt_base_pow_length (by decide) digits
  rw [List.length_map] at bound
  exact bound

/-- A field of a packed number is the number its own bytes spell. -/
theorem leValue_slice (front middle back : List (BitVec 8)) :
    leValue (front ++ (middle ++ back)) / 256 ^ front.length % 256 ^ middle.length = leValue middle := by
  rw [leValue_append, Nat.add_mul_div_left _ _ (Nat.pow_pos (by decide)), Nat.div_eq_of_lt (leValue_lt front),
    Nat.zero_add, leValue_append, Nat.add_mul_mod_self_left, Nat.mod_eq_of_lt (leValue_lt middle)]

theorem stored_append (memory : Memory width) (address : BitVec width)
    (front back : List (BitVec 8)) :
    Stored memory address (front ++ back) ↔ Stored memory address front ∧
      Stored memory (address + BitVec.ofNat width front.length) back := by
  induction front generalizing address with
  | nil => simp [Stored]
  | cons byte rest ih =>
    have shifted : address + 1 + BitVec.ofNat width rest.length =
        address + BitVec.ofNat width (rest.length + 1) := by
      rw [BitVec.add_assoc, Nat.add_comm rest.length 1, BitVec.ofNat_add]
      rfl
    simp only [List.cons_append, Stored, ih, List.length_cons, shifted, and_assoc]

theorem Stored.read {memory : Memory width} {address : BitVec width} {bytes : List (BitVec 8)}
    (stored : Stored memory address bytes) (i : Nat) (inside : i < bytes.length) :
    memory (address + BitVec.ofNat width i) = bytes[i] := by
  have parts : bytes = bytes.take i ++ (bytes[i] :: bytes.drop (i + 1)) := by simp
  rw [parts, stored_append] at stored
  have length : (bytes.take i).length = i := List.length_take_of_le inside.le
  rw [length] at stored
  exact stored.2.1

/-- Reading back an encoded number loses nothing but the digits not stored. -/
theorem Stored.leRead_eq {memory : Memory width} {address : BitVec width} {value : Nat}
    (stored : Stored memory address (leBytes count value)) :
    leRead memory address count = value % 256 ^ count := by
  have digit : ∀ i < count, memory (address + BitVec.ofNat width i) = leByte value i := by
    intro i inside
    rw [stored.read i (by simpa using inside)]
    simp [leBytes]
  clear stored
  induction count with
  | zero => simp [leRead, Nat.mod_one]
  | succ count ih =>
    rw [leRead, ih (fun i inside => digit i (Nat.lt_succ_of_lt inside)),
      digit count (Nat.lt_succ_self count), Nat.pow_succ, Nat.mod_mul]
    simp [leByte, Nat.mul_comm]

theorem Stored.leRead_exact {memory : Memory width} {address : BitVec width} {value : Nat}
    (stored : Stored memory address (leBytes count value)) (small : value < 256 ^ count) :
    leRead memory address count = value := by
  rw [stored.leRead_eq, Nat.mod_eq_of_lt small]

/-- What a little-endian load gives is the number that the stored bytes spell. -/
theorem Stored.leRead_bytes {memory : Memory width} {address : BitVec width} {bytes : List (BitVec 8)}
    (stored : Stored memory address bytes) : leRead memory address bytes.length = leValue bytes := by
  induction bytes using List.reverseRecOn with
  | nil => rfl
  | append_singleton front last ih =>
    obtain ⟨before, here, -⟩ := (stored_append memory address front [last]).mp stored
    have single : leValue [last] = last.toNat := by simp [leValue]
    rw [List.length_append, List.length_singleton, leRead, ih before, here, leValue_append, single, Nat.mul_comm]

/-- An entry of a table of encodings of one size. -/
theorem stored_table {Entry : Type*} {memory : Memory width} {base : BitVec width} {encode : Entry → List (BitVec 8)}
    {entries : List Entry} {entry : Entry} (sized : ∀ entry, (encode entry).length = size)
    (stored : Stored memory base (entries.flatMap encode)) (found : entries[i]? = some entry) :
    Stored memory (base + BitVec.ofNat width (size * i)) (encode entry) := by
  induction entries generalizing base i with
  | nil => cases found
  | cons first rest ih =>
    rw [List.flatMap_cons, stored_append, sized] at stored
    cases i with
    | zero =>
      cases found
      rw [Nat.mul_zero, BitVec.add_zero]
      exact stored.1
    | succ i =>
      have later := ih stored.2 (List.getElem?_cons_succ ▸ found)
      rw [BitVec.add_assoc, ← BitVec.ofNat_add, Nat.add_comm, ← Nat.mul_succ] at later
      exact later

/-- A memory that holds exactly the given bytes from `base` on. -/
def loadBytes (base : BitVec width) (bytes : List (BitVec 8)) : Memory width :=
  fun address => bytes.getD (address - base).toNat 0

theorem stored_loadBytes (base : BitVec width) (bytes : List (BitVec 8))
    (fits : bytes.length ≤ 2 ^ width) : Stored (loadBytes base bytes) base bytes := by
  have general : ∀ (front back : List (BitVec 8)), bytes = front ++ back →
      Stored (loadBytes base bytes) (base + BitVec.ofNat width front.length) back := by
    intro front back
    induction back generalizing front with
    | nil => simp [Stored]
    | cons byte rest ih =>
      intro parts
      have length := congrArg List.length parts
      simp only [List.length_append, List.length_cons] at length
      constructor
      · have offset : (BitVec.ofNat width front.length).toNat = front.length := by
          rw [BitVec.toNat_ofNat]
          exact Nat.mod_eq_of_lt (by omega)
        rw [loadBytes, BitVec.add_comm, BitVec.add_sub_cancel, offset, parts]
        simp
      · have next := ih (front ++ [byte]) (by simp [parts])
        simpa [BitVec.ofNat_add, BitVec.add_assoc] using next
  simpa using general [] bytes rfl

/-- Only the bytes from `address` on matter. -/
theorem Stored.congr {memory other : Memory width} {address : BitVec width} {bytes : List (BitVec 8)}
    (stored : Stored memory address bytes)
    (same : ∀ i < bytes.length, other (address + BitVec.ofNat width i) = memory (address + BitVec.ofNat width i)) :
    Stored other address bytes := by
  induction bytes generalizing address with
  | nil => trivial
  | cons byte rest ih =>
    have here := same 0 (Nat.zero_lt_succ _)
    rw [BitVec.add_zero] at here
    refine ⟨here.trans stored.1, ih stored.2 ?_⟩
    intro i inside
    have later := same (1 + i) (Nat.add_comm 1 i ▸ Nat.succ_lt_succ inside)
    rw [BitVec.ofNat_add, ← BitVec.add_assoc] at later
    exact later

/-- Memory behind a store of bytes from `address` on. -/
def overlay (memory : Memory width) (address : BitVec width) (bytes : List (BitVec 8)) : Memory width :=
  fun place => if (place - address).toNat < bytes.length then loadBytes address bytes place else memory place

/-- A store elsewhere. -/
theorem Stored.overlay {memory : Memory width} {base address : BitVec width} {text bytes : List (BitVec 8)}
    (stored : Stored memory base text)
    (apart : ∀ i < text.length, bytes.length ≤ (base + BitVec.ofNat width i - address).toNat) :
    Stored (overlay memory address bytes) base text :=
  stored.congr fun i inside => if_neg (Nat.not_lt.mpr (apart i inside))

end AstraOS.Foundation
