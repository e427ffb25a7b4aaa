import AstraOS.Foundation.Bytes

/-! NUL-terminated strings in byte-addressed memory. -/

namespace AstraOS.Foundation

/-- The characters of a string stand from `pointer` on, up to the first NUL. -/
structure CString (memory : Memory width) (pointer : BitVec width) (text : List (BitVec 8)) : Prop where
  stored : Stored memory pointer (text ++ [0#8])
  nonzero : 0#8 ∉ text

variable {width : Nat} {memory : Memory width} {pointer : BitVec width} {text rest : List (BitVec 8)}

theorem CString.ended (string : CString memory pointer []) : memory pointer = 0#8 := string.stored.1

theorem CString.next {c : BitVec 8} (string : CString memory pointer (c :: rest)) :
    memory pointer = c ∧ c ≠ 0#8 ∧ CString memory (pointer + 1) rest := by
  obtain ⟨here, after⟩ := string.stored
  have zero := string.nonzero
  rw [List.mem_cons, not_or] at zero
  exact ⟨here, Ne.symm zero.1, after, zero.2⟩

theorem CString.skip (string : CString memory pointer (text ++ rest)) :
    CString memory (pointer + BitVec.ofNat width text.length) rest := by
  have stored := string.stored
  rw [List.append_assoc, stored_append] at stored
  exact ⟨stored.2, fun member => string.nonzero (List.mem_append_right text member)⟩

/-- A string does not reach round the address space: its NUL would be one of its characters. -/
theorem CString.length_lt (string : CString memory pointer text) : text.length < 2 ^ width := by
  by_contra long
  obtain ⟨turn, wrapped⟩ := Nat.exists_eq_add_of_le (Nat.not_lt.mp long)
  have inside : turn < text.length := by
    have positive := Nat.two_pow_pos width
    omega
  have last := string.stored.read text.length (by simp)
  have early := string.stored.read turn (by simp; omega)
  have same : BitVec.ofNat width text.length = BitVec.ofNat width turn := by
    apply BitVec.eq_of_toNat_eq
    rw [BitVec.toNat_ofNat, BitVec.toNat_ofNat, wrapped, Nat.add_mod_left]
  rw [same, early, List.getElem_append_left inside] at last
  simp only [List.getElem_concat_length] at last
  exact string.nonzero (last ▸ List.getElem_mem inside)

end AstraOS.Foundation
