import AstraOS.Drivers.Pit
import AstraOS.Kernel.Numerals

/-! The idle loop of `kernel_main` and its uptime report: the decimal printer
over a 13-byte buffer, and what a whole run of the loop reports. -/

namespace AstraOS.Kernel
open AstraOS.Foundation AstraOS.Drivers

/-- The local `buf` of the idle loop and the index behind the digits. -/
structure UptimeBuffer where
  i : Nat
  buf : Vector (Option (BitVec 8)) 13

/-- `while (v > 0) { buf[i++] = (char)('0' + v % 10); v /= 10; }`; a write
outside `buf` is a fault. -/
def uptimeDigits : Nat → BitVec 32 → UptimeBuffer → Option UptimeBuffer
  | 0, _, _ => none
  | fuel + 1, v, out =>
    if 0#32 < v then do
      let buf ← storeAt out.buf out.i (some ((48#32 + v % 10#32).setWidth 8))
      uptimeDigits fuel (v / 10#32) ⟨out.i + 1, buf⟩
    else some out

/-- `int i = 0; if (v == 0) { buf[i++] = '0'; }`. -/
def uptimeStart (v : BitVec 32) : Option UptimeBuffer :=
  if v = 0#32 then do
    let buf ← storeAt (Vector.replicate 13 none) 0 (some (ascii '0'))
    some ⟨1, buf⟩
  else some ⟨0, Vector.replicate 13 none⟩

/-- The buffer that the idle loop hands to `serial_puts`. It overflows at the
14th digit, so 14 tests decide the loops. -/
def uptimeBuffer (sec : BitVec 32) : Option UptimeBuffer := do
  let start ← uptimeStart sec
  let out ← uptimeDigits 14 sec start
  let buf ← swapLoop 14 0 (out.i - 1) out.buf
  let buf ← storeAt buf out.i (some (ascii 's'))
  let buf ← storeAt buf (out.i + 1) (some (ascii '\n'))
  let buf ← storeAt buf (out.i + 2) (some 0#8)
  some ⟨out.i, buf⟩

theorem uptimeDigit_char (v : BitVec 32) : (48#32 + v % 10#32).setWidth 8 = digitChar false (v.toNat % 10) := by
  have table : ∀ digit : Fin 10, BitVec.ofNat 8 (48 + digit.val) = digitChar false digit.val := by decide
  have bound : v.toNat % 10 < 10 := Nat.mod_lt _ (by decide)
  have sum : (48#32 + v % 10#32).toNat = 48 + v.toNat % 10 := by
    rw [BitVec.toNat_add, BitVec.toNat_umod]
    exact Nat.mod_eq_of_lt (show 48 + v.toNat % 10 < 4294967296 by omega)
  rw [← BitVec.ofNat_toNat, sum]
  exact table ⟨_, bound⟩

/-- The digits reach the buffer least significant first. -/
theorem uptimeDigits_text {v : BitVec 32} {out : UptimeBuffer} {written : List (BitVec 8)}
    (index : out.i = written.length) (filled : Filled out.buf written)
    (room : written.length + (Nat.digits 10 v.toNat).length ≤ 13) (enough : (Nat.digits 10 v.toNat).length < fuel) :
    ∃ final, uptimeDigits fuel v out = some final ∧
      final.i = (written ++ (Nat.digits 10 v.toNat).map (digitChar false)).length ∧
      Filled final.buf (written ++ (Nat.digits 10 v.toNat).map (digitChar false)) := by
  induction fuel generalizing v out written with
  | zero => cases enough
  | succ fuel ih =>
    rcases Nat.eq_zero_or_pos v.toNat with zero | positive
    · have stops : ¬ 0#32 < v := by
        rw [BitVec.lt_def, zero]
        exact Nat.lt_irrefl 0
      rw [zero, Nat.digits_zero, List.map_nil, List.append_nil]
      exact ⟨out, if_neg stops, index, filled⟩
    · have continues : 0#32 < v := BitVec.lt_def.mpr positive
      have digits := Nat.digits_def' (show 1 < 10 by decide) positive
      rw [digits, List.length_cons] at room enough
      have quotient : (v / 10#32).toNat = v.toNat / 10 := BitVec.toNat_udiv
      obtain ⟨buf, stored, pushed⟩ := filled.push (by omega) (digitChar false (v.toNat % 10))
      have counted : (UptimeBuffer.mk (out.i + 1) buf).i = (written ++ [digitChar false (v.toNat % 10)]).length := by
        simp [index]
      have space : (written ++ [digitChar false (v.toNat % 10)]).length +
          (Nat.digits 10 (v / 10#32).toNat).length ≤ 13 := by
        rw [quotient, List.length_append, List.length_singleton]
        omega
      obtain ⟨final, finished, length, complete⟩ := ih counted pushed space (by rw [quotient]; omega)
      rw [quotient] at length complete
      rw [digits, List.map_cons, List.append_cons]
      refine ⟨final, ?_, length, complete⟩
      rw [uptimeDigits, if_pos continues, uptimeDigit_char, index, stored]
      simpa [index] using finished

theorem uintText_digits (val : Nat) (positive : val ≠ 0) :
    (uintText 10 false val).reverse = (Nat.digits 10 val).map (digitChar false) := by
  rw [uintText, if_neg positive, List.reverse_reverse]

theorem decimal_length (sec : BitVec 32) : (uintText 10 false sec.toNat).length ≤ 10 := by
  have digits : (Nat.digits 10 sec.toNat).length ≤ 10 := by
    rw [Nat.digits_length_le_iff (by decide)]
    exact lt_trans sec.isLt (by decide)
  by_cases zero : sec.toNat = 0
  · rw [uintText, if_pos zero]
    exact Nat.succ_pos 9
  · rw [← List.length_reverse, uintText_digits _ zero, List.length_map]
    exact digits

/-- Before the reversal the buffer holds the numeral backwards. -/
theorem uptimeDigits_backwards (sec : BitVec 32) :
    ∃ start out, uptimeStart sec = some start ∧ uptimeDigits 14 sec start = some out ∧
      out.i = (uintText 10 false sec.toNat).length ∧ Filled out.buf (uintText 10 false sec.toNat).reverse := by
  have empty : Filled (Vector.replicate 13 (none : Option (BitVec 8))) [] := fun _ below => by cases below
  have short := decimal_length sec
  by_cases zero : sec = 0#32
  · obtain ⟨buf, stored, pushed⟩ := empty.push (by decide) (ascii '0')
    subst zero
    refine ⟨⟨1, buf⟩, ⟨1, buf⟩, ?_, rfl, rfl, pushed⟩
    rw [uptimeStart, if_pos rfl]
    exact congrArg (Option.bind · _) stored
  · have positive : sec.toNat ≠ 0 := fun same => zero (BitVec.eq_of_toNat_eq same)
    rw [← List.length_reverse, uintText_digits _ positive] at short
    rw [List.length_map] at short
    have origin : (UptimeBuffer.mk 0 (Vector.replicate 13 none)).i = ([] : List (BitVec 8)).length := rfl
    have room : ([] : List (BitVec 8)).length + (Nat.digits 10 sec.toNat).length ≤ 13 := by
      rw [List.length_nil]
      omega
    obtain ⟨out, finished, index, filled⟩ := uptimeDigits_text origin empty room
      (Nat.lt_of_le_of_lt short (show 10 < 14 by decide))
    rw [List.nil_append] at index filled
    refine ⟨_, out, if_neg zero, finished, ?_, ?_⟩
    · rw [index, ← uintText_digits _ positive, List.length_reverse]
    · rw [uintText_digits _ positive]
      exact filled

/-- The line of the report: the numeral, `s`, a line feed and the NUL. -/
theorem uptimeBuffer_text (sec : BitVec 32) :
    ∃ out, uptimeBuffer sec = some out ∧ out.i = (uintText 10 false sec.toNat).length ∧
      Filled out.buf (uintText 10 false sec.toNat ++ [ascii 's', ascii '\n', 0#8]) := by
  obtain ⟨start, out, started, finished, index, backwards⟩ := uptimeDigits_backwards sec
  have short := decimal_length sec
  have nonempty := (uintText_canonical false sec.toNat (show 2 ≤ 10 by decide) (by decide)).nonempty
  have length : (uintText 10 false sec.toNat).reverse.length = out.i := by
    rw [List.length_reverse, index]
  obtain ⟨buf, reversed, filled⟩ := backwards.reverse (by simpa using nonempty) (by omega)
    (show (uintText 10 false sec.toNat).reverse.length < 14 by omega)
  rw [length] at reversed
  rw [List.reverse_reverse] at filled
  obtain ⟨unit, one, withUnit⟩ := filled.push (by omega) (ascii 's')
  obtain ⟨line, two, withLine⟩ := withUnit.push (by simp; omega) (ascii '\n')
  obtain ⟨last, three, complete⟩ := withLine.push (by simp; omega) 0#8
  refine ⟨⟨out.i, last⟩, ?_, index, by simpa using complete⟩
  rw [← index] at one
  simp only [List.length_append, List.length_singleton, ← index] at two three
  simp [uptimeBuffer, started, finished, reversed, one, two, three]

end AstraOS.Kernel
