import Mathlib.Data.Nat.Digits.Lemmas

/-! Numerals in ASCII. The text of a number in a base up to sixteen reads back as
that number, and it is the numeral without leading zeros. -/

namespace AstraOS.Foundation

def ascii (c : Char) : BitVec 8 := BitVec.ofNat 8 c.toNat

/-- The character of ten; the other letters follow it. -/
def letterTen (upper : Bool) : Nat := if upper then 'A'.toNat else 'a'.toNat

/-- The character of a digit below sixteen. -/
def digitChar (upper : Bool) (digit : Nat) : BitVec 8 :=
  BitVec.ofNat 8 (if digit < 10 then '0'.toNat + digit else letterTen upper + (digit - 10))

/-- The value of a digit, and sixteen for any other character. -/
def digitValue (upper : Bool) (c : BitVec 8) : Nat :=
  if '0'.toNat ≤ c.toNat ∧ c.toNat ≤ '9'.toNat then c.toNat - '0'.toNat
  else if letterTen upper ≤ c.toNat ∧ c.toNat < letterTen upper + 6 then c.toNat - letterTen upper + 10
  else 16

/-- The numeral of a value, most significant digit first. -/
def uintText (base : Nat) (upper : Bool) (val : Nat) : List (BitVec 8) :=
  if val = 0 then [ascii '0'] else ((Nat.digits base val).map (digitChar upper)).reverse

/-- The decimal of a signed value. -/
def intText (val : Int) : List (BitVec 8) :=
  if val < 0 then ascii '-' :: uintText 10 false val.natAbs else uintText 10 false val.natAbs

/-- A numeral read from its most significant digit on. -/
def numeralValue (base : Nat) (upper : Bool) (text : List (BitVec 8)) : Nat :=
  text.foldl (fun value c => value * base + digitValue upper c) 0

example : numeralValue 16 true (['B', 'E', 'E', 'F'].map ascii) = 0xBEEF := by decide

structure CanonicalNumeral (base : Nat) (upper : Bool) (val : Nat) (text : List (BitVec 8)) : Prop where
  nonempty : text ≠ []
  digits : ∀ c ∈ text, digitValue upper c < base
  value : numeralValue base upper text = val
  leading : text.head? = some (ascii '0') → val = 0
  zero : val = 0 → text = [ascii '0']

/-- A minus sign for a negative value, and the numeral of the magnitude. -/
structure CanonicalDecimal (val : Int) (text digits : List (BitVec 8)) : Prop where
  magnitude : CanonicalNumeral 10 false val.natAbs digits
  sign : text = if val < 0 then ascii '-' :: digits else digits
  minus : text.head? = some (ascii '-') ↔ val < 0

theorem digitValue_digitChar (upper : Bool) (inside : digit < 16) :
    digitValue upper (digitChar upper digit) = digit := by
  have table : ∀ upper : Bool, ∀ digit : Fin 16, digitValue upper (digitChar upper digit.val) = digit.val := by
    decide
  exact table upper ⟨digit, inside⟩

theorem digitValue_zero (upper : Bool) : digitValue upper (ascii '0') = 0 := by
  cases upper with
  | false => rfl
  | true => rfl

/-- Digits written backwards read as the number they are the digits of. -/
theorem numeralValue_reverse (base : Nat) (upper : Bool) {digits : List Nat} (inside : ∀ digit ∈ digits, digit < 16) :
    numeralValue base upper (digits.map (digitChar upper)).reverse = Nat.ofDigits base digits := by
  induction digits with
  | nil => rfl
  | cons digit rest ih =>
    have later := ih fun other member => inside other (List.mem_cons_of_mem digit member)
    have here := digitValue_digitChar upper (inside digit List.mem_cons_self)
    rw [numeralValue] at later ⊢
    rw [List.map_cons, List.reverse_cons, List.foldl_append, later, Nat.ofDigits_cons, List.foldl_cons, List.foldl_nil,
      here, Nat.mul_comm, Nat.add_comm]

theorem uintText_canonical (upper : Bool) (val : Nat) (two : 2 ≤ base) (sixteen : base ≤ 16) :
    CanonicalNumeral base upper val (uintText base upper val) := by
  unfold uintText
  by_cases zero : val = 0
  · subst zero
    rw [if_pos rfl]
    refine ⟨by simp, ?_, ?_, fun _ => rfl, fun _ => rfl⟩
    · intro c member
      rw [List.mem_singleton.mp member, digitValue_zero]
      omega
    · simp [numeralValue, digitValue_zero]
  · have inside : ∀ digit ∈ Nat.digits base val, digit < 16 :=
      fun digit member => lt_of_lt_of_le (Nat.digits_lt_base two member) sixteen
    have some_digit : Nat.digits base val ≠ [] := Nat.digits_ne_nil_iff_ne_zero.mpr zero
    rw [if_neg zero]
    refine ⟨by simpa using some_digit, ?_, ?_, ?_, fun same => absurd same zero⟩
    · intro c member
      obtain ⟨digit, present, rfl⟩ := List.mem_map.mp (List.mem_reverse.mp member)
      rw [digitValue_digitChar upper (inside digit present)]
      exact Nat.digits_lt_base two present
    · rw [numeralValue_reverse base upper inside, Nat.ofDigits_digits]
    · intro first
      -- the first character comes from the most significant digit, which is not zero
      have last := Nat.getLast_digit_ne_zero base zero
      rw [List.head?_reverse, List.getLast?_map, List.getLast?_eq_getLast_of_ne_nil some_digit, Option.map_some,
        Option.some.injEq] at first
      have value := congrArg (digitValue upper) first
      rw [digitValue_digitChar upper (inside _ (List.getLast_mem some_digit)), digitValue_zero] at value
      exact absurd value last

theorem uintText_nonzero (upper : Bool) (val : Nat) (two : 2 ≤ base) (sixteen : base ≤ 16) :
    0#8 ∉ uintText base upper val := by
  intro member
  have value := (uintText_canonical upper val two sixteen).digits 0#8 member
  have other : digitValue upper 0#8 = 16 := by
    cases upper with
    | false => rfl
    | true => rfl
  omega

theorem intText_nonzero (val : Int) : 0#8 ∉ intText val := by
  have digits := uintText_nonzero false val.natAbs (show 2 ≤ 10 by decide) (by decide)
  unfold intText
  split
  · rw [List.mem_cons, not_or]
    exact ⟨by decide, digits⟩
  · exact digits

theorem minus_not_digit {text : List (BitVec 8)} (digits : ∀ c ∈ text, digitValue false c < 10) : ascii '-' ∉ text := by
  intro member
  exact absurd (digits _ member) (by decide)

theorem intText_canonical (val : Int) : CanonicalDecimal val (intText val) (uintText 10 false val.natAbs) := by
  have magnitude := uintText_canonical false val.natAbs (show 2 ≤ 10 by decide) (by decide)
  refine ⟨magnitude, rfl, ?_⟩
  unfold intText
  by_cases negative : val < 0
  · simp [negative]
  · rw [if_neg negative]
    refine iff_of_false ?_ negative
    intro first
    exact minus_not_digit magnitude.digits (List.mem_of_mem_head? first)

/-- A canonical decimal is the decimal of one value only. -/
theorem CanonicalDecimal.value_eq {val other : Int} {text digits others : List (BitVec 8)}
    (one : CanonicalDecimal val text digits) (two : CanonicalDecimal other text others) : val = other := by
  have same : val < 0 ↔ other < 0 := one.minus.symm.trans two.minus
  have signs := one.sign.symm.trans two.sign
  have equal : digits = others := by
    by_cases negative : val < 0
    · rw [if_pos negative, if_pos (same.mp negative)] at signs
      exact (List.cons.inj signs).2
    · rw [if_neg negative, if_neg (mt same.mpr negative)] at signs
      exact signs
  subst equal
  have magnitude : val.natAbs = other.natAbs := one.magnitude.value.symm.trans two.magnitude.value
  omega

end AstraOS.Foundation
