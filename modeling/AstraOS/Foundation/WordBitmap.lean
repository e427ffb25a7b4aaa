import Mathlib.Data.Finset.Card
import Mathlib.Data.Finset.Range
import Mathlib.Data.Finset.Filter
import AstraOS.Foundation.Loop

/-! Bitmaps packed into an array of machine words. The operations work word by
word; their laws are stated over `zeros`, the set of clear positions. -/

namespace AstraOS.Foundation

abbrev WordBitmap (w words : Nat) := Vector (BitVec w) words

namespace WordBitmap

variable {w words : Nat}

def word (map : WordBitmap w words) (k : Nat) : BitVec w := map[k]?.getD 0

def test (map : WordBitmap w words) (i : Nat) : Bool :=
  (map.word (i / w) >>> (i % w)) &&& 1#w != 0#w

def set (map : WordBitmap w words) (i : Nat) : WordBitmap w words :=
  map.setIfInBounds (i / w) (map.word (i / w) ||| 1#w <<< (i % w))

def clear (map : WordBitmap w words) (i : Nat) : WordBitmap w words :=
  map.setIfInBounds (i / w) (map.word (i / w) &&& ~~~(1#w <<< (i % w)))

def full (w words : Nat) : WordBitmap w words :=
  Vector.replicate words (BitVec.allOnes w)

/-- The positions whose bit is clear. -/
def zeros (map : WordBitmap w words) : Finset Nat :=
  (Finset.range (words * w)).filter (fun i => map.test i = false)

theorem mem_zeros {map : WordBitmap w words} :
    i ∈ map.zeros ↔ i < words * w ∧ map.test i = false := by
  simp [zeros]

theorem test_eq_getLsbD (map : WordBitmap w words) (i : Nat) :
    map.test i = (map.word (i / w)).getLsbD (i % w) := by
  unfold test
  rw [BitVec.and_one_eq_setWidth_ofBool_getLsbD, BitVec.getLsbD_ushiftRight, Nat.add_zero]
  cases bit : (map.word (i / w)).getLsbD (i % w) with
  | false => simp
  | true =>
    have positive : 0 < w := by
      have inside := BitVec.lt_of_getLsbD bit
      omega
    obtain ⟨less, rfl⟩ := Nat.exists_eq_add_of_lt positive
    simp

theorem word_setIfInBounds (map : WordBitmap w words) (value : BitVec w)
    (inside : k < words) (j : Nat) :
    word (map.setIfInBounds k value) j = if k = j then value else map.word j := by
  unfold word
  rw [Vector.getElem?_setIfInBounds, if_pos inside]
  split <;> simp

/-- A loop that stores one value into every word. -/
theorem forRange_fill (map : WordBitmap w words) (value : BitVec w) :
    forRange 0 words (fun i map => map.setIfInBounds i value) map = Vector.replicate words value := by
  have filled : ∀ k < words,
      word (forRange 0 words (fun i map => map.setIfInBounds i value) map) k = value := by
    apply forRange_invariant (fun i current => ∀ k < i, word current k = value) (Nat.zero_le words)
    · simp
    · intro i current _ inside held k below
      rw [word_setIfInBounds current value inside]
      split
      · rfl
      · exact held k (by omega)
  apply Vector.ext
  intro k inside
  simpa [word, inside] using filled k inside

private theorem same_position (w i j : Nat) :
    i = j ↔ i / w = j / w ∧ i % w = j % w := by
  constructor
  · rintro rfl
    exact ⟨rfl, rfl⟩
  · rintro ⟨quotient, remainder⟩
    rw [← Nat.div_add_mod i w, ← Nat.div_add_mod j w, quotient, remainder]

private theorem mask_getLsbD (positive : 0 < w) (i j : Nat) :
    (1#w <<< (i % w)).getLsbD (j % w) = decide (i % w = j % w) := by
  have inside := Nat.mod_lt i positive
  rw [← BitVec.twoPow_eq, BitVec.getLsbD_twoPow]
  simp [inside]

theorem test_set (map : WordBitmap w words) (inside : i < words * w) (j : Nat) :
    (map.set i).test j = (decide (i = j) || map.test j) := by
  have positive : 0 < w := Nat.pos_of_mul_pos_left (Nat.zero_lt_of_lt inside)
  have row : i / w < words := Nat.div_lt_of_lt_mul (by rwa [Nat.mul_comm])
  rw [test_eq_getLsbD, test_eq_getLsbD, set, word_setIfInBounds map _ row]
  simp only [same_position w i j]
  by_cases same : i / w = j / w
  · rw [if_pos same, same, BitVec.getLsbD_or, mask_getLsbD positive, Bool.or_comm]
    simp
  · simp [same]

theorem test_clear (map : WordBitmap w words) (inside : i < words * w) (j : Nat) :
    (map.clear i).test j = (!decide (i = j) && map.test j) := by
  have positive : 0 < w := Nat.pos_of_mul_pos_left (Nat.zero_lt_of_lt inside)
  have row : i / w < words := Nat.div_lt_of_lt_mul (by rwa [Nat.mul_comm])
  rw [test_eq_getLsbD, test_eq_getLsbD, clear, word_setIfInBounds map _ row]
  simp only [same_position w i j]
  by_cases same : i / w = j / w
  · rw [if_pos same, same, BitVec.getLsbD_and, BitVec.getLsbD_not, mask_getLsbD positive,
      Bool.and_comm]
    simp [Nat.mod_lt j positive]
  · simp [same]

theorem zeros_set (map : WordBitmap w words) (inside : i < words * w) :
    (map.set i).zeros = map.zeros.erase i := by
  ext j
  simp only [Finset.mem_erase, mem_zeros, test_set map inside, Bool.or_eq_false_iff,
    decide_eq_false_iff_not]
  constructor
  · rintro ⟨bound, other, clear⟩
    exact ⟨Ne.symm other, bound, clear⟩
  · rintro ⟨other, bound, clear⟩
    exact ⟨bound, Ne.symm other, clear⟩

theorem zeros_clear (map : WordBitmap w words) (inside : i < words * w) :
    (map.clear i).zeros = insert i map.zeros := by
  ext j
  simp only [Finset.mem_insert, mem_zeros, test_clear map inside]
  by_cases same : i = j
  · subst j
    simp [inside]
  · simp [same, Ne.symm same]

@[simp] theorem zeros_full : (full w words).zeros = ∅ := by
  apply Finset.eq_empty_iff_forall_notMem.mpr
  intro i member
  obtain ⟨inside, clear⟩ := mem_zeros.mp member
  have positive : 0 < w := Nat.pos_of_mul_pos_left (Nat.zero_lt_of_lt inside)
  have row : i / w < words := Nat.div_lt_of_lt_mul (by rwa [Nat.mul_comm])
  rw [test_eq_getLsbD] at clear
  simp [word, full, row, Nat.mod_lt i positive] at clear

theorem test_word (map : WordBitmap w words) (k : Nat) (inside : b < w) :
    map.test (k * w + b) = (map.word k).getLsbD b := by
  have positive : 0 < w := Nat.zero_lt_of_lt inside
  rw [test_eq_getLsbD, Nat.mul_comm, Nat.mul_add_div positive, Nat.mul_add_mod,
    Nat.div_eq_of_lt inside, Nat.mod_eq_of_lt inside, Nat.add_zero]

/-- A word of ones is a run of set positions: the fast path of a scan. -/
theorem word_eq_allOnes (map : WordBitmap w words) (k : Nat) :
    map.word k = BitVec.allOnes w ↔ ∀ b < w, map.test (k * w + b) = true := by
  constructor
  · intro ones b inside
    rw [test_word map k inside, ones]
    simp [inside]
  · intro ones
    apply BitVec.eq_of_getLsbD_eq
    intro b inside
    rw [← test_word map k inside, ones b inside]
    simp [inside]

/-- A bitmap is determined by its clear positions. -/
theorem zeros_injective {left right : WordBitmap w words} (same : left.zeros = right.zeros) :
    left = right := by
  apply Vector.ext
  intro k row
  apply BitVec.eq_of_getLsbD_eq
  intro b inside
  have position : k * w + b < words * w := by
    have next : (k + 1) * w ≤ words * w := Nat.mul_le_mul_right w row
    rw [Nat.add_mul] at next
    omega
  have agree : left.test (k * w + b) = right.test (k * w + b) := by
    have member : k * w + b ∈ left.zeros ↔ k * w + b ∈ right.zeros := by rw [same]
    simp only [mem_zeros, position, true_and] at member
    cases first : left.test (k * w + b) <;> cases second : right.test (k * w + b) <;>
      simp_all
  rw [test_word left k inside, test_word right k inside] at agree
  simpa [word, row] using agree

end WordBitmap

end AstraOS.Foundation
