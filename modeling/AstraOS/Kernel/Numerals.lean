import AstraOS.Kernel.FormatRendering

/-! The numerals that `emit_uint` and `emit_int` print: each one reads back as
the value it was printed from, and it is the only numeral of that value. -/

namespace AstraOS.Kernel
open AstraOS.Foundation

/-- Both consoles have got the text, and no more. -/
structure Emits (text : List (BitVec 8)) (before after : List ConsoleCall) : Prop where
  screen : vgaText after = vgaText before ++ text
  line : serialText after = serialText before ++ text

/-- What one call of `emit_uint` does: the text it emits, and how far it fills `buf`. -/
structure UintRendering (val base : BitVec 32) (upper : Bool) (text : List (BitVec 8)) : Prop where
  emitted : ∀ calls, ∃ after, emitUint val base upper calls = some after ∧ Emits text calls after
  canonical : CanonicalNumeral base.toNat upper val.toNat text
  buffer : val ≠ 0#32 → ∃ out,
    divideLoop (digitTable upper) base 33 val ⟨0, Vector.replicate 32 none⟩ = some out ∧
      out.i = text.length ∧ out.i ≤ 32

theorem emits_emitAll (text : List (BitVec 8)) (calls : List ConsoleCall) : Emits text calls (emitAll text calls) :=
  ⟨vgaText_emitAll text calls, serialText_emitAll text calls⟩

theorem Emits.text_eq {text other : List (BitVec 8)} {before after : List ConsoleCall} (one : Emits text before after)
    (another : Emits other before after) : text = other :=
  List.append_cancel_left (one.screen.symm.trans another.screen)

theorem emitUint_rendering (val base : BitVec 32) (upper : Bool) (two : 2 ≤ base.toNat)
    (sixteen : base.toNat ≤ 16) : UintRendering val base upper (uintText base.toNat upper val.toNat) := by
  refine ⟨?_, uintText_canonical upper _ two sixteen, ?_⟩
  · intro calls
    exact ⟨_, emitUint_text val base upper two sixteen calls, emits_emitAll _ calls⟩
  · intro nonzero
    have positive : val.toNat ≠ 0 := fun same => nonzero (BitVec.eq_of_toNat_eq same)
    obtain ⟨length, out, finished, held⟩ := divideLoop_fits val base upper two sixteen
    have index := held.index
    rw [List.length_map] at index
    refine ⟨out, finished, ?_, index ▸ length⟩
    rw [index, uintText, if_neg positive, List.length_reverse, List.length_map]

/-- Integer printing is canonical in every base, stays in its buffer, and tells all values apart. -/
theorem integers_canonical :
    (∀ (val base : BitVec 32) (upper : Bool), 2 ≤ base.toNat → base.toNat ≤ 16 →
      ∃ text, UintRendering val base upper text) ∧
    (∀ val : BitVec 32, ∃ text digits, CanonicalDecimal val.toInt text digits ∧
      ∀ calls, ∃ after, emitInt val calls = some after ∧ Emits text calls after) ∧
    (∀ (base : BitVec 32) (upper : Bool), 2 ≤ base.toNat → base.toNat ≤ 16 →
      ∀ val other : BitVec 32, emitUint val base upper [] = emitUint other base upper [] → val = other) ∧
    ∀ val other : BitVec 32, emitInt val [] = emitInt other [] → val = other := by
  refine ⟨?_, ?_, ?_, ?_⟩
  · intro val base upper two sixteen
    exact ⟨_, emitUint_rendering val base upper two sixteen⟩
  · intro val
    refine ⟨_, _, intText_canonical val.toInt, ?_⟩
    intro calls
    exact ⟨_, emitInt_text val calls, emits_emitAll _ calls⟩
  · intro base upper two sixteen val other same
    have one := emitUint_rendering val base upper two sixteen
    have another := emitUint_rendering other base upper two sixteen
    obtain ⟨first, printed, sent⟩ := one.emitted []
    obtain ⟨second, reprinted, resent⟩ := another.emitted []
    rw [printed, reprinted, Option.some.injEq] at same
    subst same
    have value := one.canonical.value
    rw [sent.text_eq resent, another.canonical.value] at value
    exact BitVec.eq_of_toNat_eq value.symm
  · intro val other same
    rw [emitInt_text, emitInt_text, Option.some.injEq] at same
    have sent := emits_emitAll (intText val.toInt) []
    rw [same] at sent
    have one := intText_canonical val.toInt
    rw [sent.text_eq (emits_emitAll _ [])] at one
    exact BitVec.eq_of_toInt_eq (one.value_eq (intText_canonical other.toInt))

/-- In base two the largest value fills the buffer; the least integer has no positive counterpart. -/
theorem integers_canonical_extremes :
    (∃ text, UintRendering 0xFFFFFFFF#32 2#32 false text) ∧
    (∃ text digits, CanonicalDecimal (-2147483648) text digits ∧
      ∀ calls, ∃ after, emitInt 0x80000000#32 calls = some after ∧ Emits text calls after) ∧
    emitUint 10#32 16#32 true [] ≠ emitUint 11#32 16#32 true [] := by
  refine ⟨integers_canonical.1 _ _ _ (by decide) (by decide), integers_canonical.2.1 0x80000000#32, ?_⟩
  intro same
  exact absurd (integers_canonical.2.2.1 16#32 true (by decide) (by decide) _ _ same) (by decide)

end AstraOS.Kernel
