import AstraOS.Foundation.CString

/-! The string literals of a program, in memory. A table promises that each of
its texts stands somewhere as a NUL-terminated string, at an address of its own. -/

namespace AstraOS.Foundation

/-- Where the literals are; a text that is none of them has no meaningful address. -/
structure StringTable (width : Nat) (texts : List (List (BitVec 8))) where
  memory : Memory width
  address : List (BitVec 8) → BitVec width
  placed : ∀ text ∈ texts, CString memory (address text) text
  pointer : ∀ text ∈ texts, address text ≠ 0

/-- The texts one behind the other, each with its NUL. -/
def literalBytes (texts : List (List (BitVec 8))) : List (BitVec 8) := texts.flatMap (· ++ [0#8])

/-- The distance from the beginning to the first copy of a text. -/
def literalOffset (text : List (BitVec 8)) : List (List (BitVec 8)) → Nat
  | [] => 0
  | first :: rest => if first = text then 0 else first.length + 1 + literalOffset text rest

variable {width : Nat} {memory : Memory width} {base : BitVec width} {text : List (BitVec 8)}
variable {texts : List (List (BitVec 8))}

theorem literalBytes_cons (first : List (BitVec 8)) (rest : List (List (BitVec 8))) :
    literalBytes (first :: rest) = (first ++ [0#8]) ++ literalBytes rest := rfl

theorem literalOffset_lt (member : text ∈ texts) : literalOffset text texts < (literalBytes texts).length := by
  induction texts with
  | nil => cases member
  | cons first rest ih =>
    rw [literalBytes_cons, List.length_append, List.length_append, List.length_singleton, literalOffset]
    by_cases here : first = text
    · rw [if_pos here]
      omega
    · rw [if_neg here]
      have later := ih ((List.mem_cons.mp member).resolve_left (Ne.symm here))
      omega

theorem stored_literal (stored : Stored memory base (literalBytes texts)) (member : text ∈ texts) :
    Stored memory (base + BitVec.ofNat width (literalOffset text texts)) (text ++ [0#8]) := by
  induction texts generalizing base with
  | nil => cases member
  | cons first rest ih =>
    rw [literalBytes_cons, stored_append] at stored
    obtain ⟨here, behind⟩ := stored
    rw [literalOffset]
    by_cases same : first = text
    · rw [if_pos same, BitVec.add_zero, ← same]
      exact here
    · have later := ih behind ((List.mem_cons.mp member).resolve_left (Ne.symm same))
      rw [if_neg same, BitVec.ofNat_add, ← BitVec.add_assoc]
      rw [List.length_append, List.length_singleton] at later
      exact later

/-- Literals without NULs that lie in memory, above address zero and below its end. -/
def StringTable.ofStored (memory : Memory width) (base : BitVec width) (texts : List (List (BitVec 8)))
    (clean : ∀ text ∈ texts, 0#8 ∉ text) (stored : Stored memory base (literalBytes texts))
    (above : 0 < base.toNat) (below : base.toNat + (literalBytes texts).length ≤ 2 ^ width) : StringTable width texts where
  memory := memory
  address := fun text => base + BitVec.ofNat width (literalOffset text texts)
  placed := fun text member => ⟨stored_literal stored member, clean text member⟩
  pointer := by
    intro text member null
    have inside := literalOffset_lt member
    have value : (base + BitVec.ofNat width (literalOffset text texts)).toNat = 0 := by
      rw [null]
      exact BitVec.toNat_zero
    rw [BitVec.toNat_add, BitVec.toNat_ofNat, Nat.add_mod_mod, Nat.mod_eq_of_lt (by omega)] at value
    omega

end AstraOS.Foundation
