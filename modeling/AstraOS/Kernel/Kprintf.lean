import AstraOS.Foundation.Buffer
import AstraOS.Foundation.CString
import AstraOS.Foundation.Numeral

/-! The kernel's formatted print. Printing never looks at what the drivers do,
so it is described by the driver calls it makes, in order. Format and string
arguments lie outside the screen and the stack, and printing leaves them alone. -/

namespace AstraOS.Kernel
open AstraOS.Foundation

/-- A character on its way out; `charArgument` marks the argument of a `%c`. -/
structure Emission where
  char : BitVec 8
  charArgument : Bool
deriving DecidableEq

inductive ConsoleCall where
  | vgaPutchar (c : Emission)
  | serialPutchar (c : Emission)
deriving DecidableEq

def ConsoleCall.emission : ConsoleCall → Emission
  | .vgaPutchar c => c
  | .serialPutchar c => c

def emit (c : Emission) (calls : List ConsoleCall) : List ConsoleCall :=
  calls ++ [.vgaPutchar c, .serialPutchar c]

/-- Characters that are no `%c` argument, one after the other. -/
def emitAll (text : List (BitVec 8)) (calls : List ConsoleCall) : List ConsoleCall :=
  text.foldl (fun calls c => emit ⟨c, false⟩ calls) calls

def nullText : List (BitVec 8) := ['(', 'n', 'u', 'l', 'l', ')'].map ascii

/-- `while (*s) emit(*s++)`; a pointer that has gone round the address space
once never meets a NUL. -/
def emitChars (memory : Memory 32) : Nat → BitVec 32 → List ConsoleCall → Option (List ConsoleCall)
  | 0, _, _ => none
  | fuel + 1, s, calls =>
    if memory s = 0#8 then some calls
    else emitChars memory fuel (s + 1) (emit ⟨memory s, false⟩ calls)

def emitStr (memory : Memory 32) (s : BitVec 32) (calls : List ConsoleCall) : Option (List ConsoleCall) :=
  if s = 0#32 then some (emitAll nullText calls) else emitChars memory (2 ^ 32) s calls

def digitsLc : List (BitVec 8) :=
  ['0', '1', '2', '3', '4', '5', '6', '7', '8', '9', 'a', 'b', 'c', 'd', 'e', 'f'].map ascii

def digitsUc : List (BitVec 8) :=
  ['0', '1', '2', '3', '4', '5', '6', '7', '8', '9', 'A', 'B', 'C', 'D', 'E', 'F'].map ascii

/-- The local `buf`, whose cells start out uninitialised, and the index behind
the characters written so far. -/
structure DigitBuffer where
  i : Nat
  buf : Vector (Option (BitVec 8)) 32

/-- The dividing loop. A division by zero, a digit outside the table and a write
outside `buf` are faults. -/
def divideLoop (digits : List (BitVec 8)) (base : BitVec 32) :
    Nat → BitVec 32 → DigitBuffer → Option DigitBuffer
  | 0, _, _ => none
  | fuel + 1, val, out =>
    if 0#32 < val then do
      guard (base ≠ 0#32)
      let digit ← digits[(val % base).toNat]?
      let buf ← storeAt out.buf out.i (some digit)
      divideLoop digits base fuel (val / base) ⟨out.i + 1, buf⟩
    else some out

/-- `while (i > 0) emit(buf[--i])`; reading a cell that was never written is a fault. -/
def emitBackwards (buf : Vector (Option (BitVec 8)) 32) : Nat → List ConsoleCall → Option (List ConsoleCall)
  | 0, calls => some calls
  | i + 1, calls => do
    let c ← buf[i]?.join
    emitBackwards buf i (emit ⟨c, false⟩ calls)

/-- The buffer overflows at the 33rd digit, so 33 tests decide the loop. -/
def emitUint (val base : BitVec 32) (upper : Bool) (calls : List ConsoleCall) : Option (List ConsoleCall) :=
  let digits := if upper then digitsUc else digitsLc
  if val = 0#32 then some (emit ⟨ascii '0', false⟩ calls)
  else do
    let out ← divideLoop digits base 33 val ⟨0, Vector.replicate 32 none⟩
    emitBackwards out.buf out.i calls

/-- The negation is taken in 64 bits and cut to 32. -/
def emitInt (val : BitVec 32) (calls : List ConsoleCall) : Option (List ConsoleCall) :=
  if val.toInt < 0 then
    emitUint ((-(val.signExtend 64)).setWidth 32) 10#32 false (emit ⟨ascii '-', false⟩ calls)
  else emitUint val 10#32 false calls

def kputs (memory : Memory 32) (str : BitVec 32) (calls : List ConsoleCall) : Option (List ConsoleCall) :=
  emitStr memory str calls

/-- The running `kprintf`: how far `fmt` has moved, the arguments that `va_arg`
has not taken, the indices of the format read so far and the calls made. -/
structure PrintState where
  index : Nat
  args : List (BitVec 32)
  reads : List Nat
  calls : List ConsoleCall
deriving DecidableEq

/-- `*fmt`. -/
def PrintState.deref (memory : Memory 32) (fmt : BitVec 32) (state : PrintState) : BitVec 8 × PrintState :=
  (memory (fmt + BitVec.ofNat 32 state.index), { state with reads := state.reads ++ [state.index] })

/-- `fmt++`. -/
def PrintState.advance (state : PrintState) : PrintState := { state with index := state.index + 1 }

def PrintState.emit (c : Emission) (state : PrintState) : PrintState :=
  { state with calls := Kernel.emit c state.calls }

/-- Take the next argument and print it; there must be one. -/
def PrintState.vaArg (print : BitVec 32 → List ConsoleCall → Option (List ConsoleCall)) (state : PrintState) :
    Option PrintState :=
  match state.args with
  | [] => none
  | arg :: args => (print arg state.calls).map (fun calls => { state with args := args, calls := calls })

inductive Specifier where
  | char
  | string
  | signed
  | unsigned
  | hexLower
  | hexUpper
  | percent
  | other
deriving DecidableEq

/-- The case of the `switch` that a character selects. -/
def specifier (c : BitVec 8) : Specifier :=
  if c = ascii 'c' then .char
  else if c = ascii 's' then .string
  else if c = ascii 'd' then .signed
  else if c = ascii 'u' then .unsigned
  else if c = ascii 'x' then .hexLower
  else if c = ascii 'X' then .hexUpper
  else if c = ascii '%' then .percent
  else .other

/-- The `switch` after a percent sign. -/
def printSpecifier (memory : Memory 32) (fmt : BitVec 32) (c : BitVec 8) (state : PrintState) :
    Option PrintState :=
  match specifier c with
  | .char => state.vaArg (fun arg calls => some (Kernel.emit ⟨arg.setWidth 8, true⟩ calls))
  | .string => state.vaArg (emitStr memory)
  | .signed => state.vaArg emitInt
  | .unsigned => state.vaArg (fun arg => emitUint arg 10#32 false)
  | .hexLower => state.vaArg (fun arg => emitUint arg 16#32 false)
  | .hexUpper => state.vaArg (fun arg => emitUint arg 16#32 true)
  | .percent => some (state.emit ⟨ascii '%', false⟩)
  | .other =>
    let (c, state) := (state.emit ⟨ascii '%', false⟩).deref memory fmt
    some (state.emit ⟨c, false⟩)

/-- The main loop, cut off after `fuel` tests. -/
def kprintfLoop (memory : Memory 32) (fmt : BitVec 32) : Nat → PrintState → Option PrintState
  | 0, _ => none
  | fuel + 1, state =>
    let (c, state) := state.deref memory fmt
    if c = 0#8 then some state
    else
      let (c, state) := state.deref memory fmt
      if c ≠ ascii '%' then
        let (c, state) := state.deref memory fmt
        kprintfLoop memory fmt fuel (state.advance.emit ⟨c, false⟩)
      else
        let (c, state) := state.advance.deref memory fmt
        (printSpecifier memory fmt c state).bind (fun state => kprintfLoop memory fmt fuel state.advance)

def kprintf (memory : Memory 32) (fmt : BitVec 32) (args : List (BitVec 32)) (fuel : Nat) : Option PrintState :=
  kprintfLoop memory fmt fuel ⟨0, args, [], []⟩

/-- Up to its NUL a string is printed as it stands. -/
theorem emitChars_string {memory : Memory 32} {s : BitVec 32} {text : List (BitVec 8)}
    (string : CString memory s text) (enough : text.length < fuel) (calls : List ConsoleCall) :
    emitChars memory fuel s calls = some (emitAll text calls) := by
  induction text generalizing s fuel calls with
  | nil =>
    cases fuel with
    | zero => cases enough
    | succ fuel =>
      rw [emitChars, if_pos string.ended]
      rfl
  | cons c rest ih =>
    obtain ⟨here, nonzero, after⟩ := string.next
    cases fuel with
    | zero => cases enough
    | succ fuel =>
      rw [emitChars, here, if_neg nonzero]
      exact ih after (Nat.lt_of_succ_lt_succ enough) _

theorem emitStr_string {memory : Memory 32} {s : BitVec 32} {text : List (BitVec 8)}
    (string : CString memory s text) (pointer : s ≠ 0#32) (calls : List ConsoleCall) :
    emitStr memory s calls = some (emitAll text calls) := by
  rw [emitStr, if_neg pointer]
  exact emitChars_string string string.length_lt calls

/-- The table that `upper` selects. -/
def digitTable (upper : Bool) : List (BitVec 8) := if upper then digitsUc else digitsLc

/-- The tables hold the digits of a numeral. -/
theorem digitTable_lookup (upper : Bool) (inside : digit < 16) :
    (digitTable upper)[digit]? = some (digitChar upper digit) := by
  have table : ∀ upper : Bool, ∀ digit : Fin 16, (digitTable upper)[digit.val]? = some (digitChar upper digit.val) := by
    decide
  exact table upper ⟨digit, inside⟩

/-- The buffer holds exactly these characters below its index. -/
structure DigitBuffer.Holds (out : DigitBuffer) (written : List (BitVec 8)) : Prop where
  index : out.i = written.length
  cells : Filled out.buf written

theorem DigitBuffer.Holds.push {out : DigitBuffer} {written : List (BitVec 8)} (held : out.Holds written)
    (room : written.length < 32) (digit : BitVec 8) :
    ∃ buf, storeAt out.buf out.i (some digit) = some buf ∧
      DigitBuffer.Holds ⟨out.i + 1, buf⟩ (written ++ [digit]) := by
  obtain ⟨buf, stored, pushed⟩ := held.cells.push room digit
  exact ⟨buf, held.index ▸ stored, by simp [held.index], pushed⟩

/-- The dividing loop writes the digits of the value, least significant first. -/
theorem divideLoop_digits (upper : Bool) {base : BitVec 32} (two : 2 ≤ base.toNat) (sixteen : base.toNat ≤ 16)
    {val : BitVec 32} {out : DigitBuffer} {written : List (BitVec 8)} (held : out.Holds written)
    (room : written.length + (Nat.digits base.toNat val.toNat).length ≤ 32)
    (enough : (Nat.digits base.toNat val.toNat).length < fuel) :
    ∃ final, divideLoop (digitTable upper) base fuel val out = some final ∧
      final.Holds (written ++ (Nat.digits base.toNat val.toNat).map (digitChar upper)) := by
  induction fuel generalizing val out written with
  | zero => cases enough
  | succ fuel ih =>
    rcases Nat.eq_zero_or_pos val.toNat with zero | positive
    · have stops : ¬ 0#32 < val := by
        rw [BitVec.lt_def, zero]
        exact Nat.lt_irrefl 0
      refine ⟨out, if_neg stops, ?_⟩
      rw [zero, Nat.digits_zero]
      simpa using held
    · have continues : 0#32 < val := BitVec.lt_def.mpr positive
      have digits := Nat.digits_def' two positive
      rw [digits, List.length_cons] at room enough
      have divisor : base ≠ 0#32 := by
        rintro rfl
        exact absurd two (by decide)
      have digit : (digitTable upper)[(val % base).toNat]? =
          some (digitChar upper (val.toNat % base.toNat)) := by
        rw [BitVec.toNat_umod]
        exact digitTable_lookup upper (lt_of_lt_of_le (Nat.mod_lt _ (by omega)) sixteen)
      obtain ⟨buf, stored, pushed⟩ := held.push (by omega) (digitChar upper (val.toNat % base.toNat))
      have quotient : (val / base).toNat = val.toNat / base.toNat := BitVec.toNat_udiv
      have space : (written ++ [digitChar upper (val.toNat % base.toNat)]).length +
          (Nat.digits base.toNat (val / base).toNat).length ≤ 32 := by
        rw [quotient, List.length_append, List.length_singleton]
        omega
      obtain ⟨final, finished, complete⟩ := ih pushed space (by rw [quotient]; omega)
      refine ⟨final, ?_, ?_⟩
      · rw [divideLoop, if_pos continues, digit]
        simp [divisor, stored, finished]
      · rw [quotient] at complete
        simpa [digits] using complete

/-- The emitting loop prints the buffer from its end. -/
theorem emitBackwards_reverse (buf : Vector (Option (BitVec 8)) 32) (text : List (BitVec 8))
    (cells : Filled buf text) (calls : List ConsoleCall) :
    emitBackwards buf text.length calls = some (emitAll text.reverse calls) := by
  induction text using List.reverseRecOn generalizing calls with
  | nil => rfl
  | append_singleton text c ih =>
    have last := cells text.length (by simp)
    rw [List.getElem?_concat_length] at last
    have earlier : Filled buf text := by
      intro j below
      rw [cells j (by simp; omega), List.getElem?_append_left below]
    rw [List.length_append, List.length_singleton, emitBackwards, last, List.reverse_append]
    exact ih earlier _

/-- A 32-bit value has at most 32 digits, so its digits fit the buffer. -/
theorem divideLoop_fits (val base : BitVec 32) (upper : Bool) (two : 2 ≤ base.toNat) (sixteen : base.toNat ≤ 16) :
    (Nat.digits base.toNat val.toNat).length ≤ 32 ∧
    ∃ out, divideLoop (digitTable upper) base 33 val ⟨0, Vector.replicate 32 none⟩ = some out ∧
      out.Holds ((Nat.digits base.toNat val.toNat).map (digitChar upper)) := by
  have length : (Nat.digits base.toNat val.toNat).length ≤ 32 := by
    rw [Nat.digits_length_le_iff two]
    exact lt_of_lt_of_le val.isLt (Nat.pow_le_pow_left two 32)
  have empty : DigitBuffer.Holds ⟨0, Vector.replicate 32 none⟩ [] := ⟨rfl, by simp [Filled]⟩
  exact ⟨length, divideLoop_digits upper two sixteen empty (by simpa using length) (Nat.lt_succ_of_le length)⟩

/-- `emit_uint` prints the canonical numeral and stays inside its buffer. -/
theorem emitUint_text (val base : BitVec 32) (upper : Bool) (two : 2 ≤ base.toNat) (sixteen : base.toNat ≤ 16)
    (calls : List ConsoleCall) :
    emitUint val base upper calls = some (emitAll (uintText base.toNat upper val.toNat) calls) := by
  unfold emitUint uintText
  by_cases zero : val = 0#32
  · rw [if_pos zero, zero]
    rfl
  · have positive : val.toNat ≠ 0 := fun same => zero (BitVec.eq_of_toNat_eq same)
    obtain ⟨-, final, finished, complete⟩ := divideLoop_fits val base upper two sixteen
    have printed := emitBackwards_reverse final.buf _ complete.cells calls
    rw [← complete.index] at printed
    rw [if_neg zero, if_neg positive, ← digitTable, finished]
    exact printed

theorem emitInt_text (val : BitVec 32) (calls : List ConsoleCall) :
    emitInt val calls = some (emitAll (intText val.toInt) calls) := by
  have value := BitVec.toInt_eq_toNat_cond val
  have bound : val.toNat < 4294967296 := val.isLt
  unfold emitInt intText
  split
  · rename_i negative
    have narrowed : (val.signExtend 64).setWidth 32 = val := by
      apply BitVec.eq_of_getLsbD_eq
      intro i inside
      rw [BitVec.getLsbD_setWidth, BitVec.getLsbD_signExtend]
      simp [inside, show i < 64 by omega]
    have opposite : ((-(val.signExtend 64)).setWidth 32).toNat = val.toInt.natAbs := by
      rw [BitVec.setWidth_neg_of_le (by decide), narrowed, BitVec.toNat_neg]
      omega
    rw [emitUint_text _ 10#32 false (by decide) (by decide), opposite]
    rfl
  · have same : val.toNat = val.toInt.natAbs := by omega
    rw [emitUint_text _ 10#32 false (by decide) (by decide), same]
    rfl

end AstraOS.Kernel
