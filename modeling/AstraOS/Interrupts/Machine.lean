import AstraOS.Foundation.Stack

/-! The part of the processor that the interrupt stubs use, in 32-bit protected
mode with flat segments. The instruction pointer matters only across interrupts,
calls and returns, since the stubs are straight-line code. -/

namespace AstraOS.Interrupts
open AstraOS.Foundation

structure Cpu where
  eax : BitVec 32
  ecx : BitVec 32
  edx : BitVec 32
  ebx : BitVec 32
  esp : BitVec 32
  ebp : BitVec 32
  esi : BitVec 32
  edi : BitVec 32
  cs : BitVec 16
  ds : BitVec 16
  es : BitVec 16
  fs : BitVec 16
  gs : BitVec 16
  ss : BitVec 16
  eip : BitVec 32
  eflags : BitVec 32
  memory : Memory 32

/-- What the processor model and the linker fix: whether a pushed selector is
zero-extended or leaves the upper half of its slot alone, where the stub of a
vector starts, and where the C handler returns to. -/
structure Platform where
  zeroExtends : Bool
  stubAddress : BitVec 32 → BitVec 32
  returnAddress : BitVec 32

inductive DataSegment where
  | ds
  | es
  | fs
  | gs

inductive Instr where
  | pushImm (value : BitVec 32)
  | pushDs
  | pushEsp
  | pusha
  | movAxImm (value : BitVec 16)
  | movSegAx (segment : DataSegment)
  | movAxDs
  | callHandler
  | addEsp (value : BitVec 32)
  | popDs
  | popa
  | iret

def Cpu.push (value : BitVec 32) (cpu : Cpu) : Cpu :=
  { cpu with memory := store32 cpu.memory (cpu.esp - 4) value, esp := cpu.esp - 4 }

def Cpu.pushSelector (platform : Platform) (selector : BitVec 16) (cpu : Cpu) : Cpu :=
  let count := if platform.zeroExtends then 4 else 2
  { cpu with memory := writeBytes count cpu.memory (cpu.esp - 4) (selector.setWidth 32), esp := cpu.esp - 4 }

def Cpu.pushAll (values : List (BitVec 32)) (cpu : Cpu) : Cpu := values.foldl (fun cpu value => cpu.push value) cpu

/-- The word `n` slots above the top of the stack. -/
def Cpu.slot (cpu : Cpu) (n : Nat) : BitVec 32 := load32 cpu.memory (cpu.esp + BitVec.ofNat 32 (4 * n))

/-- The low half of `eax`. -/
def Cpu.ax (cpu : Cpu) : BitVec 16 := cpu.eax.setWidth 16

def Cpu.setAx (value : BitVec 16) (cpu : Cpu) : Cpu :=
  { cpu with eax := (cpu.eax &&& 0xFFFF0000#32) ||| value.setWidth 32 }

def Cpu.setSegment (segment : DataSegment) (selector : BitVec 16) (cpu : Cpu) : Cpu :=
  match segment with
  | .ds => { cpu with ds := selector }
  | .es => { cpu with es := selector }
  | .fs => { cpu with fs := selector }
  | .gs => { cpu with gs := selector }

def nestedTask : Nat := 14
def virtualMode : Nat := 17

/-- The interrupt gate clears IF, TF, NT, RF and VM. -/
def gateFlags (eflags : BitVec 32) : BitVec 32 := eflags &&& ~~~0x34300#32

def flagBit (n : Nat) (value : Bool) : BitVec 32 := if value then 1#32 <<< n else 0#32

/-- The flags after an addition: CF, PF, AF, ZF, SF and OF. -/
def addFlags (x y eflags : BitVec 32) : BitVec 32 :=
  let sum := x + y
  (eflags &&& ~~~0x8D5#32) ||| flagBit 0 (BitVec.uaddOverflow x y) |||
    flagBit 2 ((List.range 8).countP (fun n => sum.getLsbD n) % 2 = 0) |||
    flagBit 4 (16 ≤ x.toNat % 16 + y.toNat % 16) ||| flagBit 6 (sum = 0#32) ||| flagBit 7 sum.msb |||
    flagBit 11 (BitVec.saddOverflow x y)

/-- A return inside the kernel's ring; one to another task, to virtual mode or to
an outer ring is not followed. -/
def Cpu.iret (cpu : Cpu) : Option Cpu :=
  let cs := (cpu.slot 1).setWidth 16
  let eflags := cpu.slot 2
  if cpu.eflags.getLsbD nestedTask ∨ eflags.getLsbD virtualMode ∨ cs &&& 3#16 ≠ 0#16 then none
  else some { cpu with eip := cpu.slot 0, cs := cs, eflags := eflags, esp := cpu.esp + 12 }

/-- One instruction; `handler` takes the processor from its first instruction
to behind its return. -/
def Cpu.exec (platform : Platform) (handler : Cpu → Cpu) (cpu : Cpu) : Instr → Option Cpu
  | .pushImm value => some (cpu.push value)
  | .pushDs => some (cpu.pushSelector platform cpu.ds)
  | .pushEsp => some (cpu.push cpu.esp)
  | .pusha => some (cpu.pushAll [cpu.eax, cpu.ecx, cpu.edx, cpu.ebx, cpu.esp, cpu.ebp, cpu.esi, cpu.edi])
  | .movAxImm value => some (cpu.setAx value)
  | .movSegAx segment => some (cpu.setSegment segment cpu.ax)
  | .movAxDs => some (cpu.setAx cpu.ds)
  | .callHandler =>
    let returned := handler (cpu.push platform.returnAddress)
    if returned.eip = platform.returnAddress then some returned else none
  | .addEsp value => some { cpu with esp := cpu.esp + value, eflags := addFlags cpu.esp value cpu.eflags }
  | .popDs => some { cpu with ds := (cpu.slot 0).setWidth 16, esp := cpu.esp + 4 }
  | .popa => some
      { cpu with
        edi := cpu.slot 0
        esi := cpu.slot 1
        ebp := cpu.slot 2
        ebx := cpu.slot 4
        edx := cpu.slot 5
        ecx := cpu.slot 6
        eax := cpu.slot 7
        esp := cpu.esp + 32 }
  | .iret => cpu.iret

def Cpu.run (platform : Platform) (handler : Cpu → Cpu) (code : List Instr) (cpu : Cpu) : Option Cpu :=
  code.foldlM (fun cpu instr => cpu.exec platform handler instr) cpu

/-- The processor takes an interrupt through a ring-0 gate: it saves the flags
and the return address, and an error code if the vector has one. -/
def Cpu.deliver (platform : Platform) (vector : BitVec 32) (errorCode : Option (BitVec 32)) (cpu : Cpu) : Cpu :=
  let cpu' := cpu |>.push cpu.eflags |>.pushSelector platform cpu.cs |>.push cpu.eip
  let cpu' := match errorCode with
    | some code => cpu'.push code
    | none => cpu'
  { cpu' with cs := 0x08#16, eip := platform.stubAddress vector, eflags := gateFlags cpu.eflags }

theorem flagBit_off (n : Nat) (value : Bool) (other : n ≠ i) : (flagBit n value).getLsbD i = false := by
  cases value with
  | false => simp [flagBit]
  | true =>
    rw [flagBit, if_pos rfl, ← BitVec.twoPow_eq, BitVec.getLsbD_twoPow]
    simp [other]

/-- An addition leaves the nested-task flag alone. -/
theorem addFlags_nestedTask (x y eflags : BitVec 32) :
    (addFlags x y eflags).getLsbD nestedTask = eflags.getLsbD nestedTask := by
  have cleared : (~~~0x8D5#32).getLsbD nestedTask = true := by decide
  simp only [addFlags, BitVec.getLsbD_or, BitVec.getLsbD_and, cleared]
  rw [flagBit_off 0 _ (by decide), flagBit_off 2 _ (by decide), flagBit_off 4 _ (by decide),
    flagBit_off 6 _ (by decide), flagBit_off 7 _ (by decide), flagBit_off 11 _ (by decide)]
  simp

theorem gateFlags_nestedTask (eflags : BitVec 32) : (gateFlags eflags).getLsbD nestedTask = false := by
  have cleared : (~~~0x34300#32).getLsbD nestedTask = false := by decide
  rw [gateFlags, BitVec.getLsbD_and, cleared, Bool.and_false]

/-- Pushing changes the stack and nothing else. -/
theorem Cpu.pushAll_eq (values : List (BitVec 32)) (cpu : Cpu) :
    cpu.pushAll values = { cpu with
      memory := (cpu.pushAll values).memory
      esp := cpu.esp - BitVec.ofNat 32 (4 * values.length) } := by
  induction values generalizing cpu with
  | nil => rw [List.length_nil, Nat.mul_zero, BitVec.sub_zero, Cpu.pushAll, List.foldl_nil]
  | cons value values ih =>
    have further : cpu.esp - 4 - BitVec.ofNat 32 (4 * values.length) =
        cpu.esp - BitVec.ofNat 32 (4 * (values.length + 1)) := by
      rw [BitVec.sub_sub, Nat.mul_succ, Nat.add_comm, BitVec.ofNat_add]
      rfl
    rw [List.length_cons, ← further]
    exact ih (cpu.push value)

/-- The words on the processor's stack, over `height` bytes of `origin`. -/
def Cpu.StackHolds (origin : Memory 32) (height : Nat) (cpu : Cpu) (words : List (BitVec 32)) : Prop :=
  StackOver origin height cpu.memory cpu.esp words

section
variable {origin : Memory 32} {height : Nat} {cpu : Cpu} {words : List (BitVec 32)}

theorem Cpu.StackHolds.push (held : cpu.StackHolds origin height words)
    (room : 4 * (words.length + 1) + height ≤ 4294967296) (value : BitVec 32) :
    (cpu.push value).StackHolds origin height (value :: words) := StackOver.push held room value

theorem Cpu.StackHolds.pushAll (held : cpu.StackHolds origin height words) (values : List (BitVec 32))
    (room : 4 * (words.length + values.length) + height ≤ 4294967296) :
    (cpu.pushAll values).StackHolds origin height (values.reverse ++ words) := by
  induction values generalizing cpu words with
  | nil => exact held
  | cons value values ih =>
    rw [List.length_cons] at room
    have pushed := held.push (by omega) value
    rw [List.reverse_cons, List.append_assoc]
    refine ih pushed ?_
    rw [List.singleton_append, List.length_cons]
    omega

/-- A pushed selector is the low half of the pushed word on every processor. -/
theorem Cpu.StackHolds.pushSelector (held : cpu.StackHolds origin height words)
    (room : 4 * (words.length + 1) + height ≤ 4294967296) (platform : Platform) (selector : BitVec 16) :
    ∃ word, word.setWidth 16 = selector ∧
      (cpu.pushSelector platform selector).StackHolds origin height (word :: words) := by
  have back : (selector.setWidth 32).setWidth 16 = selector := by
    rw [BitVec.setWidth_setWidth_of_le _ (by decide), BitVec.setWidth_eq]
  unfold Cpu.pushSelector
  cases platform.zeroExtends with
  | true => exact ⟨selector.setWidth 32, back, StackOver.push held room _⟩
  | false =>
    refine ⟨_, ?_, StackOver.write held (show 2 ≤ 4 by decide) room (selector.setWidth 32)⟩
    exact (load32_writeBytes_half _ _ _).trans back

theorem Cpu.setAx_ax (value : BitVec 16) (cpu : Cpu) : (cpu.setAx value).ax = value := by
  apply BitVec.eq_of_getLsbD_eq
  intro i inside
  have upper : (0xFFFF0000#32).getLsbD i = false := by
    have table : ∀ i : Fin 16, (0xFFFF0000#32).getLsbD i.val = false := by decide
    exact table ⟨i, inside⟩
  simp only [Cpu.ax, Cpu.setAx, BitVec.getLsbD_setWidth, BitVec.getLsbD_or, BitVec.getLsbD_and, upper]
  simp [inside, show i < 32 by omega]

theorem Cpu.StackHolds.slot (held : cpu.StackHolds origin height words) (n : Nat) (inside : n < words.length) :
    cpu.slot n = words[n] := StackOver.slot held n inside

end

end AstraOS.Interrupts
