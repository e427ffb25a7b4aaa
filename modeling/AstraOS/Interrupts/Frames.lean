import AstraOS.Interrupts.Stubs

/-! What the C handlers find behind the pointer that a stub passes: the packed
structure of idt.h against the words that processor and stub have pushed. -/

namespace AstraOS.Interrupts
open AstraOS.Foundation

/-- `interrupt_frame_t`. -/
structure InterruptFrame where
  ds : BitVec 32
  edi : BitVec 32
  esi : BitVec 32
  ebp : BitVec 32
  espDummy : BitVec 32
  ebx : BitVec 32
  edx : BitVec 32
  ecx : BitVec 32
  eax : BitVec 32
  intNo : BitVec 32
  errCode : BitVec 32
  eip : BitVec 32
  cs : BitVec 32
  eflags : BitVec 32
  useresp : BitVec 32
  ss : BitVec 32

/-- The packed structure at an address, field by field. -/
def InterruptFrame.read (memory : Memory 32) (frame : BitVec 32) : InterruptFrame where
  ds := load32 memory frame
  edi := load32 memory (frame + 4#32)
  esi := load32 memory (frame + 8#32)
  ebp := load32 memory (frame + 12#32)
  espDummy := load32 memory (frame + 16#32)
  ebx := load32 memory (frame + 20#32)
  edx := load32 memory (frame + 24#32)
  ecx := load32 memory (frame + 28#32)
  eax := load32 memory (frame + 32#32)
  intNo := load32 memory (frame + 36#32)
  errCode := load32 memory (frame + 40#32)
  eip := load32 memory (frame + 44#32)
  cs := load32 memory (frame + 48#32)
  eflags := load32 memory (frame + 52#32)
  useresp := load32 memory (frame + 56#32)
  ss := load32 memory (frame + 60#32)

inductive IsrMacro where
  | noErr
  | err
deriving DecidableEq

/-- The macro that makes each exception stub. -/
def isrMacros : Vector IsrMacro 32 := #v[
  .noErr, .noErr, .noErr, .noErr, .noErr, .noErr, .noErr, .noErr,
  .err, .noErr, .err, .err, .err, .err, .err, .noErr,
  .noErr, .err, .noErr, .noErr, .noErr, .err, .noErr, .noErr,
  .noErr, .noErr, .noErr, .noErr, .noErr, .noErr, .noErr, .noErr]

/-- The words that the macro pushes before its jump to the common stub. -/
def IsrMacro.pushes (num : BitVec 32) : IsrMacro → List (BitVec 32)
  | .noErr => [0#32, num]
  | .err => [num]

/-- Instruction for instruction the common stub of the hardware interrupts, but
for the handler it calls. -/
def isrCommonStub : List Instr := enterCommon ++ ([.callHandler] ++ leaveCommon)

def isrStub (num : Fin 32) : List Instr :=
  (isrMacros[num].pushes (BitVec.ofNat 32 num.val)).map .pushImm ++ isrCommonStub

inductive StubName where
  | isr (num : Fin 32)
  | irq (line : Fin 16)

/-- The stub that `idt_init` installs for a vector. -/
def idtStub (vector : Fin 48) : StubName :=
  if exception : vector.val < 32 then .isr ⟨vector.val, exception⟩
  else .irq ⟨vector.val - 32, by omega⟩

def StubName.code : StubName → List Instr
  | .isr num => isrStub num
  | .irq line => irqStub line

/-- The C function at the other end of a stub. -/
def StubName.handler (isrHandler irqHandler : Cpu → Cpu) : StubName → Cpu → Cpu
  | .isr _ => isrHandler
  | .irq _ => irqHandler

/-- The vectors for which the processor pushes an error code. -/
def hasErrorCode (vector : Fin 48) : Bool := [8, 10, 11, 12, 13, 14, 17, 21].contains vector.val

def errorCodeOf (vector : Fin 48) (code : BitVec 32) : Option (BitVec 32) :=
  if hasErrorCode vector then some code else none

/-- An interrupt in ring 0, up to the first instruction of the stub. -/
def arrive (platform : Platform) (vector : Fin 48) (code : BitVec 32) (before : Cpu) : Cpu :=
  before.deliver platform (BitVec.ofNat 32 vector.val) (errorCodeOf vector code)

/-- An interrupt to the end of its stub. -/
def takeInterrupt (platform : Platform) (isrHandler irqHandler : Cpu → Cpu) (vector : Fin 48) (code : BitVec 32)
    (before : Cpu) : Option Cpu :=
  (arrive platform vector code before).run platform ((idtStub vector).handler isrHandler irqHandler)
    (idtStub vector).code

/-- What the stub of a vector pushes: a word for the missing error code, and the number. -/
def stubPushes (vector : Fin 48) : List (BitVec 32) :=
  if hasErrorCode vector then [BitVec.ofNat 32 vector.val] else [0#32, BitVec.ofNat 32 vector.val]

/-- Every stub stands in the family of its vector, and pushes its number. -/
theorem idtStub_code (vector : Fin 48) :
    (idtStub vector).code = (stubPushes vector).map .pushImm ++ (enterCommon ++ ([.callHandler] ++ leaveCommon)) := by
  have exceptions : ∀ num : Fin 32, isrMacros[num].pushes (BitVec.ofNat 32 num.val) =
      stubPushes ⟨num.val, by omega⟩ := by decide
  have lines : ∀ line : Fin 16, [0#32, irqVectors[line]] = stubPushes ⟨32 + line.val, by omega⟩ := by decide
  unfold idtStub
  split
  · rename_i exception
    exact congrArg (List.map Instr.pushImm · ++ isrCommonStub) (exceptions ⟨vector.val, exception⟩)
  · rename_i hardware
    have same := lines ⟨vector.val - 32, by omega⟩
    have place : (⟨32 + (vector.val - 32), by omega⟩ : Fin 48) = vector := Fin.ext (by simp; omega)
    rw [place] at same
    exact congrArg (List.map Instr.pushImm · ++ irqCommonStub) same

/-- The registers that neither the processor nor the pushes of a stub change. -/
structure SameRegisters (before after : Cpu) : Prop where
  eax : after.eax = before.eax
  ecx : after.ecx = before.ecx
  edx : after.edx = before.edx
  ebx : after.ebx = before.ebx
  ebp : after.ebp = before.ebp
  esi : after.esi = before.esi
  edi : after.edi = before.edi
  ds : after.ds = before.ds

/-- The words of an interrupted ring-0 code that the processor pushes. -/
theorem deliver_words (platform : Platform) (before : Cpu) (vector : BitVec 32) (errorCode : Option (BitVec 32)) :
    SameRegisters before (before.deliver platform vector errorCode) ∧
    ∃ csWord, csWord.setWidth 16 = before.cs ∧
      (before.deliver platform vector errorCode).StackHolds before.memory 0
        (errorCode.toList ++ [before.eip, csWord, before.eflags]) := by
  have start : before.StackHolds before.memory 0 [] := StackOver.empty _ _ _
  have flags := start.push (by decide) before.eflags
  obtain ⟨csWord, low, selector⟩ := flags.pushSelector (show 4 * (1 + 1) + 0 ≤ 4294967296 by decide)
    platform before.cs
  have returns := selector.push (show 4 * (2 + 1) + 0 ≤ 4294967296 by decide) before.eip
  cases errorCode with
  | none =>
    refine ⟨?_, csWord, low, returns⟩
    cases before
    exact ⟨rfl, rfl, rfl, rfl, rfl, rfl, rfl, rfl⟩
  | some code =>
    refine ⟨?_, csWord, low, returns.push (show 4 * (3 + 1) + 0 ≤ 4294967296 by decide) code⟩
    cases before
    exact ⟨rfl, rfl, rfl, rfl, rfl, rfl, rfl, rfl⟩

theorem run_pushes (platform : Platform) (handler : Cpu → Cpu) (values : List (BitVec 32)) (cpu : Cpu) :
    cpu.run platform handler (values.map .pushImm) = some (cpu.pushAll values) := by
  induction values generalizing cpu with
  | nil => rfl
  | cons value values ih => exact ih (cpu.push value)

theorem pushAll_registers (values : List (BitVec 32)) (cpu : Cpu) : SameRegisters cpu (cpu.pushAll values) := by
  rw [cpu.pushAll_eq values]
  exact ⟨rfl, rfl, rfl, rfl, rfl, rfl, rfl, rfl⟩

theorem SameRegisters.trans {first second third : Cpu} (one : SameRegisters first second)
    (two : SameRegisters second third) : SameRegisters first third :=
  ⟨two.eax.trans one.eax, two.ecx.trans one.ecx, two.edx.trans one.edx, two.ebx.trans one.ebx,
    two.ebp.trans one.ebp, two.esi.trans one.esi, two.edi.trans one.edi, two.ds.trans one.ds⟩

/-- Processor and stub together push five words in every case: with an error
code of its own or with the word that stands in for it. -/
theorem stub_words (vector : Fin 48) (code : BitVec 32) (rest : List (BitVec 32)) :
    (stubPushes vector).reverse ++ ((errorCodeOf vector code).toList ++ rest) =
      BitVec.ofNat 32 vector.val :: (errorCodeOf vector code).getD 0#32 :: rest := by
  unfold stubPushes errorCodeOf
  cases hasErrorCode vector with
  | true => rfl
  | false => rfl

/-- A structure two words above the top of the stack, in terms of stack slots. -/
theorem read_slots (cpu : Cpu) : InterruptFrame.read cpu.memory (cpu.esp + 8#32) =
    ⟨cpu.slot 2, cpu.slot 3, cpu.slot 4, cpu.slot 5, cpu.slot 6, cpu.slot 7, cpu.slot 8, cpu.slot 9,
      cpu.slot 10, cpu.slot 11, cpu.slot 12, cpu.slot 13, cpu.slot 14, cpu.slot 15, cpu.slot 16, cpu.slot 17⟩ := by
  unfold InterruptFrame.read
  simp only [BitVec.add_assoc]
  rfl

/-- The common stub completes five pushed words to a frame and passes its address. -/
theorem call_frame (platform : Platform) (handler : Cpu → Cpu) {origin : Memory 32} {cpu : Cpu}
    {intNo errCode eip csWord eflags : BitVec 32}
    (five : cpu.StackHolds origin 0 [intNo, errCode, eip, csWord, eflags]) :
    ∃ entered dsWord useresp ss, cpu.run platform handler enterCommon = some entered ∧
      dsWord.setWidth 16 = cpu.ds ∧
      (entered.push platform.returnAddress).slot 0 = platform.returnAddress ∧
      InterruptFrame.read (entered.push platform.returnAddress).memory ((entered.push platform.returnAddress).slot 1) =
        ⟨dsWord, cpu.edi, cpu.esi, cpu.ebp, cpu.esp, cpu.ebx, cpu.edx, cpu.ecx, cpu.eax, intNo, errCode, eip, csWord,
          eflags, useresp, ss⟩ := by
  obtain ⟨entered, dsWord, saved, dsLow, frame, top, -, -⟩ := enterCommon_frame platform handler five
    (show 4 * (5 + 10) + 0 ≤ 4294967296 by decide)
  have called := frame.push (show 4 * (15 + 1) + 0 ≤ 4294967296 by decide) platform.returnAddress
  have pointer : (entered.push platform.returnAddress).slot 1 = (entered.push platform.returnAddress).esp + 8#32 := by
    have argument : (entered.push platform.returnAddress).slot 1 = cpu.esp - 36 :=
      called.slot 1 (show 1 < 16 by decide)
    rw [argument]
    show cpu.esp - 36 = entered.esp - 4 + 8
    rw [top]
    bv_omega
  have word (n : Nat) (bound : n < 16) := called.slot n bound
  refine ⟨entered, dsWord, (entered.push platform.returnAddress).slot 16, (entered.push platform.returnAddress).slot 17,
    saved, dsLow, word 0 (by decide), ?_⟩
  rw [pointer, read_slots, word 2 (by decide), word 3 (by decide), word 4 (by decide), word 5 (by decide),
    word 6 (by decide), word 7 (by decide), word 8 (by decide), word 9 (by decide), word 10 (by decide),
    word 11 (by decide), word 12 (by decide), word 13 (by decide), word 14 (by decide), word 15 (by decide)]
  rfl

/-- The frame describes the interrupted code: the vector, its error code or
zero, the general registers, and the words that the processor pushed. -/
structure Describes (platform : Platform) (vector : Fin 48) (code : BitVec 32) (before : Cpu)
    (frame : InterruptFrame) : Prop where
  intNo : frame.intNo = BitVec.ofNat 32 vector.val
  errCode : frame.errCode = (errorCodeOf vector code).getD 0#32
  edi : frame.edi = before.edi
  esi : frame.esi = before.esi
  ebp : frame.ebp = before.ebp
  ebx : frame.ebx = before.ebx
  edx : frame.edx = before.edx
  ecx : frame.ecx = before.ecx
  eax : frame.eax = before.eax
  ds : frame.ds.setWidth 16 = before.ds
  eip : frame.eip = before.eip
  csLow : frame.cs.setWidth 16 = before.cs
  cs : frame.cs = (arrive platform vector code before).slot ((errorCodeOf vector code).toList.length + 1)
  eflags : frame.eflags = before.eflags

/-- From the interrupt to the call: the handler starts with a frame pointer
behind its return address, and the frame is that of the interrupted code. -/
theorem stub_frame (platform : Platform) (handler : Cpu → Cpu) (vector : Fin 48) (code : BitVec 32) (before : Cpu) :
    ∃ entered, (arrive platform vector code before).run platform handler
        ((stubPushes vector).map .pushImm ++ enterCommon) = some entered ∧
      (entered.push platform.returnAddress).slot 0 = platform.returnAddress ∧
      Describes platform vector code before (InterruptFrame.read (entered.push platform.returnAddress).memory
        ((entered.push platform.returnAddress).slot 1)) := by
  obtain ⟨same, csWord, csLow, arrived⟩ :=
    deliver_words platform before (BitVec.ofNat 32 vector.val) (errorCodeOf vector code)
  have pushes : (stubPushes vector).length + (errorCodeOf vector code).toList.length = 2 := by
    have counted := congrArg List.length (stub_words vector code [])
    simpa using counted
  have room : 4 * (((errorCodeOf vector code).toList ++ [before.eip, csWord, before.eflags]).length +
      (stubPushes vector).length) + 0 ≤ 4294967296 := by
    simp only [List.length_append, List.length_cons, List.length_nil]
    omega
  have five := arrived.pushAll (stubPushes vector) room
  rw [stub_words] at five
  have kept := same.trans (pushAll_registers (stubPushes vector) _)
  obtain ⟨entered, dsWord, useresp, ss, saved, dsLow, returns, frame⟩ := call_frame platform handler five
  have run : (arrive platform vector code before).run platform handler
      ((stubPushes vector).map .pushImm ++ enterCommon) = some entered := by
    rw [Cpu.run_append, run_pushes, Option.bind_some]
    exact saved
  have selector : (arrive platform vector code before).slot ((errorCodeOf vector code).toList.length + 1) = csWord := by
    have bound : (errorCodeOf vector code).toList.length + 1 <
        ((errorCodeOf vector code).toList ++ [before.eip, csWord, before.eflags]).length := by simp
    refine (arrived.slot _ bound).trans ?_
    rw [List.getElem_append_right (Nat.le_add_right _ _)]
    simp
  refine ⟨entered, run, returns, ?_⟩
  rw [frame]
  exact ⟨rfl, rfl, kept.edi, kept.esi, kept.ebp, kept.ebx, kept.edx, kept.ecx, kept.eax, dsLow.trans kept.ds,
    rfl, csLow, selector.symm, rfl⟩

/-- For every vector and every interrupted ring-0 state, the C handler of the
vector is called with the address of a frame that describes that state, and what
follows is its return and the rest of the stub. -/
theorem handler_sees_frame (platform : Platform) (isrHandler irqHandler : Cpu → Cpu) (vector : Fin 48)
    (code : BitVec 32) (before : Cpu) :
    ∃ entry : Cpu, takeInterrupt platform isrHandler irqHandler vector code before =
        (if ((if vector.val < 32 then isrHandler else irqHandler) entry).eip = platform.returnAddress
          then ((if vector.val < 32 then isrHandler else irqHandler) entry).run platform
            (if vector.val < 32 then isrHandler else irqHandler) leaveCommon
          else none) ∧
      entry.slot 0 = platform.returnAddress ∧
      Describes platform vector code before (InterruptFrame.read entry.memory (entry.slot 1)) := by
  have called : (idtStub vector).handler isrHandler irqHandler =
      if vector.val < 32 then isrHandler else irqHandler := by
    unfold idtStub
    split
    · rfl
    · rfl
  unfold takeInterrupt
  rw [idtStub_code, ← called, ← List.append_assoc]
  generalize (idtStub vector).handler isrHandler irqHandler = handler
  obtain ⟨entered, run, returns, described⟩ := stub_frame platform handler vector code before
  refine ⟨entered.push platform.returnAddress, ?_, returns, described⟩
  have call : entered.run platform handler [.callHandler] =
      (if (handler (entered.push platform.returnAddress)).eip = platform.returnAddress
        then some (handler (entered.push platform.returnAddress)) else none).bind some := rfl
  rw [Cpu.run_append, run, Option.bind_some, Cpu.run_append, call, Option.bind_fun_some]
  by_cases back : (handler (entered.push platform.returnAddress)).eip = platform.returnAddress
  · rw [if_pos back, if_pos back, Option.bind_some]
  · rw [if_neg back, if_neg back, Option.bind_none]

end AstraOS.Interrupts
