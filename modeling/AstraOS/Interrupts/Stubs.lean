import AstraOS.Interrupts.Machine

/-! The assembly stubs of the hardware interrupts, from the interrupt to the
`iret`. -/

namespace AstraOS.Interrupts
open AstraOS.Foundation

/-- The second argument of each `IRQ` line of the table. -/
def irqVectors : Vector (BitVec 32) 16 := #v[32, 33, 34, 35, 36, 37, 38, 39, 40, 41, 42, 43, 44, 45, 46, 47]

/-- The `IRQ` macro up to its jump, which goes on with the common stub. -/
def irqMacro (vector : BitVec 32) : List Instr := [.pushImm 0#32, .pushImm vector]

def loadKernelData : List Instr :=
  [.movAxImm 0x10#16, .movSegAx .ds, .movSegAx .es, .movSegAx .fs, .movSegAx .gs]

/-- The common stubs up to the call of the C handler. -/
def enterCommon : List Instr := [.pusha, .pushDs] ++ (loadKernelData ++ [.pushEsp])

def reloadData : List Instr := [.movAxDs, .movSegAx .es, .movSegAx .fs, .movSegAx .gs]

/-- The common stubs from the return of the C handler on. -/
def leaveCommon : List Instr := [.addEsp 4#32, .popDs] ++ (reloadData ++ [.popa, .addEsp 8#32, .iret])

def irqCommonStub : List Instr := enterCommon ++ ([.callHandler] ++ leaveCommon)

def irqStub (line : Fin 16) : List Instr := irqMacro irqVectors[line] ++ irqCommonStub

/-- A hardware interrupt on a line, to the end of its stub. -/
def takeIrq (platform : Platform) (irqHandler : Cpu → Cpu) (line : Fin 16) (cpu : Cpu) : Option Cpu :=
  (cpu.deliver platform irqVectors[line] none).run platform irqHandler (irqStub line)

/-- The cdecl convention at one call of a handler with one argument: on entry the
return address and the argument are on top of the stack, and the `extent` bytes
behind them are the caller's. The system flag NT is left alone. -/
structure Cdecl (extent : Nat) (handler : Cpu → Cpu) (cpu : Cpu) : Prop where
  eip : (handler cpu).eip = cpu.slot 0
  esp : (handler cpu).esp = cpu.esp + 4
  ebx : (handler cpu).ebx = cpu.ebx
  esi : (handler cpu).esi = cpu.esi
  edi : (handler cpu).edi = cpu.edi
  ebp : (handler cpu).ebp = cpu.ebp
  cs : (handler cpu).cs = cpu.cs
  ss : (handler cpu).ss = cpu.ss
  ds : (handler cpu).ds = cpu.ds
  es : (handler cpu).es = cpu.es
  fs : (handler cpu).fs = cpu.fs
  gs : (handler cpu).gs = cpu.gs
  nested : (handler cpu).eflags.getLsbD nestedTask = cpu.eflags.getLsbD nestedTask
  memory : Agree extent (cpu.esp + 8) cpu.memory (handler cpu).memory

/-- Kernel mode: privilege level 0, not in virtual mode. -/
structure Cpu.Ring0 (cpu : Cpu) : Prop where
  privilege : cpu.cs &&& 3#16 = 0#16
  protectedMode : cpu.eflags.getLsbD virtualMode = false

/-- The data segment registers are equal, as `gdt_init` leaves them. -/
structure Cpu.SameSegments (cpu : Cpu) : Prop where
  es : cpu.es = cpu.ds
  fs : cpu.fs = cpu.ds
  gs : cpu.gs = cpu.ds

/-- Everything the interrupted code can see is as before, with the `height`
bytes of its stack. -/
structure Transparent (before after : Cpu) (height : Nat) : Prop where
  eax : after.eax = before.eax
  ecx : after.ecx = before.ecx
  edx : after.edx = before.edx
  ebx : after.ebx = before.ebx
  esp : after.esp = before.esp
  ebp : after.ebp = before.ebp
  esi : after.esi = before.esi
  edi : after.edi = before.edi
  ds : after.ds = before.ds
  es : after.es = before.es
  fs : after.fs = before.fs
  gs : after.gs = before.gs
  ss : after.ss = before.ss
  eip : after.eip = before.eip
  cs : after.cs = before.cs
  eflags : after.eflags = before.eflags
  stack : Agree height before.esp before.memory after.memory

section
variable (platform : Platform) (handler : Cpu → Cpu) {origin : Memory 32} {height : Nat} {words : List (BitVec 32)}

theorem Cpu.run_append (front back : List Instr) (cpu : Cpu) :
    cpu.run platform handler (front ++ back) =
      (cpu.run platform handler front).bind (fun middle => middle.run platform handler back) :=
  List.foldlM_append

/-- The interrupted processor behind the macro, with five words more on its stack. -/
def Cpu.interrupted (platform : Platform) (vector : BitVec 32) (memory : Memory 32) (before : Cpu) : Cpu :=
  { before with
    memory
    esp := before.esp - 20
    cs := 0x08#16
    eip := platform.stubAddress vector
    eflags := gateFlags before.eflags }

theorem deliver_stack (before : Cpu) (vector : BitVec 32) (room : 20 + height ≤ 4294967296) :
    ∃ memory csWord, (before.deliver platform vector none).run platform handler (irqMacro vector) =
        some (before.interrupted platform vector memory) ∧
      csWord.setWidth 16 = before.cs ∧
      (before.interrupted platform vector memory).StackHolds before.memory height
        [vector, 0#32, before.eip, csWord, before.eflags] := by
  have start : before.StackHolds before.memory height [] := StackOver.empty _ _ _
  have flags := start.push (by simp only [List.length_nil]; omega) before.eflags
  obtain ⟨csWord, low, selector⟩ := flags.pushSelector (by simp only [List.length_cons, List.length_nil]; omega)
    platform before.cs
  have saved := selector.pushAll [before.eip, 0#32, vector] (by simp only [List.length_cons, List.length_nil]; omega)
  have place : before.esp - 4 - 4 - 4 - 4 - 4 = before.esp - 20 := by
    simp only [BitVec.sub_sub]
    rfl
  unfold Cpu.interrupted
  rw [← place]
  refine ⟨_, csWord, ?_, low, saved⟩
  cases before
  rfl

theorem loadKernelData_effect (cpu : Cpu) :
    ∃ loaded, cpu.run platform handler loadKernelData = some loaded ∧ loaded.memory = cpu.memory ∧
      loaded.esp = cpu.esp ∧ loaded.eflags = cpu.eflags ∧ loaded.ss = cpu.ss :=
  ⟨_, rfl, rfl, rfl, rfl, rfl⟩

theorem saveRegisters_effect {cpu : Cpu} (held : cpu.StackHolds origin height words)
    (room : 4 * (words.length + 9) + height ≤ 4294967296) :
    ∃ saved dsWord, cpu.run platform handler [.pusha, .pushDs] = some saved ∧ dsWord.setWidth 16 = cpu.ds ∧
      saved.StackHolds origin height (dsWord :: cpu.edi :: cpu.esi :: cpu.ebp :: cpu.esp ::
        cpu.ebx :: cpu.edx :: cpu.ecx :: cpu.eax :: words) ∧
      saved.esp = cpu.esp - 36 ∧ saved.eflags = cpu.eflags ∧ saved.ss = cpu.ss := by
  have registers := held.pushAll [cpu.eax, cpu.ecx, cpu.edx, cpu.ebx, cpu.esp, cpu.ebp, cpu.esi, cpu.edi]
    (by simp only [List.length_cons, List.length_nil]; omega)
  have same := cpu.pushAll_eq [cpu.eax, cpu.ecx, cpu.edx, cpu.ebx, cpu.esp, cpu.ebp, cpu.esi, cpu.edi]
  have run : cpu.run platform handler [.pusha, .pushDs] = some (Cpu.pushSelector platform
      (cpu.pushAll [cpu.eax, cpu.ecx, cpu.edx, cpu.ebx, cpu.esp, cpu.ebp, cpu.esi, cpu.edi]).ds
      (cpu.pushAll [cpu.eax, cpu.ecx, cpu.edx, cpu.ebx, cpu.esp, cpu.ebp, cpu.esi, cpu.edi])) := rfl
  generalize cpu.pushAll [cpu.eax, cpu.ecx, cpu.edx, cpu.ebx, cpu.esp, cpu.ebp, cpu.esi, cpu.edi] = pushed
    at registers same run
  obtain ⟨dsWord, low, segment⟩ := registers.pushSelector
    (by simp only [List.length_append, List.length_reverse, List.length_cons, List.length_nil]; omega) platform pushed.ds
  have ds : pushed.ds = cpu.ds := by rw [same]
  have eflags : pushed.eflags = cpu.eflags := by rw [same]
  have ss : pushed.ss = cpu.ss := by rw [same]
  have top : pushed.esp = cpu.esp - 32 := by
    rw [same]
    rfl
  refine ⟨_, dsWord, run, low.trans ds, segment, ?_, eflags, ss⟩
  show pushed.esp - 4 = cpu.esp - 36
  rw [top, BitVec.sub_sub]
  rfl

/-- The common stub saves the registers and passes a pointer to what it saved. -/
theorem enterCommon_frame {cpu : Cpu} (held : cpu.StackHolds origin height words)
    (room : 4 * (words.length + 10) + height ≤ 4294967296) :
    ∃ entered dsWord, cpu.run platform handler enterCommon = some entered ∧ dsWord.setWidth 16 = cpu.ds ∧
      entered.StackHolds origin height ((cpu.esp - 36) :: dsWord :: cpu.edi :: cpu.esi :: cpu.ebp :: cpu.esp ::
        cpu.ebx :: cpu.edx :: cpu.ecx :: cpu.eax :: words) ∧
      entered.esp = cpu.esp - 40 ∧ entered.eflags = cpu.eflags ∧ entered.ss = cpu.ss := by
  obtain ⟨saved, dsWord, first, low, frame, top, flags, segment⟩ :=
    saveRegisters_effect platform handler held (by omega)
  obtain ⟨loaded, second, memory, esp, eflags, ss⟩ := loadKernelData_effect platform handler saved
  have same : loaded.StackHolds origin height (dsWord :: cpu.edi :: cpu.esi :: cpu.ebp :: cpu.esp ::
      cpu.ebx :: cpu.edx :: cpu.ecx :: cpu.eax :: words) := by
    unfold Cpu.StackHolds
    rw [memory, esp]
    exact frame
  have pointer := same.push (by simp only [List.length_cons]; omega) loaded.esp
  refine ⟨loaded.push loaded.esp, dsWord, ?_, low, ?_, ?_, eflags.trans flags, ss.trans segment⟩
  · rw [enterCommon, Cpu.run_append, first, Option.bind_some, Cpu.run_append, second]
    rfl
  · rw [← top, ← esp]
    exact pointer
  · show loaded.esp - 4 = cpu.esp - 40
    rw [esp, top, BitVec.sub_sub]
    rfl

/-- A handler that keeps to the convention returns with the frame untouched. -/
theorem callHandler_frame {handler : Cpu → Cpu} {cpu : Cpu} {pointer : BitVec 32} {frame : List (BitVec 32)}
    (cdecl : Cdecl (4 * frame.length + height) handler (cpu.push platform.returnAddress))
    (held : cpu.StackHolds origin height (pointer :: frame))
    (room : 4 * (frame.length + 2) + height ≤ 4294967296) :
    ∃ returned, cpu.run platform handler [.callHandler] = some returned ∧ returned.esp = cpu.esp ∧
      StackOver origin height returned.memory (cpu.esp + 4) frame ∧ returned.ss = cpu.ss ∧
      returned.eflags.getLsbD nestedTask = cpu.eflags.getLsbD nestedTask := by
  have called := held.push (by rw [List.length_cons]; omega) platform.returnAddress
  have address : (cpu.push platform.returnAddress).slot 0 = platform.returnAddress :=
    called.slot 0 (Nat.zero_lt_succ _)
  have back : (handler (cpu.push platform.returnAddress)).eip = platform.returnAddress :=
    cdecl.eip.trans address
  have behind : (cpu.push platform.returnAddress).esp + 8 = cpu.esp + 4 := by
    show cpu.esp - 4 + 8 = cpu.esp + 4
    bv_omega
  refine ⟨handler (cpu.push platform.returnAddress), ?_, ?_, ?_, ?_, cdecl.nested⟩
  · show (if (handler (cpu.push platform.returnAddress)).eip = platform.returnAddress
      then some (handler (cpu.push platform.returnAddress)) else none).bind some = _
    rw [if_pos back]
    rfl
  · exact cdecl.esp.trans (BitVec.sub_add_cancel cpu.esp 4)
  · have kept := cdecl.memory
    have frame := (StackOver.pop (StackOver.pop called).2).2
    have place : (cpu.push platform.returnAddress).esp + 4 + 4 = cpu.esp + 4 :=
      congrArg (· + 4) (BitVec.sub_add_cancel cpu.esp 4)
    rw [behind] at kept
    rw [place] at frame
    exact frame.agree kept (by omega)
  · exact cdecl.ss

theorem reloadData_effect (cpu : Cpu) :
    cpu.run platform handler reloadData =
      some { cpu.setAx cpu.ds with es := cpu.ds, fs := cpu.ds, gs := cpu.ds } := by
  show some (Cpu.setSegment .gs (cpu.setAx cpu.ds).ax (Cpu.setSegment .fs (cpu.setAx cpu.ds).ax
    (Cpu.setSegment .es (cpu.setAx cpu.ds).ax (cpu.setAx cpu.ds)))) = _
  rw [Cpu.setAx_ax]
  cases cpu
  rfl

/-- The `iret` that follows the general registers and the two discarded words. -/
theorem Cpu.iret_back {cpu : Cpu} {eip csWord eflags : BitVec 32}
    (held : cpu.StackHolds origin height [eip, csWord, eflags]) (nested : cpu.eflags.getLsbD nestedTask = false)
    (flags : eflags.getLsbD virtualMode = false) (ring : csWord.setWidth 16 &&& 3#16 = 0#16) :
    cpu.iret = some { cpu with eip, eflags, cs := csWord.setWidth 16, esp := cpu.esp + 12 } := by
  have first : cpu.slot 0 = eip := held.slot 0 (show 0 < 3 by decide)
  have second : cpu.slot 1 = csWord := held.slot 1 (show 1 < 3 by decide)
  have third : cpu.slot 2 = eflags := held.slot 2 (show 2 < 3 by decide)
  unfold Cpu.iret
  simp only [first, second, third, nested, flags, ring]
  rfl

theorem popFrame_restores {cpu : Cpu} {edi esi ebp dummy ebx edx ecx eax vector code eip csWord eflags : BitVec 32}
    (held : cpu.StackHolds origin height
      [edi, esi, ebp, dummy, ebx, edx, ecx, eax, vector, code, eip, csWord, eflags])
    (nested : cpu.eflags.getLsbD nestedTask = false) (flags : eflags.getLsbD virtualMode = false)
    (ring : csWord.setWidth 16 &&& 3#16 = 0#16) :
    cpu.run platform handler [.popa, .addEsp 8#32, .iret] = some
      { cpu with eax, ecx, edx, ebx, ebp, esi, edi, eip, eflags, cs := csWord.setWidth 16, esp := cpu.esp + 52 } := by
  have place : cpu.esp + 32 + 8 = cpu.esp + BitVec.ofNat 32 (4 * 10) := by
    rw [BitVec.add_assoc]
    rfl
  have rest := StackOver.drop held 10 (show 10 ≤ 13 by decide)
  rw [← place] at rest
  have slot0 : cpu.slot 0 = edi := held.slot 0 (show 0 < 13 by decide)
  have slot1 : cpu.slot 1 = esi := held.slot 1 (show 1 < 13 by decide)
  have slot2 : cpu.slot 2 = ebp := held.slot 2 (show 2 < 13 by decide)
  have slot4 : cpu.slot 4 = ebx := held.slot 4 (show 4 < 13 by decide)
  have slot5 : cpu.slot 5 = edx := held.slot 5 (show 5 < 13 by decide)
  have slot6 : cpu.slot 6 = ecx := held.slot 6 (show 6 < 13 by decide)
  have slot7 : cpu.slot 7 = eax := held.slot 7 (show 7 < 13 by decide)
  have popped : cpu.run platform handler [.popa, .addEsp 8#32, .iret] = (Cpu.iret
      ⟨cpu.slot 7, cpu.slot 6, cpu.slot 5, cpu.slot 4, cpu.esp + 32 + 8, cpu.slot 2, cpu.slot 1, cpu.slot 0,
        cpu.cs, cpu.ds, cpu.es, cpu.fs, cpu.gs, cpu.ss, cpu.eip, addFlags (cpu.esp + 32) 8 cpu.eflags,
        cpu.memory⟩).bind some := by
    cases cpu
    rfl
  have discarded : (addFlags (cpu.esp + 32) 8 cpu.eflags).getLsbD nestedTask = false :=
    (addFlags_nestedTask _ _ _).trans nested
  have top : cpu.esp + 32 + 8 + 12 = cpu.esp + 52 := by
    rw [BitVec.add_assoc, BitVec.add_assoc]
    rfl
  rw [popped, Option.bind_fun_some, slot0, slot1, slot2, slot4, slot5, slot6, slot7, ← top]
  exact Cpu.iret_back rest discarded flags ring

/-- Behind the return of the handler, the common stub loads every register from
the frame and returns to the interrupted code. -/
theorem leaveCommon_restores {returned : Cpu}
    {dsWord edi esi ebp dummy ebx edx ecx eax vector code eip csWord eflags : BitVec 32}
    (held : StackOver origin height returned.memory (returned.esp + 4)
      [dsWord, edi, esi, ebp, dummy, ebx, edx, ecx, eax, vector, code, eip, csWord, eflags])
    (nested : returned.eflags.getLsbD nestedTask = false) (flags : eflags.getLsbD virtualMode = false)
    (ring : csWord.setWidth 16 &&& 3#16 = 0#16) :
    returned.run platform handler leaveCommon = some
      ⟨eax, ecx, edx, ebx, returned.esp + 60, ebp, esi, edi, csWord.setWidth 16, dsWord.setWidth 16,
        dsWord.setWidth 16, dsWord.setWidth 16, dsWord.setWidth 16, returned.ss, eip, eflags, returned.memory⟩ := by
  obtain ⟨selector, frame⟩ := held.pop
  have first : returned.run platform handler [.addEsp 4#32, .popDs] = some { returned with
      esp := returned.esp + 4 + 4
      eflags := addFlags returned.esp 4 returned.eflags
      ds := (load32 returned.memory (returned.esp + 4 + BitVec.ofNat 32 (4 * 0))).setWidth 16 } := by
    cases returned
    rfl
  rw [Nat.mul_zero, BitVec.add_zero, selector] at first
  have discarded : (addFlags returned.esp 4 returned.eflags).getLsbD nestedTask = false :=
    (addFlags_nestedTask _ _ _).trans nested
  have top : returned.esp + 4 + 4 + 52 = returned.esp + 60 := by
    rw [BitVec.add_assoc, BitVec.add_assoc]
    rfl
  rw [leaveCommon, Cpu.run_append, first, Option.bind_some, Cpu.run_append, reloadData_effect, Option.bind_some, ← top]
  exact popFrame_restores platform handler frame discarded flags ring

/-- Hardware interrupts are transparent: on every line, from every ring-0 state
and with every handler that keeps to the convention when it is called below the
interrupted stack, the stub returns to the interrupted code with its registers,
its flags and the `height` bytes of its stack as they were. -/
theorem irq_transparent (line : Fin 16) (before : Cpu) (ring : before.Ring0) (same : before.SameSegments)
    (height : Nat) (room : 64 + height ≤ 2 ^ 32) (irqHandler : Cpu → Cpu)
    (cdecl : ∀ cpu, cpu.esp = before.esp - 64 → Cdecl (56 + height) irqHandler cpu) :
    ∃ after, takeIrq platform irqHandler line before = some after ∧ Transparent before after height := by
  have space : 64 + height ≤ 4294967296 := room
  obtain ⟨memory, csWord, delivered, csLow, five⟩ :=
    deliver_stack platform irqHandler before irqVectors[line] (show 20 + height ≤ 4294967296 by omega)
  obtain ⟨framed, dsWord, saved, dsLow, fifteen, top, eflags, ss⟩ :=
    enterCommon_frame platform irqHandler five (show 4 * (5 + 10) + height ≤ 4294967296 by omega)
  have entry : (framed.push platform.returnAddress).esp = before.esp - 64 := by
    show framed.esp - 4 = before.esp - 64
    rw [top]
    show before.esp - 20 - 40 - 4 = before.esp - 64
    rw [BitVec.sub_sub, BitVec.sub_sub]
    rfl
  obtain ⟨returned, called, esp, frame, ss', kept⟩ :=
    callHandler_frame platform (cdecl _ entry) fifteen (show 4 * (14 + 2) + height ≤ 4294967296 by omega)
  have nested : returned.eflags.getLsbD nestedTask = false := by
    rw [kept, eflags]
    exact gateFlags_nestedTask before.eflags
  have bottom : framed.esp + 60 = before.esp := by
    rw [top]
    show before.esp - 20 - 40 + 60 = before.esp
    rw [BitVec.sub_sub]
    exact BitVec.sub_add_cancel before.esp 60
  have untouched : Agree height before.esp before.memory returned.memory := by
    have place : framed.esp + 4 + BitVec.ofNat 32 (4 * 14) = framed.esp + 60 := by
      rw [BitVec.add_assoc]
      rfl
    rw [← bottom, ← place]
    exact frame.kept
  rw [← esp] at frame bottom
  have left := leaveCommon_restores platform irqHandler frame nested ring.protectedMode (csLow ▸ ring.privilege)
  have whole : takeIrq platform irqHandler line before = returned.run platform irqHandler leaveCommon := by
    rw [takeIrq, irqStub, irqCommonStub, Cpu.run_append, delivered, Option.bind_some, Cpu.run_append, saved,
      Option.bind_some, Cpu.run_append, called, Option.bind_some]
  have ds : dsWord.setWidth 16 = before.ds := dsLow
  refine ⟨_, whole.trans left, rfl, rfl, rfl, rfl, bottom, rfl, rfl, rfl, ds, ds.trans same.es.symm,
    ds.trans same.fs.symm, ds.trans same.gs.symm, ss'.trans ss, rfl, csLow, rfl, untouched⟩

end

/-- A handler that returns at once, with its scratch registers and its argument overwritten. -/
def scratchHandler (cpu : Cpu) : Cpu :=
  { cpu with
    eax := 0#32
    ecx := 0#32
    edx := 0#32
    eip := cpu.slot 0
    esp := cpu.esp + 4
    memory := store32 cpu.memory (cpu.esp + 4) 0#32 }

theorem scratchHandler_cdecl (cpu : Cpu) (room : extent + 4 ≤ 4294967296) : Cdecl extent scratchHandler cpu := by
  have slot : Agree extent (cpu.esp + 4 + 4) cpu.memory (scratchHandler cpu).memory :=
    writeBytes_agree (by decide) room
  rw [BitVec.add_assoc] at slot
  exact ⟨rfl, rfl, rfl, rfl, rfl, rfl, rfl, rfl, rfl, rfl, rfl, rfl, rfl, slot⟩

/-- Kernel code at 0x100000 with its stack at 0x9000, interrupts enabled. -/
def kernelCpu : Cpu :=
  ⟨1#32, 2#32, 3#32, 4#32, 0x9000#32, 5#32, 6#32, 7#32, 0x08#16, 0x10#16, 0x10#16, 0x10#16, 0x10#16, 0x10#16,
    0x100000#32, 0x202#32, fun _ => 0xAA#8⟩

/-- With the whole of memory above the stack pointer as the stack. -/
theorem irq_transparent_keyboard :
    ∃ after, takeIrq ⟨true, fun _ => 0x101000#32, 0x102000#32⟩ scratchHandler 1 kernelCpu = some after ∧
      Transparent kernelCpu after (2 ^ 32 - 0x9000) ∧
      ∀ address, kernelCpu.esp ≤ address → after.memory address = kernelCpu.memory address := by
  obtain ⟨after, taken, restored⟩ := irq_transparent ⟨true, fun _ => 0x101000#32, 0x102000#32⟩ 1 kernelCpu
    ⟨by decide, by decide⟩ ⟨rfl, rfl, rfl⟩ (2 ^ 32 - 0x9000) (by decide) scratchHandler
    (fun cpu _ => scratchHandler_cdecl cpu (by decide))
  exact ⟨after, taken, restored, restored.stack.above⟩

end AstraOS.Interrupts
