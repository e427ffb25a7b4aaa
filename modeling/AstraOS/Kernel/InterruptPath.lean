import AstraOS.Interrupts.Dispatch
import AstraOS.Interrupts.Masks
import AstraOS.Kernel.DescriptorTables

/-! The way of a hardware interrupt: the chips name a vector, the tables lead to
a stub, the stub builds a frame, and `irq_handler` serves the line. -/

namespace AstraOS.Kernel
open AstraOS.Foundation AstraOS.Interrupts

/-- The vector that the chips put on the bus for a line. -/
def requestVector (pics : Pics) (line : Fin 16) : BitVec 8 :=
  if line.val < 8 then pics.master.offset + BitVec.ofNat 8 line.val
  else pics.slave.offset + BitVec.ofNat 8 (line.val - 8)

/-- `interrupts_init`, with the gate table at `address`. -/
def interruptsInit (stub : StubName → BitVec 32) (address : BitVec 32) (pics : Pics) (tables : Descriptors) :
    Option (Pics × Descriptors) := do
  let pics := picInit pics
  let tables ← idtInit stub address tables
  some (picClearMask 2#8 pics, tables)

/-- Chips as `interrupts_init` leaves them: remapped, ready, nothing in service. -/
structure Wired (pics : Pics) : Prop where
  master : pics.master.offset = picMasterOffset
  slave : pics.slave.offset = picSlaveOffset
  ready : pics.Ready
  idle : pics.Acknowledged

/-- Everything but the request and in-service registers. -/
structure SameWiring (before after : Pics) : Prop where
  masterOffset : after.master.offset = before.master.offset
  slaveOffset : after.slave.offset = before.slave.offset
  masterPhase : after.master.phase = before.master.phase
  slavePhase : after.slave.phase = before.slave.phase
  masterMask : after.master.imr = before.master.imr
  slaveMask : after.slave.imr = before.slave.imr

theorem SameWiring.trans {first second third : Pics} (one : SameWiring first second) (two : SameWiring second third) :
    SameWiring first third :=
  ⟨two.masterOffset.trans one.masterOffset, two.slaveOffset.trans one.slaveOffset,
    two.masterPhase.trans one.masterPhase, two.slavePhase.trans one.slavePhase,
    two.masterMask.trans one.masterMask, two.slaveMask.trans one.slaveMask⟩

theorem SameWiring.wired {before after : Pics} (same : SameWiring before after) (wired : Wired before)
    (idle : after.Acknowledged) : Wired after :=
  ⟨same.masterOffset.trans wired.master, same.slaveOffset.trans wired.slave,
    ⟨same.masterPhase.trans wired.ready.1, same.slavePhase.trans wired.ready.2⟩, idle⟩

theorem SameWiring.masked {before after : Pics} (same : SameWiring before after) (line : Fin 16) :
    after.masked line = before.masked line := by
  rw [Pics.masked, same.masterMask, same.slaveMask]
  rfl

theorem sameWiring_deliver (line : Fin 16) (pics : Pics) : SameWiring pics (pics.deliver line) := by
  unfold Pics.deliver
  split
  · exact ⟨rfl, rfl, rfl, rfl, rfl, rfl⟩
  · exact ⟨rfl, rfl, rfl, rfl, rfl, rfl⟩

theorem sameWiring_eoi (irq : BitVec 8) (pics : Pics) : SameWiring pics (picSendEoi irq pics) := by
  unfold picSendEoi
  split
  · exact ⟨rfl, rfl, rfl, rfl, rfl, rfl⟩
  · exact ⟨rfl, rfl, rfl, rfl, rfl, rfl⟩

theorem sameWiring_readIsr (pics : Pics) : SameWiring pics (picReadIsr pics).2 := ⟨rfl, rfl, rfl, rfl, rfl, rfl⟩

/-- The registered routines leave the chips' configuration alone. -/
def IrqState.Tame (state : IrqState) : Prop :=
  ∀ (irq : BitVec 8) (routine : IrqRoutine), state.handler irq = some routine → ∀ pics, SameWiring pics (routine.body pics)

theorem sameWiring_dispatch {state : IrqState} (tame : IrqState.Tame state) (irq : BitVec 8) :
    SameWiring state.pics (irqDispatch irq state).2.pics := by
  unfold irqDispatch
  cases registered : state.handler irq with
  | none => exact sameWiring_eoi irq state.pics
  | some routine => exact (tame irq routine registered state.pics).trans (sameWiring_eoi irq _)

/-- Nothing that `irq_handler` does reconfigures a chip. -/
theorem sameWiring_irqHandler {state : IrqState} (tame : IrqState.Tame state) (intNo : BitVec 32) :
    SameWiring state.pics (irqHandler intNo state).2.pics := by
  have read := sameWiring_readIsr state.pics
  have behind : IrqState.Tame { state with pics := (picReadIsr state.pics).2 } := tame
  unfold irqHandler
  simp only []
  split
  · split
    · exact read
    · exact read.trans (sameWiring_dispatch behind _)
  · split
    · split
      · exact read.trans (sameWiring_eoi 2#8 _)
      · exact read.trans (sameWiring_dispatch behind _)
    · exact sameWiring_dispatch tame _

/-- The vector of a line behind the exceptions. -/
def lineVector (line : Fin 16) : Fin 48 := ⟨32 + line.val, by omega⟩

theorem idtStub_line (line : Fin 16) : idtStub (lineVector line) = .irq line := by
  have hardware : ¬ (lineVector line).val < 32 := Nat.not_lt.mpr (Nat.le_add_right 32 line.val)
  rw [idtStub, dif_neg hardware]
  exact congrArg StubName.irq (Fin.ext (Nat.add_sub_cancel_left 32 line.val))

theorem Wired.vector {pics : Pics} (wired : Wired pics) (line : Fin 16) :
    requestVector pics line = BitVec.ofNat 8 (lineVector line).val := by
  have table : ∀ line : Fin 16, (if line.val < 8 then picMasterOffset + BitVec.ofNat 8 line.val
      else picSlaveOffset + BitVec.ofNat 8 (line.val - 8)) = BitVec.ofNat 8 (lineVector line).val := by decide
  rw [requestVector, wired.master, wired.slave]
  exact table line

/-- A request on a line, all the way: the tables name the line's stub, the stub
calls `irq_handler` on a frame of the interrupted code, and `irq_handler` calls
the line's routine, if it has one, and acknowledges the line. -/
structure LineServed (stub : StubName → BitVec 32) (tables : Descriptors) (memory : Memory 32) (chips : Pics)
    (handlers : Vector (Option IrqRoutine) numIrqs) (platform : Platform) (handler : Cpu → Cpu) (line : Fin 16)
    (before : Cpu) : Prop where
  target : interruptTarget memory tables.gdtr tables.idtr (requestVector chips line) =
    some ⟨0x08#16, stub (.irq line), stub (.irq line)⟩
  code : irqStub line = (stubPushes (lineVector line)).map .pushImm ++ enterCommon ++ (.callHandler :: leaveCommon)
  served : ∃ entered frame after, (arrive platform (lineVector line) 0#32 before).run platform handler
      ((stubPushes (lineVector line)).map .pushImm ++ enterCommon) = some entered ∧
    frame = InterruptFrame.read (entered.push platform.returnAddress).memory
      ((entered.push platform.returnAddress).slot 1) ∧
    Describes platform (lineVector line) 0#32 before frame ∧
    irqHandler frame.intNo ⟨chips.deliver line, handlers⟩ = (handlers[line.val]?.join.toList, after) ∧
    after.irqHandlers = handlers ∧ after.pics.Acknowledged

theorem Wired.line_served {stub : StubName → BitVec 32} {tables : Descriptors} {memory : Memory 32} {chips : Pics}
    (wired : Wired chips) (ready : TablesReady stub tables memory) (handlers : Vector (Option IrqRoutine) numIrqs)
    (platform : Platform) (handler : Cpu → Cpu) (line : Fin 16) (before : Cpu) :
    LineServed stub tables memory chips handlers platform handler line before := by
  have found := ready.stubs (lineVector line)
  rw [idtStub_line, ← wired.vector line] at found
  have code := idtStub_code (lineVector line)
  rw [idtStub_line] at code
  obtain ⟨entered, run, -, described⟩ := stub_frame platform handler (lineVector line) 0#32 before
  have idle : (IrqState.mk chips handlers).pics.Acknowledged := wired.idle
  obtain ⟨calls, kept, acknowledged⟩ := served_real idle line
  have number : ∀ line : Fin 16, BitVec.ofNat 32 (lineVector line).val = 0x20#32 + BitVec.ofNat 32 line.val := by decide
  refine ⟨found, code.trans (List.append_assoc _ _ _).symm, entered, _, _, run, rfl, described, ?_, kept, acknowledged⟩
  rw [described.intNo, number]
  exact Prod.ext calls rfl

/-- `gdt_init` and `interrupts_init`, from any chips with nothing in service: the
firmware's masks stay but for the cascade line, which is opened, and from then on
every request takes its way, as long as the chips stay wired. -/
theorem interrupt_path (stub : StubName → BitVec 32) (gdtAddress idtAddress : BitVec 32) (pics : Pics)
    (tables : Descriptors) (idle : pics.Acknowledged)
    (zero : ∀ j, 48 ≤ j → j < 256 → tables.idt[j]? = some ⟨0#16, 0#16, 0#8, 0#8, 0#16⟩) :
    ∃ chips ready, (gdtInit gdtAddress tables).bind (interruptsInit stub idtAddress pics) = some (chips, ready) ∧
      Wired chips ∧ (∀ line, chips.masked line = if line = 2 then false else pics.masked line) ∧
      ∀ memory, ready.InMemory memory → ∀ current, Wired current → ∀ handlers platform handler line before,
        LineServed stub ready memory current handlers platform handler line before := by
  obtain ⟨middle, filled, gdt, same⟩ := gdtInit_effect gdtAddress tables
  obtain ⟨ready, installed, idt⟩ := idtInit_effect stub idtAddress middle
  rw [← same] at zero
  obtain ⟨-, -, masterReady, slaveReady, master, slave⟩ := picInit_effect pics
  obtain ⟨chipsReady, masks⟩ := maskCall_effect ⟨masterReady, slaveReady⟩ (.clearMask 2)
  refine ⟨picClearMask 2#8 (picInit pics), ready, ?_, ?_, ?_, ?_⟩
  · rw [filled, Option.bind_some, interruptsInit, installed]
    rfl
  · exact ⟨rfl, rfl, chipsReady, idle⟩
  · intro line
    refine (masks line).trans ?_
    by_cases cascade : line = 2
    · simp [MaskCall.effect, MaskCall.line, cascade]
    · simp only [MaskCall.effect, MaskCall.line, Ne.symm cascade, cascade, if_false]
      rfl
  · intro memory inMemory current wired handlers platform handler line before
    exact wired.line_served (.of (idt.keeps gdt) idt zero inMemory) handlers platform handler line before

/-- The keyboard's line, with firmware that left four lines open. -/
theorem interrupt_path_keyboard :
    ∃ chips ready memory, (gdtInit 0x1000#32 bootDescriptors).bind (interruptsInit evenStubs 0x1018#32 firmwarePics) =
        some (chips, ready) ∧ ready.InMemory memory ∧ Wired chips ∧
      LineServed evenStubs ready memory chips (Vector.replicate numIrqs none) ⟨true, fun _ => 0x101000#32, 0x102000#32⟩
        id 1 kernelCpu := by
  obtain ⟨chips, ready, ran, wired, -, served⟩ := interrupt_path evenStubs 0x1000#32 0x1018#32 firmwarePics
    bootDescriptors rfl (fun j _ below => Vector.getElem?_replicate.trans (if_pos below))
  obtain ⟨global, installed⟩ : ready.gdtr.base = 0x1000#32 ∧ ready.idtr.base = 0x1018#32 := by
    obtain ⟨middle, filled, gdt, -⟩ := gdtInit_effect 0x1000#32 bootDescriptors
    obtain ⟨last, finished, idt⟩ := idtInit_effect evenStubs 0x1018#32 middle
    rw [filled, Option.bind_some, interruptsInit, finished] at ran
    cases ran
    exact ⟨congrArg TablePtr.base (idt.keeps gdt).register, congrArg TablePtr.base idt.register⟩
  have inMemory := ready.inMemory global installed
  exact ⟨chips, ready, _, ran, inMemory, wired, served _ inMemory chips wired _ _ _ 1 kernelCpu⟩

end AstraOS.Kernel
