import AstraOS.Kernel.Boot

/-! What `kernel_main` has done when it enables interrupts, from a cold start:
when it gets that far, and what it leaves in every part of the kernel. -/

namespace AstraOS.Kernel
open AstraOS.Foundation AstraOS.Drivers AstraOS.Interrupts AstraOS.Memory

section
variable (uart : Uart) (image : Image)

end

section
variable {uart : Uart} {image : Image} {cpu : CpuId} {mbi : BitVec 32} {pmm : Pmm} {state : KernelState}
variable {firmware : Pics} {timer : Timer}

theorem serialInit_sent {serial after : SerialPort} {result : BitVec 32}
    (ended : serialInit uart fuel serial = some (result, after)) : after.sent = serial.sent ++ [0x01#8, 0xAE#8] := by
  obtain ⟨polled, waited, finished⟩ := Option.bind_eq_some_iff.mp ended
  obtain ⟨r, first, rfl⟩ := pollStatus_ended waited
  have configured : (configure serial).sent = serial.sent ++ [0x01#8, 0xAE#8] := by
    have ports : serialCom1 + serialBaudLow = serialCom1 + serialData ∧
        serialCom1 + serialIntEnable ≠ serialCom1 + serialData ∧
        serialCom1 + serialLineCtrl ≠ serialCom1 + serialData ∧
        serialCom1 + serialBaudHigh ≠ serialCom1 + serialData ∧
        serialCom1 + serialFifoCtrl ≠ serialCom1 + serialData ∧
        serialCom1 + serialModemCtrl ≠ serialCom1 + serialData := by decide
    obtain ⟨baud, enable, lineCtrl, high, fifo, modem⟩ := ports
    simp only [configure, sent_outb, baud, if_neg enable, if_neg lineCtrl, if_neg high, if_neg fifo, if_neg modem,
      if_pos, List.append_nil, List.append_assoc, List.singleton_append]
  by_cases echo : uart.data (configure serial).dataReads ≠ 0xAE#8
  · cases (if_pos echo).symm.trans finished
    exact configured
  · cases (if_neg echo).symm.trans finished
    have modem : serialCom1 + serialModemCtrl ≠ serialCom1 + serialData := by decide
    rw [sent_outb, if_neg modem, List.append_nil]
    exact configured

/-- The kernel behind `interrupts_enable`. -/
structure Booted (image : Image) (cpu : CpuId) (firmware : Pics) (before : KernelState) (pmm : Pmm) (after : KernelState) :
    Prop where
  interrupts : after.interrupts = true
  screen : Refines after.console.vga (shownAfter (bootScript cpu pmm) .start)
  line : after.console.serial.sent = before.console.serial.sent ++ [0x01#8, 0xAE#8] ++ sentBy (bootScript cpu pmm)
  tables : ∀ memory, after.tables.InMemory memory → TablesReady image.stub after.tables memory
  connected : Connected image.code after.live.irq
  opened : ∀ line, after.live.irq.pics.masked line = false ↔ Opened firmware line
  reload : after.live.timer.reload = some pitDivisor
  ticks : after.live.ticks = 0#32
  keyboard : Mirrors after.live.keyboard .empty
  frames : after.pmm = pmm

/-- What comes before the magic number is looked at. -/
structure Cleared (uart : Uart) (before after : Console) (reads : Nat) : Prop where
  screen : Refines after.vga .start
  first : FirstReady (uart.Ready lsrDataReady) before.serial.statusReads reads
  reads : after.serial.statusReads = reads + 1
  line : after.serial.sent = before.serial.sent ++ [0x01#8, 0xAE#8]

theorem drivers_cleared {console : Console} {vga : Vga} {serial : SerialPort} {result : BitVec 32}
    (screen : vgaInit console.vga = some vga) (line : serialInit uart fuel console.serial = some (result, serial)) :
    ∃ reads, Cleared uart console ⟨vga, serial⟩ reads := by
  obtain ⟨cleared, same, held⟩ : ∃ cleared, vgaInit console.vga = some cleared ∧ Refines cleared .start :=
    Refines.clear rfl
  cases same.symm.trans screen
  obtain ⟨r, first, reads⟩ := serialInit_ended line
  exact ⟨r, held, first, reads, serialInit_sent line⟩

/-- The drivers come up when the UART receives a byte, whatever else the fuel allows. -/
theorem drivers_come_up {console : Console} {r : Nat}
    (first : FirstReady (uart.Ready lsrDataReady) console.serial.statusReads r) :
    ∃ vga result serial, vgaInit console.vga = some vga ∧ Cleared uart console ⟨vga, serial⟩ r ∧
      ∀ fuel, r < fuel → serialInit uart fuel console.serial = some (result, serial) := by
  obtain ⟨vga, screen, -⟩ : ∃ cleared, vgaInit console.vga = some cleared ∧ Refines cleared .start := Refines.clear rfl
  obtain ⟨result, serial, line, -⟩ := serialInit_ends first (Nat.lt_add_right _ (Nat.lt_succ_self r))
  obtain ⟨reads, cleared⟩ := drivers_cleared screen line
  cases first.unique cleared.first
  refine ⟨vga, result, serial, screen, cleared, ?_⟩
  intro fuel enough
  have waiting : FirstReady (uart.Ready lsrDataReady) (configure console.serial).statusReads r := first
  have same (budget : Nat) (more : r < budget) := pollStatus_ends waiting (Nat.lt_add_right _ more)
  rw [← line, serialInit, serialInit, same fuel enough, same (r + 1) (Nat.lt_succ_self r)]

theorem kernelMain_eq (uart : Uart) (image : Image) (fuel : Nat) (cpu : CpuId) (magic mbi : BitVec 32) (state : KernelState) :
    kernelMain uart image fuel cpu magic mbi state =
      (vgaInit state.console.vga).bind fun vga => (serialInit uart fuel state.console.serial).bind fun line =>
        if magic ≠ multibootBootloaderMagic then
          (kernelPanic uart image.rodata fuel
            (image.rodata.str "Invalid Multiboot magic — not loaded by a Multiboot bootloader")
            ⟨state.interrupts, ⟨vga, line.2⟩⟩).map fun running =>
              .panicked { state with interrupts := running.interrupts, console := running.console }
        else (kernelSetup uart image fuel cpu mbi { state with console := ⟨vga, line.2⟩ }).map .enabled := by
  simp only [kernelMain, Option.bind_eq_bind, Option.map_eq_bind]
  rfl

def magicMessage : String := "Invalid Multiboot magic — not loaded by a Multiboot bootloader"

/-- The kernel in its panic: nothing but the consoles and the interrupt flag has been touched. -/
structure Refused (before after : KernelState) : Prop where
  interrupts : after.interrupts = false
  screen : Refines after.console.vga (shownAfter (panicShown (literal magicMessage)) .start)
  line : after.console.serial.sent =
    before.console.serial.sent ++ [0x01#8, 0xAE#8] ++ sentBy (panicSent (literal magicMessage))
  tables : after.tables = before.tables
  live : after.live = before.live
  pmm : after.pmm = before.pmm

theorem shownAfter_panic (text : List (BitVec 8)) (terminal : Terminal) :
    shownAfter (panicShown text ++ panicSent text) terminal = shownAfter (panicShown text) terminal := by
  have silent : (panicSent text).flatMap Output.calls = [] := rfl
  rw [shownAfter_append, shownAfter, silent, List.foldl_nil]

theorem sentBy_panic (text : List (BitVec 8)) :
    sentBy (panicShown text ++ panicSent text) = sentBy (panicSent text) := sentBy_append _ _

/-- With any other magic number the kernel reports it on both consoles and halts
with interrupts off, as far as the UART lets it, and sets nothing up. -/
theorem kernel_refuses (uart : Uart) (image : Image) (cpu : CpuId) (mbi : BitVec 32) (state : KernelState)
    {magic : BitVec 32} (wrong : magic ≠ multibootBootloaderMagic) :
    ((∃ fuel outcome, kernelMain uart image fuel cpu magic mbi state = some outcome) ↔
      Answers uart state.console.serial.statusReads (sentBy (panicSent (literal magicMessage))).length) ∧
    ∀ fuel outcome, kernelMain uart image fuel cpu magic mbi state = some outcome →
      ∃ after, outcome = .panicked after ∧ Refused state after := by
  have string := image.rodata.string (s := magicMessage) (by simp [kernelStrings, magicMessage])
  have contract := kernelPanic_contract uart string
  have ran_cases {fuel : Nat} {outcome : BootOutcome} (ran : kernelMain uart image fuel cpu magic mbi state = some outcome) :
      ∃ console reads running, Cleared uart state.console console reads ∧
        kernelPanic uart image.rodata fuel (image.rodata.str magicMessage) ⟨state.interrupts, console⟩ = some running ∧
        outcome = .panicked { state with interrupts := running.interrupts, console := running.console } := by
    rw [kernelMain_eq, Option.bind_eq_some_iff] at ran
    obtain ⟨vga, screen, ran⟩ := ran
    obtain ⟨⟨result, serial⟩, line, ran⟩ := Option.bind_eq_some_iff.mp ran
    obtain ⟨reads, cleared⟩ := drivers_cleared screen line
    rw [if_pos wrong] at ran
    obtain ⟨running, done, rfl⟩ := Option.map_eq_some_iff.mp ran
    exact ⟨_, reads, running, cleared, done, rfl⟩
  have drawn (console : Console) (screen : Refines console.vga .start) :
      (Running.mk state.interrupts console).console.Drawn := ⟨_, screen⟩
  refine ⟨⟨?_, ?_⟩, ?_⟩
  · intro ended
    obtain ⟨fuel, outcome, ran⟩ := ended
    obtain ⟨console, reads, running, cleared, done, -⟩ := ran_cases ran
    obtain ⟨-, waits⟩ := contract.done fuel _ running (drawn console cleared.screen) done
    have place : (Running.mk state.interrupts console).console.serial.statusReads = reads + 1 := cleared.reads
    rw [place] at waits
    exact ⟨reads, cleared.first, (waits_iff_countP _ _).mp ⟨_, waits⟩⟩
  · intro answers
    obtain ⟨r, first, ready⟩ := answers
    obtain ⟨finish, waits⟩ := (waits_iff_countP _ _).mpr ready
    obtain ⟨vga, result, serial, screen, cleared, line⟩ := drivers_come_up first
    obtain ⟨least, ends⟩ := contract.ends
    have place : (Running.mk state.interrupts ⟨vga, serial⟩).console.serial.statusReads = r + 1 := cleared.reads
    rw [← place] at waits
    obtain ⟨running, done⟩ := ends (max (r + 1) (max finish least)) _ finish (drawn _ cleared.screen) waits
      (by omega) (by omega)
    have started := line (max (r + 1) (max finish least)) (by omega)
    refine ⟨max (r + 1) (max finish least),
      .panicked { state with interrupts := running.interrupts, console := running.console }, ?_⟩
    rw [kernelMain_eq, screen, Option.bind_some, started, Option.bind_some, if_pos wrong]
    exact Option.map_eq_some_iff.mpr ⟨running, done, rfl⟩
  · intro fuel outcome ran
    obtain ⟨console, reads, running, cleared, done, rfl⟩ := ran_cases ran
    obtain ⟨⟨off, followed⟩, -⟩ := contract.done fuel _ running (drawn console cleared.screen) done
    have screen := followed.screen _ cleared.screen
    rw [shownAfter_panic] at screen
    refine ⟨_, rfl, off, screen, ?_, rfl, rfl, rfl⟩
    have line := followed.line
    rw [sentBy_panic] at line
    exact line.trans (congrArg (· ++ _) cleared.line)

end

/-- Boot information without a memory map: 4 MiB above the first. -/
def bootData : List (BitVec 8) := leBytes 4 0 ++ (leBytes 4 0 ++ leBytes 4 4096)

def bootMbi : BitVec 32 := 0x100000#32 + BitVec.ofNat 32 (literalBytes (kernelStrings.map literal)).length

theorem bootData_fits : bootData.length ≤ 0x1000 := by decide

theorem bootData_flags : (readInfo (imageRodata bootData bootData_fits).memory bootMbi).flags = 0#32 := by
  have room : (literalBytes (kernelStrings.map literal) ++ bootData).length ≤ 2 ^ 32 := by
    rw [List.length_append]
    exact (Nat.add_le_add kernelStrings_length bootData_fits).trans (by decide)
  have data : Stored (imageRodata bootData bootData_fits).memory bootMbi bootData :=
    ((stored_append _ _ _ _).mp (stored_loadBytes 0x100000#32 _ room)).2
  have field := ((stored_append _ _ _ _).mp data).1
  exact congrArg (BitVec.ofNat 32) (field.leRead_exact (Nat.pow_pos (Nat.zero_lt_succ 255)))

theorem bootVendor_apart : ∀ i < (literal "  CPU: %s (max leaf 0x%x)\n" ++ [0#8]).length,
    13 ≤ ((imageRodata bootData bootData_fits).str "  CPU: %s (max leaf 0x%x)\n" + BitVec.ofNat 32 i -
      0x103F00#32).toNat := by
  have offset : literalOffset (literal "  CPU: %s (max leaf 0x%x)\n") (kernelStrings.map literal) ≤ 0x1000 :=
    (Nat.le_of_lt (literalOffset_lt (List.mem_map_of_mem (by simp [kernelStrings])))).trans kernelStrings_length
  have length : (literal "  CPU: %s (max leaf 0x%x)\n" ++ [0#8]).length = 27 := by decide +kernel
  have place : (imageRodata bootData bootData_fits).str "  CPU: %s (max leaf 0x%x)\n" = 0x100000#32 +
    BitVec.ofNat 32 (literalOffset (literal "  CPU: %s (max leaf 0x%x)\n") (kernelStrings.map literal)) := rfl
  intro i inside
  rw [length] at inside
  rw [place, BitVec.toNat_sub, BitVec.toNat_add, BitVec.toNat_add, BitVec.toNat_ofNat, BitVec.toNat_ofNat,
    BitVec.toNat_ofNat, BitVec.toNat_ofNat]
  omega

/-- The literals at 1 MiB, and the stack behind the image. -/
def bootImage : Image where
  rodata := imageRodata bootData bootData_fits
  stub := evenStubs
  gdt := 0x1000#32
  idt := 0x1018#32
  code := driverCode
  kernelEnd := 0x104000#32
  vendor := 0x103F00#32
  vendorAbove := by decide
  vendorApart := bootVendor_apart

def coldState : KernelState where
  interrupts := false
  console := blankConsole
  tables := bootDescriptors
  live := ⟨⟨firmwarePics, Vector.replicate numIrqs none⟩, ⟨0#8, none, none⟩, 0#32,
    ⟨resetKeyboard, .idle⟩⟩
  pmm := Pmm.boot

theorem answers_prompt (start count : Nat) : Answers promptUart start count :=
  ⟨start, .now (show 0x61#8 &&& 0x01#8 ≠ 0#8 by decide), (waits_iff_countP _ _).mp ⟨_, waits_prompt count (start + 1)⟩⟩

/-- The manager of `bootMbi`. -/
def bootPmm : Pmm := pmmInitReserve bootImage.kernelEnd
  (releaseUpper (readInfo bootImage.rodata.memory bootMbi) Pmm.allUsed)

theorem bootPmm_walked :
    PmmInit bootImage.rodata.memory (readInfo bootImage.rodata.memory bootMbi) bootImage.kernelEnd bootPmm := by
  have absent : (readInfo bootImage.rodata.memory bootMbi).flags &&& 1#32 <<< 6 = 0#32 := by
    rw [bootImage, bootData_flags]
    rfl
  exact pmmInit_fallback absent bootImage.rodata.memory bootImage.kernelEnd

theorem kernel_refuses_prompt : ∃ cpu fuel after,
    kernelMain promptUart bootImage fuel cpu 0x36D76289#32 bootMbi coldState = some (.panicked after) ∧
      Refused coldState after := by
  obtain ⟨ends, done⟩ := kernel_refuses promptUart bootImage ⟨0#32, 0#32, 0#32, 0#32⟩ bootMbi coldState
    (show 0x36D76289#32 ≠ multibootBootloaderMagic by decide)
  obtain ⟨fuel, outcome, ran⟩ := ends.mpr (answers_prompt _ _)
  obtain ⟨after, rfl, refused⟩ := done fuel outcome ran
  exact ⟨_, fuel, after, ran, refused⟩

end AstraOS.Kernel
