import AstraOS.Kernel.LiveInterrupts
import AstraOS.Kernel.Panic
import AstraOS.Memory.MapWalk

/-! `kernel_main` up to the point where it enables interrupts: what it prints on
the way, and the state it has brought every part of the kernel to. -/

namespace AstraOS.Kernel
open AstraOS.Foundation AstraOS.Drivers AstraOS.Interrupts AstraOS.Memory

/-- What `cpuid` answers for leaf 0. -/
structure CpuId where
  eax : BitVec 32
  ebx : BitVec 32
  ecx : BitVec 32
  edx : BitVec 32

def vendorWord (word : BitVec 32) : List (BitVec 8) :=
  [(word &&& 0xFF#32).setWidth 8, ((word >>> 8) &&& 0xFF#32).setWidth 8, ((word >>> 16) &&& 0xFF#32).setWidth 8,
    ((word >>> 24) &&& 0xFF#32).setWidth 8]

/-- `char vendor[13]`. -/
def vendorBuffer (cpu : CpuId) : List (BitVec 8) :=
  vendorWord cpu.ebx ++ vendorWord cpu.edx ++ vendorWord cpu.ecx ++ [0#8]

/-- What the build fixes: the literals, the code and the tables, the end of the
kernel, and where the stack has the vendor string, which is not among the literals. -/
structure Image where
  rodata : Rodata
  stub : StubName → BitVec 32
  gdt : BitVec 32
  idt : BitVec 32
  code : DriverCode
  kernelEnd : BitVec 32
  vendor : BitVec 32
  vendorAbove : vendor ≠ 0#32
  vendorApart : ∀ i < (literal "  CPU: %s (max leaf 0x%x)\n" ++ [0#8]).length,
    13 ≤ (rodata.str "  CPU: %s (max leaf 0x%x)\n" + BitVec.ofNat 32 i - vendor).toNat

structure KernelState where
  interrupts : Bool
  console : Console
  tables : Descriptors
  live : Live
  pmm : Pmm

def multibootBootloaderMagic : BitVec 32 := 0x2BADB002#32

section
variable (uart : Uart) (image : Image) (fuel : Nat)

/-- `kputs` of a literal. -/
def putsLiteral (s : String) (console : Console) : Option Console :=
  consolePuts uart fuel image.rodata.memory (image.rodata.str s) console

def printBanner (console : Console) : Option Console := do
  let console := consoleColor .lightCyan .black console
  let console ← bannerArt.foldlM (fun console s => putsLiteral uart image fuel s console) console
  let console := consoleColor .white .black console
  let console ← putsLiteral uart image fuel "  AstraOS v0.2  -  Hardened Bare-Metal Kernel\n" console
  putsLiteral uart image fuel "  =============================================\n\n" console

def statusOk (name : String) (console : Console) : Option Console := do
  let console := consoleColor .lightGreen .black console
  let console ← putsLiteral uart image fuel "  [OK] " console
  let console := consoleColor .lightGrey .black console
  let console ← putsLiteral uart image fuel name console
  putsLiteral uart image fuel "\n" console

def printCpuInfo (cpu : CpuId) (console : Console) : Option Console := do
  let memory := overlay image.rodata.memory image.vendor (vendorBuffer cpu)
  let console := consoleColor .yellow .black console
  consolePrintf uart fuel memory (image.rodata.str "  CPU: %s (max leaf 0x%x)\n") [image.vendor, cpu.eax] console

/-- `memory_init`, with the line that `pmm_init` prints. -/
def memoryInit (mbi : BitVec 32) (pmm : Pmm) (console : Console) : Option (Pmm × Console) := do
  let memory := image.rodata.memory
  let pmm ← pmmInit fuel memory (readInfo memory mbi) image.kernelEnd pmm
  let (total, free, frames) := pmmSummary pmm
  let console ← consolePrintf uart fuel memory (image.rodata.str "  PMM: %u MB total, %u MB free (%u frames)\n")
    [total, free, frames] console
  some (pmm, console)

/-- Steps 3 to 9 of `kernel_main`. -/
def kernelSetup (cpu : CpuId) (mbi : BitVec 32) (state : KernelState) : Option KernelState := do
  let console ← printBanner uart image fuel state.console
  let tables ← gdtInit image.gdt state.tables
  let (pics, tables) ← interruptsInit image.stub image.idt state.live.irq.pics tables
  let live := { state.live with irq := { state.live.irq with pics := pics } }
  let console ← statusOk uart image fuel "Interrupt subsystem (IDT + 8259A PIC)" console
  let (pmm, console) ← memoryInit uart image fuel mbi state.pmm console
  let console ← statusOk uart image fuel "Physical Memory Manager" console
  let console ← printCpuInfo uart image fuel cpu console
  let live := pitInit image.code live
  let console ← statusOk uart image fuel "PIT timer (100 Hz)" console
  let live := keyboardInit image.code live
  let console ← statusOk uart image fuel "PS/2 keyboard driver" console
  some ⟨true, console, tables, live, pmm⟩

/-- How `kernel_main` gets on: into a panic, or to the point where interrupts are enabled. -/
inductive BootOutcome where
  | panicked (state : KernelState)
  | enabled (state : KernelState)

/-- `kernel_main` up to `interrupts_enable`. -/
def kernelMain (cpu : CpuId) (magic mbi : BitVec 32) (state : KernelState) : Option BootOutcome := do
  let vga ← vgaInit state.console.vga
  let (_, serial) ← serialInit uart fuel state.console.serial
  let console : Console := ⟨vga, serial⟩
  if magic ≠ multibootBootloaderMagic then do
    let running ← kernelPanic uart image.rodata fuel
      (image.rodata.str "Invalid Multiboot magic — not loaded by a Multiboot bootloader") ⟨state.interrupts, console⟩
    some (.panicked { state with interrupts := running.interrupts, console := running.console })
  else do
    let state ← kernelSetup uart image fuel cpu mbi { state with console := console }
    some (.enabled state)

end

/-- A text on a line of its own, as `status_ok` prints it. -/
def statusScript (name : String) : List Output :=
  [.color .lightGreen .black, .print (literal "  [OK] "), .color .lightGrey .black, .print (literal name),
    .print (literal "\n")]

def bannerScript : List Output :=
  .color .lightCyan .black :: bannerArt.map (fun s => .print (literal s)) ++
    [.color .white .black, .print (literal "  AstraOS v0.2  -  Hardened Bare-Metal Kernel\n"),
      .print (literal "  =============================================\n\n")]

/-- The vendor string up to its first NUL. -/
def vendorText (cpu : CpuId) : List (BitVec 8) := (vendorBuffer cpu).takeWhile (· ≠ 0#8)

def cpuText (cpu : CpuId) : List (BitVec 8) :=
  literal "  CPU: " ++ vendorText cpu ++ literal " (max leaf 0x" ++ uintText 16 false cpu.eax.toNat ++ literal ")\n"

/-- The summary line; its figures are those of `pmmSummary`. -/
def memoryText (pmm : Pmm) : List (BitVec 8) :=
  literal "  PMM: " ++ uintText 10 false (pmmSummary pmm).1.toNat ++ literal " MB total, " ++
    uintText 10 false (pmmSummary pmm).2.1.toNat ++ literal " MB free (" ++
    uintText 10 false (pmmSummary pmm).2.2.toNat ++ literal " frames)\n"

def bootScript (cpu : CpuId) (pmm : Pmm) : List Output :=
  (bannerScript ++ statusScript "Interrupt subsystem (IDT + 8259A PIC)") ++ (.print (memoryText pmm) ::
    (statusScript "Physical Memory Manager" ++ ([.color .yellow .black, .print (cpuText cpu)] ++
      (statusScript "PIT timer (100 Hz)" ++ statusScript "PS/2 keyboard driver"))))

section
variable {uart : Uart} {image : Image} {s : String}

theorem prints_literal (listed : s ∈ kernelStrings) :
    Prints uart (fun fuel => putsLiteral uart image fuel s) [.print (literal s)] :=
  prints_kputs (image.rodata.string listed) (image.rodata.pointer listed)

end

end AstraOS.Kernel
