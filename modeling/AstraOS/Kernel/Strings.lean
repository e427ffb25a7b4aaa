import AstraOS.Foundation.StringTable
import AstraOS.Kernel.FormatRendering

/-! The string literals of the kernel, as the compiler stores them. -/

namespace AstraOS.Kernel
open AstraOS.Foundation

/-- The bytes of a literal; the source files are UTF-8. -/
def literal (s : String) : List (BitVec 8) := s.toByteArray.data.toList.map UInt8.toBitVec

/-- `exception_names`. -/
def exceptionNames : List String := [
  "Division By Zero", "Debug",
  "Non-Maskable Interrupt", "Breakpoint",
  "Overflow", "Bound Range Exceeded",
  "Invalid Opcode", "Device Not Available",
  "Double Fault", "Coprocessor Segment Overrun",
  "Invalid TSS", "Segment Not Present",
  "Stack-Segment Fault", "General Protection Fault",
  "Page Fault", "Reserved",
  "x87 Floating-Point", "Alignment Check",
  "Machine Check", "SIMD Floating-Point",
  "Virtualisation", "Control Protection",
  "Reserved", "Reserved", "Reserved", "Reserved",
  "Reserved", "Reserved",
  "Hypervisor Injection", "VMM Communication",
  "Security Exception", "Reserved"]

def bannerArt : List String := [
  "    ___        _               ___  ____  \n",
  "   / _ \\  ___ | |_  _ __  __ _/ _ \\/ ___| \n",
  "  | |_| |/ __|| __|| '__|/ _` | | | \\___ \\ \n",
  "  |  _  |\\__ \\| |_ | |  | (_| | |_| |___) |\n",
  "  |_| |_||___/ \\__||_|   \\__,_|\\___/|____/ \n\n"]

/-- The literals that the functions of the model pass on, in the order of the source files. -/
def kernelStrings : List String := [
  "\n\n*** KERNEL PANIC ***\n",
  "\nSystem halted.\n"] ++ bannerArt ++ [
  "  AstraOS v0.2  -  Hardened Bare-Metal Kernel\n",
  "  =============================================\n\n",
  "  [OK] ",
  "\n",
  "  CPU: %s (max leaf 0x%x)\n",
  "\n  === AstraOS Self-Test ===\n",
  "  [1] Timer ... ",
  "PASS (ticks advanced %u)\n",
  "WARN (no ticks observed — IRQ may be masked)\n",
  "  [2] PMM alloc/free ... ",
  "PASS (frame at 0x%x)\n",
  "FAIL (no free frame)\n",
  "  Self-test complete.\n\n",
  "Invalid Multiboot magic — not loaded by a Multiboot bootloader",
  "Interrupt subsystem (IDT + 8259A PIC)",
  "Physical Memory Manager",
  "PIT timer (100 Hz)",
  "PS/2 keyboard driver",
  "  Interrupts ENABLED\n",
  "  AstraOS is running.  Type on the keyboard to interact.\n",
  "  Uptime: ",
  "  PMM: %u MB total, %u MB free (%u frames)\n",
  "kmalloc: kernel heap exhausted",
  "\n[EXCEPTION #%u: %s]  err=0x%x  eip=0x%x  cs=0x%x\n",
  "Unhandled CPU exception",
  "Unknown"] ++ exceptionNames

/-- The kernel's read-only data. -/
abbrev Rodata := StringTable 32 (kernelStrings.map literal)

/-- The address of a literal. -/
def Rodata.str (rodata : Rodata) (s : String) : BitVec 32 := rodata.address (literal s)

theorem kernelStrings_clean : ∀ text ∈ kernelStrings.map literal, 0#8 ∉ text := by
  have table : ∀ s ∈ kernelStrings, 0#8 ∉ literal s := by decide +kernel
  intro text member
  obtain ⟨s, listed, rfl⟩ := List.mem_map.mp member
  exact table s listed

theorem Rodata.string (rodata : Rodata) {s : String} (listed : s ∈ kernelStrings) :
    CString rodata.memory (rodata.str s) (literal s) := rodata.placed _ (List.mem_map_of_mem listed)

theorem Rodata.pointer (rodata : Rodata) {s : String} (listed : s ∈ kernelStrings) : rodata.str s ≠ 0#32 :=
  StringTable.pointer rodata _ (List.mem_map_of_mem listed)

theorem kernelStrings_length : (literalBytes (kernelStrings.map literal)).length ≤ 0x1000 := by decide +kernel

/-- The literals one behind the other at 1 MiB, with other data behind them. -/
def imageRodata (data : List (BitVec 8)) (fits : data.length ≤ 0x1000) : Rodata :=
  have room : (literalBytes (kernelStrings.map literal) ++ data).length ≤ 0x2000 := by
    rw [List.length_append]
    exact Nat.add_le_add kernelStrings_length fits
  .ofStored (loadBytes 0x100000#32 (literalBytes (kernelStrings.map literal) ++ data)) 0x100000#32 _ kernelStrings_clean
    ((stored_append _ _ _ _).mp (stored_loadBytes _ _ (room.trans (by decide)))).1 (by decide)
    ((Nat.add_le_add_left kernelStrings_length _).trans (by decide))

def bareRodata : Rodata := imageRodata [] (by decide)

/-- Text without percent signs, as pieces of a format. -/
def ordinary (memory : Memory 32) (text : List (BitVec 8)) (proper : ascii '%' ∉ text ∧ 0#8 ∉ text) :
    List (Piece memory) :=
  text.attach.map fun c => .literal c.val (ne_of_mem_of_not_mem c.property proper.1)
    (ne_of_mem_of_not_mem c.property proper.2)

section
variable (memory : Memory 32) {text : List (BitVec 8)} (proper : ascii '%' ∉ text ∧ 0#8 ∉ text)

theorem unsigned_source (arg : BitVec 32) : (Piece.unsigned arg : Piece memory).source = [ascii '%', ascii 'u'] := rfl

theorem hexLower_source (arg : BitVec 32) : (Piece.hexLower arg : Piece memory).source = [ascii '%', ascii 'x'] := rfl

theorem string_source (s : BitVec 32) (pointer : s ≠ 0#32) (string : CString memory s text) :
    (Piece.string s text pointer string).source = [ascii '%', ascii 's'] := rfl

theorem attach_flatMap_singleton (text : List (BitVec 8)) : (text.attach.flatMap fun c => [c.val]) = text := by
  rw [← List.map_eq_flatMap, List.attach_map_subtype_val]

theorem ordinary_source : (ordinary memory text proper).flatMap Piece.source = text := by
  rw [ordinary, List.flatMap_map]
  exact attach_flatMap_singleton text

theorem ordinary_rendering : (ordinary memory text proper).flatMap Piece.rendering = text := by
  rw [ordinary, List.flatMap_map]
  exact attach_flatMap_singleton text

theorem ordinary_args : (ordinary memory text proper).flatMap Piece.args = [] := by
  rw [ordinary, List.flatMap_map, List.flatMap_eq_nil_iff]
  intro c member
  rfl

end

end AstraOS.Kernel
