import AstraOS.Kernel.BootState
import AstraOS.Kernel.EchoLoop
import AstraOS.Memory.AllocationRun
import AstraOS.Memory.Ownership

/-! `kernel_main` from `interrupts_enable` to its loop: the announcements and the
self-test. Interrupts between its steps change neither the consoles nor the
frames, so the readings of the tick counter are all that it sees of them. -/

namespace AstraOS.Kernel
open AstraOS.Foundation AstraOS.Drivers AstraOS.Interrupts AstraOS.Memory

section
variable (uart : Uart) (image : Image) (fuel : Nat)

def announceInterrupts (console : Console) : Option Console := do
  let console := consoleColor .lightGreen .black console
  putsLiteral uart image fuel "  Interrupts ENABLED\n" console

/-- The first test, on the readings before and after its wait. -/
def timerTest (t0 t1 : BitVec 32) (console : Console) : Option Console := do
  let console := consoleColor .yellow .black console
  let console ← putsLiteral uart image fuel "\n  === AstraOS Self-Test ===\n" console
  let console := consoleColor .lightGrey .black console
  let console ← putsLiteral uart image fuel "  [1] Timer ... " console
  if t1 > t0 then do
    let console := consoleColor .lightGreen .black console
    consolePrintf uart fuel image.rodata.memory (image.rodata.str "PASS (ticks advanced %u)\n") [t1 - t0] console
  else do
    let console := consoleColor .lightRed .black console
    putsLiteral uart image fuel "WARN (no ticks observed — IRQ may be masked)\n" console

def frameTest (pmm : Pmm) (console : Console) : Option (Pmm × Console) := do
  let console := consoleColor .lightGrey .black console
  let console ← putsLiteral uart image fuel "  [2] PMM alloc/free ... " console
  let (pmm, frame) := pmmAllocFrame pmm
  let (pmm, console) ← if frame ≠ 0#32 then do
      let pmm := pmmFreeFrame pmm frame
      let console := consoleColor .lightGreen .black console
      let console ← consolePrintf uart fuel image.rodata.memory (image.rodata.str "PASS (frame at 0x%x)\n") [frame] console
      some (pmm, console)
    else do
      let console := consoleColor .lightRed .black console
      let console ← putsLiteral uart image fuel "FAIL (no free frame)\n" console
      some (pmm, console)
  let console := consoleColor .lightGreen .black console
  let console ← putsLiteral uart image fuel "  Self-test complete.\n\n" console
  some (pmm, console)

def runSelftest (t0 t1 : BitVec 32) (pmm : Pmm) (console : Console) : Option (Pmm × Console) := do
  let console ← timerTest uart image fuel t0 t1 console
  frameTest uart image fuel pmm console

def announceLoop (console : Console) : Option Console := do
  let console := consoleColor .white .black console
  let console ← putsLiteral uart image fuel "  AstraOS is running.  Type on the keyboard to interact.\n" console
  putsLiteral uart image fuel "  Uptime: " console

/-- Steps 9 to 11 of `kernel_main`, behind `interrupts_enable` and up to the loop. -/
def kernelAnnounce (t0 t1 : BitVec 32) (pmm : Pmm) (console : Console) : Option (Pmm × Console) := do
  let console ← announceInterrupts uart image fuel console
  let (pmm, console) ← runSelftest uart image fuel t0 t1 pmm console
  let console ← announceLoop uart image fuel console
  some (pmm, console)

end

def timerScript (t0 t1 : BitVec 32) : List Output :=
  [.color .yellow .black, .print (literal "\n  === AstraOS Self-Test ===\n"), .color .lightGrey .black,
    .print (literal "  [1] Timer ... ")] ++
  if t1 > t0 then [.color .lightGreen .black,
    .print (literal "PASS (ticks advanced " ++ uintText 10 false (t1 - t0).toNat ++ literal ")\n")]
  else [.color .lightRed .black, .print (literal "WARN (no ticks observed — IRQ may be masked)\n")]

/-- The second test of a manager whose free frames are `frames`, from the lowest up. -/
def frameScript (frames : List Nat) : List Output :=
  [.color .lightGrey .black, .print (literal "  [2] PMM alloc/free ... ")] ++
  (match frames with
    | [] => [.color .lightRed .black, .print (literal "FAIL (no free frame)\n")]
    | frame :: _ => [.color .lightGreen .black,
      .print (literal "PASS (frame at 0x" ++ uintText 16 false (4096 * frame) ++ literal ")\n")]) ++
  [.color .lightGreen .black, .print (literal "  Self-test complete.\n\n")]

def announceScript (t0 t1 : BitVec 32) (frames : List Nat) : List Output :=
  [.color .lightGreen .black, .print (literal "  Interrupts ENABLED\n")] ++ (timerScript t0 t1 ++ (frameScript frames ++
    [.color .white .black, .print (literal "  AstraOS is running.  Type on the keyboard to interact.\n"),
      .print (literal "  Uptime: ")]))

section
variable (uart : Uart) (image : Image)

/-- The second test without the manager. -/
def frameVerdict (frames : List Nat) (fuel : Nat) (console : Console) : Option Console :=
  match frames with
  | [] => putsLiteral uart image fuel "FAIL (no free frame)\n" (consoleColor .lightRed .black console)
  | frame :: _ => consolePrintf uart fuel image.rodata.memory (image.rodata.str "PASS (frame at 0x%x)\n")
      [frameAddress frame] (consoleColor .lightGreen .black console)

def framePrints (frames : List Nat) (fuel : Nat) (console : Console) : Option Console := do
  let console ← putsLiteral uart image fuel "  [2] PMM alloc/free ... " (consoleColor .lightGrey .black console)
  let console ← frameVerdict uart image frames fuel console
  putsLiteral uart image fuel "  Self-test complete.\n\n" (consoleColor .lightGreen .black console)

def announcePrints (t0 t1 : BitVec 32) (frames : List Nat) (fuel : Nat) (console : Console) : Option Console := do
  let console ← announceInterrupts uart image fuel console
  let console ← timerTest uart image fuel t0 t1 console
  let console ← framePrints uart image frames fuel console
  announceLoop uart image fuel console

end

section
variable {uart : Uart} {image : Image} {pmm : Pmm}

theorem prints_announceInterrupts : Prints uart (announceInterrupts uart image)
    [.color .lightGreen .black, .print (literal "  Interrupts ENABLED\n")] := by
  have line : Prints uart (fun fuel => putsLiteral uart image fuel "  Interrupts ENABLED\n") _ :=
    prints_literal (by simp [kernelStrings])
  exact ((prints_color .lightGreen .black).seq line).of_eq fun fuel console => rfl

theorem prints_announceLoop : Prints uart (announceLoop uart image)
    [.color .white .black, .print (literal "  AstraOS is running.  Type on the keyboard to interact.\n"),
      .print (literal "  Uptime: ")] := by
  have line : Prints uart (fun fuel => putsLiteral uart image fuel
      "  AstraOS is running.  Type on the keyboard to interact.\n") _ := prints_literal (by simp [kernelStrings])
  have uptime : Prints uart (fun fuel => putsLiteral uart image fuel "  Uptime: ") _ :=
    prints_literal (by simp [kernelStrings])
  exact ((prints_color .white .black).seq (line.seq uptime)).of_eq fun fuel console => rfl

/-- A format of one conversion between two texts. -/
theorem prints_around (uart : Uart) (rodata : Rodata) {s : String} (listed : s ∈ kernelStrings) {front back : List (BitVec 8)}
    (first : ascii '%' ∉ front ∧ 0#8 ∉ front) (last : ascii '%' ∉ back ∧ 0#8 ∉ back) (piece : Piece rodata.memory)
    (spelled : front ++ piece.source ++ back = literal s) :
    Prints uart (fun fuel => consolePrintf uart fuel rodata.memory (rodata.str s) piece.args)
      [.print (front ++ piece.rendering ++ back)] := by
  let pieces : List (Piece rodata.memory) := ordinary _ front first ++ [piece] ++ ordinary _ back last
  refine prints_format (rodata.string listed) pieces ?_ ?_ ?_
  · simp only [pieces, List.flatMap_append, ordinary_source, List.flatMap_singleton]
    exact spelled
  · simp only [pieces, List.flatMap_append, ordinary_args, List.flatMap_singleton, List.nil_append, List.append_nil]
  · simp only [pieces, List.flatMap_append, ordinary_rendering, List.flatMap_singleton]

theorem prints_ticks (uart : Uart) (image : Image) (ticks : BitVec 32) :
    Prints uart (fun fuel => consolePrintf uart fuel image.rodata.memory
      (image.rodata.str "PASS (ticks advanced %u)\n") [ticks])
      [.print (literal "PASS (ticks advanced " ++ uintText 10 false ticks.toNat ++ literal ")\n")] := by
  refine prints_around uart image.rodata (by simp [kernelStrings]) (by decide +kernel) (by decide +kernel)
    (.unsigned ticks) ?_
  rw [unsigned_source]
  decide +kernel

theorem prints_frame (uart : Uart) (image : Image) {frame : Nat} (inside : frame < pmmMaxFrames) :
    Prints uart (fun fuel => consolePrintf uart fuel image.rodata.memory
      (image.rodata.str "PASS (frame at 0x%x)\n") [frameAddress frame])
      [.print (literal "PASS (frame at 0x" ++ uintText 16 false (4096 * frame) ++ literal ")\n")] := by
  have address : (frameAddress frame).toNat = 4096 * frame := address_toNat inside
  rw [← address]
  refine prints_around uart image.rodata (by simp [kernelStrings]) (by decide +kernel) (by decide +kernel)
    (.hexLower (frameAddress frame)) ?_
  rw [hexLower_source]
  decide +kernel

theorem prints_timerTest (t0 t1 : BitVec 32) :
    Prints uart (fun fuel => timerTest uart image fuel t0 t1) (timerScript t0 t1) := by
  have title : Prints uart (fun fuel => putsLiteral uart image fuel "\n  === AstraOS Self-Test ===\n") _ :=
    prints_literal (by simp [kernelStrings])
  have name : Prints uart (fun fuel => putsLiteral uart image fuel "  [1] Timer ... ") _ :=
    prints_literal (by simp [kernelStrings])
  have warning : Prints uart (fun fuel => putsLiteral uart image fuel
      "WARN (no ticks observed — IRQ may be masked)\n") _ := prints_literal (by simp [kernelStrings])
  unfold timerScript
  by_cases advanced : t1 > t0
  · rw [if_pos advanced]
    refine ((prints_color .yellow .black).seq (title.seq ((prints_color .lightGrey .black).seq (name.seq
      ((prints_color .lightGreen .black).seq (prints_ticks uart image (t1 - t0))))))).of_eq fun fuel console => ?_
    simp only [timerTest, if_pos advanced]
    rfl
  · rw [if_neg advanced]
    refine ((prints_color .yellow .black).seq (title.seq ((prints_color .lightGrey .black).seq (name.seq
      ((prints_color .lightRed .black).seq warning))))).of_eq fun fuel console => ?_
    simp only [timerTest, if_neg advanced]
    rfl

theorem prints_framePrints {frames : List Nat} (inside : ∀ frame ∈ frames, frame < pmmMaxFrames) :
    Prints uart (framePrints uart image frames) (frameScript frames) := by
  have name : Prints uart (fun fuel => putsLiteral uart image fuel "  [2] PMM alloc/free ... ") _ :=
    prints_literal (by simp [kernelStrings])
  have done : Prints uart (fun fuel => putsLiteral uart image fuel "  Self-test complete.\n\n") _ :=
    prints_literal (by simp [kernelStrings])
  have failure : Prints uart (fun fuel => putsLiteral uart image fuel "FAIL (no free frame)\n") _ :=
    prints_literal (by simp [kernelStrings])
  have rest := (prints_color .lightGreen .black).seq done
  cases frames with
  | nil =>
    exact (((prints_color .lightGrey .black).seq name).seq (((prints_color .lightRed .black).seq failure).seq rest)).of_eq
      fun _ _ => rfl
  | cons frame others =>
    have passed := prints_frame uart image (inside frame List.mem_cons_self)
    exact (((prints_color .lightGrey .black).seq name).seq (((prints_color .lightGreen .black).seq passed).seq rest)).of_eq
      fun fuel console => rfl

theorem prints_announce (t0 t1 : BitVec 32) {frames : List Nat} (inside : ∀ frame ∈ frames, frame < pmmMaxFrames) :
    Prints uart (announcePrints uart image t0 t1 frames) (announceScript t0 t1 frames) :=
  (prints_announceInterrupts.seq ((prints_timerTest t0 t1).seq ((prints_framePrints inside).seq
    prints_announceLoop))).of_eq fun _ _ => rfl

theorem ascending_inside (pmm : Pmm) : ∀ frame ∈ pmm.ascending, frame < pmmMaxFrames := by
  intro frame member
  exact lt_of_mem_freeSet ((Finset.mem_sort (· ≤ ·)).mp member)

/-- The second test takes the least free frame and gives it back. -/
theorem frameTest_eq (reserved : 0 ∉ pmm.freeSet) (fuel : Nat) (console : Console) :
    frameTest uart image fuel pmm console =
      (framePrints uart image pmm.ascending fuel console).map fun console => (pmm, console) := by
  rcases pmmAllocFrame_ascending pmm with ⟨frame, takes, address⟩ | ⟨empty, result⟩
  · rcases called : pmmAllocFrame pmm with ⟨after, given⟩
    rw [called] at takes address
    obtain rfl : given = frameAddress frame := address
    have inside := lt_of_mem_freeSet takes.member
    have present : frame ≠ 0 := fun zero => reserved (zero ▸ takes.member)
    have nonnull : frameAddress frame ≠ 0#32 := by
      intro null
      have bits : (frameAddress frame).toNat = 4096 * frame := address_toNat inside
      rw [null, BitVec.toNat_ofNat] at bits
      omega
    rw [takes.order, frameTest, called]
    simp only [framePrints, frameVerdict, if_pos nonnull, takes.released, Option.bind_eq_bind,
      Option.bind_assoc, Option.bind_some, Function.comp_def, Option.map_eq_bind]
  · rw [empty, frameTest, result]
    simp only [framePrints, frameVerdict, ne_eq, not_true_eq_false, if_false, Option.bind_eq_bind,
      Option.bind_assoc, Option.bind_some, Function.comp_def, Option.map_eq_bind]

theorem kernelAnnounce_eq (reserved : 0 ∉ pmm.freeSet) (t0 t1 : BitVec 32) (fuel : Nat) (console : Console) :
    kernelAnnounce uart image fuel t0 t1 pmm console =
      (announcePrints uart image t0 t1 pmm.ascending fuel console).map fun console => (pmm, console) := by
  simp only [kernelAnnounce, runSelftest, announcePrints, frameTest_eq reserved, Option.bind_eq_bind, Option.map_eq_bind,
    Option.bind_assoc, Option.bind_some, Function.comp_def]

/-- From `interrupts_enable` to the loop, for any readings of the tick counter: it
takes exactly the line's answers, leaves the frames as they were, and reports the
lowest free frame, or that there is none. -/
theorem selftest_reports (uart : Uart) (image : Image) (t0 t1 : BitVec 32) (reserved : 0 ∉ pmm.freeSet) {console : Console}
    (drawn : console.Drawn) :
    ((∃ fuel result, kernelAnnounce uart image fuel t0 t1 pmm console = some result) ↔
      TakesBytes uart console (sentBy (announceScript t0 t1 pmm.ascending)).length) ∧
    ∀ fuel result, kernelAnnounce uart image fuel t0 t1 pmm console = some result →
      result.1 = pmm ∧ Transcribed (announceScript t0 t1 pmm.ascending) console result.2 := by
  have contract : Prints uart (announcePrints uart image t0 t1 pmm.ascending) (announceScript t0 t1 pmm.ascending) :=
    prints_announce t0 t1 (ascending_inside pmm)
  constructor
  · rw [TakesBytes, ← contract.ends_iff drawn]
    constructor
    · intro ended
      obtain ⟨fuel, result, ran⟩ := ended
      rw [kernelAnnounce_eq reserved] at ran
      obtain ⟨final, printed, -⟩ := Option.map_eq_some_iff.mp ran
      exact ⟨fuel, final, printed⟩
    · intro ended
      obtain ⟨fuel, final, printed⟩ := ended
      exact ⟨fuel, (pmm, final), by rw [kernelAnnounce_eq reserved, printed, Option.map_some]⟩
  · intro fuel result ran
    rw [kernelAnnounce_eq reserved] at ran
    obtain ⟨final, printed, rfl⟩ := Option.map_eq_some_iff.mp ran
    exact ⟨rfl, contract.finished drawn printed⟩

end

/-- On a cleared screen, three ticks into the wait. -/
theorem selftest_reports_prompt : ∃ console fuel result,
    kernelAnnounce promptUart bootImage fuel 0#32 3#32 bootPmm console = some result ∧
      result.1 = bootPmm ∧ Transcribed (announceScript 0#32 3#32 bootPmm.ascending) console result.2 := by
  obtain ⟨vga, -, screen⟩ : ∃ cleared, vgaInit blankConsole.vga = some cleared ∧ Refines cleared .start := Refines.clear rfl
  obtain ⟨ends, does⟩ := selftest_reports promptUart bootImage 0#32 3#32 bootPmm_walked.zero_reserved
    (show Console.Drawn ⟨vga, blankConsole.serial⟩ from ⟨_, screen⟩)
  obtain ⟨fuel, result, ran⟩ := ends.mpr (takesBytes_prompt _ _)
  exact ⟨_, fuel, result, ran, does fuel result ran⟩

end AstraOS.Kernel
