import AstraOS.Interrupts.Frames
import AstraOS.Kernel.Strings
import AstraOS.Kernel.Transcript

/-! How the kernel gives up: `kernel_panic`, and the handler of the processor's
exceptions, which reports the interrupted code and panics. -/

namespace AstraOS.Kernel
open AstraOS.Foundation AstraOS.Drivers AstraOS.Interrupts

/-- The interrupt flag and the consoles. -/
structure Running where
  interrupts : Bool
  console : Console

section
variable (uart : Uart) (rodata : Rodata) (fuel : Nat)

def panicScreen (msg : BitVec 32) (console : Console) : Option Console := do
  let console := consoleColor .white .red console
  let console ← consoleScreen rodata.memory (rodata.str "\n\n*** KERNEL PANIC ***\n") console
  let console ← consoleScreen rodata.memory msg console
  consoleScreen rodata.memory (rodata.str "\nSystem halted.\n") console

def panicLine (msg : BitVec 32) (console : Console) : Option Console := do
  let console ← consoleLine uart fuel rodata.memory (rodata.str "\n\n*** KERNEL PANIC ***\n") console
  let console ← consoleLine uart fuel rodata.memory msg console
  consoleLine uart fuel rodata.memory (rodata.str "\nSystem halted.\n") console

/-- `kernel_panic`, up to the halt that it repeats for ever. -/
def kernelPanic (msg : BitVec 32) (running : Running) : Option Running := do
  let running := { running with interrupts := false }
  let console ← panicScreen rodata msg running.console
  let console ← panicLine uart rodata fuel msg console
  some { running with console := console }

def isrHandler (frame : InterruptFrame) (running : Running) : Option Running := do
  let vec := frame.intNo
  let name := if vec < 32#32 then rodata.str (exceptionNames.getD vec.toNat "") else rodata.str "Unknown"
  let console ← consolePrintf uart fuel rodata.memory
    (rodata.str "\n[EXCEPTION #%u: %s]  err=0x%x  eip=0x%x  cs=0x%x\n")
    [vec, name, frame.errCode, frame.eip, frame.cs] running.console
  kernelPanic uart rodata fuel (rodata.str "Unhandled CPU exception") { running with console := console }

end

/-- What a panic puts on the screen, and what it sends afterwards. -/
def panicShown (msg : List (BitVec 8)) : List Output :=
  [.color .white .red, .screen (literal "\n\n*** KERNEL PANIC ***\n"), .screen msg, .screen (literal "\nSystem halted.\n")]

def panicSent (msg : List (BitVec 8)) : List Output :=
  [.line (literal "\n\n*** KERNEL PANIC ***\n"), .line msg, .line (literal "\nSystem halted.\n")]

def exceptionName (vec : BitVec 32) : String :=
  if vec < 32#32 then exceptionNames.getD vec.toNat "" else "Unknown"

/-- The line that `isr_handler` prints about a frame. -/
def exceptionText (vec errCode eip cs : BitVec 32) : List (BitVec 8) :=
  literal "\n[EXCEPTION #" ++ uintText 10 false vec.toNat ++ literal ": " ++ literal (exceptionName vec) ++
    literal "]  err=0x" ++ uintText 16 false errCode.toNat ++ literal "  eip=0x" ++ uintText 16 false eip.toNat ++
    literal "  cs=0x" ++ uintText 16 false cs.toNat ++ literal "\n"

variable {uart : Uart} {rodata : Rodata} {msg : BitVec 32} {text : List (BitVec 8)}

/-- The screen gets the whole report without asking the UART for anything. -/
theorem prints_panicScreen (uart : Uart) (string : CString rodata.memory msg text) :
    Prints uart (fun _ => panicScreen rodata msg) (panicShown text) := by
  have heading := rodata.string (s := "\n\n*** KERNEL PANIC ***\n") (by simp [kernelStrings])
  have ending := rodata.string (s := "\nSystem halted.\n") (by simp [kernelStrings])
  exact ((prints_color .white .red).seq ((prints_screen heading).seq
    ((prints_screen string).seq (prints_screen ending)))).of_eq fun fuel console => rfl

theorem prints_panicLine (string : CString rodata.memory msg text) :
    Prints uart (fun fuel => panicLine uart rodata fuel msg) (panicSent text) := by
  have heading := rodata.string (s := "\n\n*** KERNEL PANIC ***\n") (by simp [kernelStrings])
  have ending := rodata.string (s := "\nSystem halted.\n") (by simp [kernelStrings])
  exact ((prints_line heading).seq ((prints_line string).seq (prints_line ending))).of_eq fun fuel console => rfl

/-- The contract of `kernel_panic`: interrupts off, and both reports made. -/
theorem kernelPanic_contract (uart : Uart) (string : CString rodata.memory msg text) :
    Polls (uart.Ready lsrTxEmpty) (fun running : Running => running.console.serial.statusReads)
      (fun running => running.console.Drawn) (sentBy (panicSent text)).length
      (fun fuel => kernelPanic uart rodata fuel msg)
      (fun running halted => halted.interrupts = false ∧
        Transcribed (panicShown text ++ panicSent text) running.console halted.console) := by
  have reports := (prints_panicScreen uart string).seq (prints_panicLine string)
  have silent : sentBy (panicShown text ++ panicSent text) = sentBy (panicSent text) := sentBy_append _ _
  rw [Prints, silent] at reports
  have framed := Polls.frame Running.console (fun _ console => ⟨false, console⟩) (fun _ _ => rfl) reports
  have same (fuel : Nat) (running : Running) : kernelPanic uart rodata fuel msg running =
      ((panicScreen rodata msg running.console).bind (panicLine uart rodata fuel msg)).map fun console =>
        ⟨false, console⟩ := by
    simp only [kernelPanic, Option.bind_eq_bind, Option.map_eq_bind, Option.bind_assoc]
    rfl
  refine (framed.of_eq same).consequence (fun _ drawn => drawn) ?_
  rintro running halted drawn ⟨off, followed⟩
  exact ⟨congrArg Running.interrupts off, followed⟩

/-- Everything that `isr_handler` prints about a frame. -/
def exceptionReport (frame : InterruptFrame) : List Output :=
  [.print (exceptionText frame.intNo frame.errCode frame.eip frame.cs)] ++
    (panicShown (literal "Unhandled CPU exception") ++ panicSent (literal "Unhandled CPU exception"))

theorem exceptionName_listed (vec : BitVec 32) : exceptionName vec ∈ kernelStrings := by
  have length : exceptionNames.length = 32 := rfl
  unfold exceptionName
  split
  · rename_i below
    have inside : vec.toNat < exceptionNames.length := by
      rw [length]
      exact BitVec.lt_def.mp below
    rw [List.getD_eq_getElem?_getD, List.getElem?_eq_getElem inside]
    exact List.mem_append_right _ (List.getElem_mem inside)
  · simp [kernelStrings]

theorem prints_exception (uart : Uart) (rodata : Rodata) (frame : InterruptFrame) :
    Prints uart (fun fuel => consolePrintf uart fuel rodata.memory
      (rodata.str "\n[EXCEPTION #%u: %s]  err=0x%x  eip=0x%x  cs=0x%x\n")
      [frame.intNo, rodata.str (exceptionName frame.intNo), frame.errCode, frame.eip, frame.cs])
      [.print (exceptionText frame.intNo frame.errCode frame.eip frame.cs)] := by
  have format := rodata.string (s := "\n[EXCEPTION #%u: %s]  err=0x%x  eip=0x%x  cs=0x%x\n") (by simp [kernelStrings])
  have name := exceptionName_listed frame.intNo
  let pieces : List (Piece rodata.memory) :=
    ordinary _ (literal "\n[EXCEPTION #") (by decide +kernel) ++ [.unsigned frame.intNo] ++
      ordinary _ (literal ": ") (by decide +kernel) ++ [.string _ _ (rodata.pointer name) (rodata.string name)] ++
      ordinary _ (literal "]  err=0x") (by decide +kernel) ++ [.hexLower frame.errCode] ++
      ordinary _ (literal "  eip=0x") (by decide +kernel) ++ [.hexLower frame.eip] ++
      ordinary _ (literal "  cs=0x") (by decide +kernel) ++ [.hexLower frame.cs] ++
      ordinary _ (literal "\n") (by decide +kernel)
  have source : pieces.flatMap Piece.source = literal "\n[EXCEPTION #%u: %s]  err=0x%x  eip=0x%x  cs=0x%x\n" := by
    simp only [pieces, List.flatMap_append, ordinary_source, List.flatMap_singleton, unsigned_source, hexLower_source,
      string_source]
    decide +kernel
  have args : pieces.flatMap Piece.args =
      [frame.intNo, rodata.str (exceptionName frame.intNo), frame.errCode, frame.eip, frame.cs] := by
    simp only [pieces, List.flatMap_append, ordinary_args, List.flatMap_singleton]
    rfl
  have rendering : pieces.flatMap Piece.rendering = exceptionText frame.intNo frame.errCode frame.eip frame.cs := by
    simp only [pieces, List.flatMap_append, ordinary_rendering, List.flatMap_singleton]
    rfl
  exact prints_format format pieces source args rendering

/-- The contract of `isr_handler`, on any frame. -/
theorem isrHandler_contract (uart : Uart) (rodata : Rodata) (frame : InterruptFrame) :
    Polls (uart.Ready lsrTxEmpty) (fun running : Running => running.console.serial.statusReads)
      (fun running => running.console.Drawn) (sentBy (exceptionReport frame)).length
      (fun fuel => isrHandler uart rodata fuel frame)
      (fun running halted => halted.interrupts = false ∧
        Transcribed (exceptionReport frame) running.console halted.console) := by
  have line := Polls.frame Running.console (fun running console => { running with console := console })
    (fun _ _ => rfl) (prints_exception uart rodata frame)
  have panic := kernelPanic_contract uart
    (rodata.string (s := "Unhandled CPU exception") (by simp [kernelStrings]))
  have both := Polls.seq line panic fun running between drawn followed => followed.2.drawn drawn
  have count : (sentBy (exceptionReport frame)).length =
      (sentBy [.print (exceptionText frame.intNo frame.errCode frame.eip frame.cs)]).length +
        (sentBy (panicSent (literal "Unhandled CPU exception"))).length := by
    rw [exceptionReport, sentBy_append, sentBy_append, List.length_append]
    rfl
  have same (fuel : Nat) (running : Running) : isrHandler uart rodata fuel frame running =
      ((consolePrintf uart fuel rodata.memory (rodata.str "\n[EXCEPTION #%u: %s]  err=0x%x  eip=0x%x  cs=0x%x\n")
        [frame.intNo, rodata.str (exceptionName frame.intNo), frame.errCode, frame.eip, frame.cs]
        running.console).map fun console => { running with console := console }).bind
          (kernelPanic uart rodata fuel (rodata.str "Unhandled CPU exception")) := by
    rw [isrHandler, exceptionName, apply_ite rodata.str, Option.map_eq_bind, Option.bind_assoc]
    rfl
  have contract := both.of_eq same
  rw [← count] at contract
  refine contract.consequence (fun running drawn => drawn) fun running halted drawn followed => ?_
  obtain ⟨between, ⟨-, first⟩, off, second⟩ := followed
  exact ⟨off, first.trans second⟩

/-- So many answers of the UART from here on say that it can take a byte. -/
def TakesBytes (uart : Uart) (console : Console) (count : Nat) : Prop :=
  ∃ m, count ≤ (List.range' console.serial.statusReads m).countP fun k => uart.Ready lsrTxEmpty k

/-- What `vga_init` leaves can be drawn. -/
theorem cleared_drawn (serial : SerialPort) : ∃ vga, (Console.mk vga serial).Drawn := by
  obtain ⟨vga, -, held⟩ : ∃ vga, vgaInit blankConsole.vga = some vga ∧ Refines vga .start := Refines.clear rfl
  exact ⟨vga, _, held⟩

theorem takesBytes_prompt (console : Console) (count : Nat) : TakesBytes promptUart console count :=
  (waits_iff_countP count console.serial.statusReads).mp ⟨_, waits_prompt count console.serial.statusReads⟩

/-- An exception in the kernel, end to end: its stub calls `isr_handler` on a
frame of the interrupted code, which both consoles then report, by number, name,
error code and place, before the kernel halts with interrupts off. -/
theorem exception_reported (uart : Uart) (rodata : Rodata) (platform : Platform) (handler : Cpu → Cpu) (num : Fin 32) (code : BitVec 32)
    (before : Cpu) (interrupts : Bool) {console : Console} (drawn : console.Drawn) :
    ∃ entered frame csWord, idtStub (num.castLE (by decide)) = .isr num ∧
      isrStub num = (stubPushes (num.castLE (by decide))).map .pushImm ++ enterCommon ++ (.callHandler :: leaveCommon) ∧
      (arrive platform (num.castLE (by decide)) code before).run platform handler
        ((stubPushes (num.castLE (by decide))).map .pushImm ++ enterCommon) = some entered ∧
      frame = InterruptFrame.read (entered.push platform.returnAddress).memory
        ((entered.push platform.returnAddress).slot 1) ∧
      csWord.setWidth 16 = before.cs ∧
      ((∃ fuel halted, isrHandler uart rodata fuel frame ⟨interrupts, console⟩ = some halted) ↔
        TakesBytes uart console (sentBy (exceptionReport frame)).length) ∧
      ∀ fuel halted, isrHandler uart rodata fuel frame ⟨interrupts, console⟩ = some halted →
        halted.interrupts = false ∧
        Transcribed ([.print (exceptionText (BitVec.ofNat 32 num.val)
            ((errorCodeOf (num.castLE (by decide)) code).getD 0#32) before.eip csWord)] ++
          (panicShown (literal "Unhandled CPU exception") ++ panicSent (literal "Unhandled CPU exception")))
          console halted.console := by
  obtain ⟨entered, run, -, described⟩ := stub_frame platform handler (num.castLE (by decide)) code before
  have contract := isrHandler_contract uart rodata
    (InterruptFrame.read (entered.push platform.returnAddress).memory ((entered.push platform.returnAddress).slot 1))
  have start : (Running.mk interrupts console).console.Drawn := drawn
  have named : idtStub (num.castLE (by decide)) = .isr num := dif_pos num.isLt
  have stub := idtStub_code (num.castLE (by decide))
  rw [named] at stub
  refine ⟨entered, _, _, named, ?_, run, rfl, described.csLow, contract.ends_iff start, ?_⟩
  · rw [List.append_assoc]
    exact stub
  · intro fuel halted ran
    have held := (contract.done fuel _ halted start ran).1
    rw [exceptionReport, described.intNo, described.errCode, described.eip] at held
    exact held

/-- A page fault in code that runs with interrupts on. -/
theorem exception_reported_page_fault :
    ∃ console : Console, ∃ frame csWord fuel halted, csWord.setWidth 16 = kernelCpu.cs ∧
      isrHandler promptUart bareRodata fuel frame ⟨true, console⟩ = some halted ∧ halted.interrupts = false ∧
      Transcribed ([.print (exceptionText 14#32 2#32 0x100000#32 csWord)] ++
        (panicShown (literal "Unhandled CPU exception") ++ panicSent (literal "Unhandled CPU exception")))
        console halted.console := by
  obtain ⟨vga, drawn⟩ := cleared_drawn blankConsole.serial
  obtain ⟨entered, frame, csWord, -, -, -, -, low, ends, done⟩ := exception_reported promptUart bareRodata
    ⟨true, fun _ => 0x101000#32, 0x102000#32⟩ id 14 2#32 kernelCpu true drawn
  obtain ⟨fuel, halted, ran⟩ := ends.mpr (takesBytes_prompt _ _)
  exact ⟨_, frame, csWord, fuel, halted, low, ran, done fuel halted ran⟩

end AstraOS.Kernel
