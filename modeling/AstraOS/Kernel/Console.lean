import AstraOS.Drivers.Serial
import AstraOS.Drivers.Vga
import AstraOS.Kernel.FormatRendering

/-! The two consoles behind the kernel's print functions. Every character goes to
the screen and then to COM1, and the second can keep it waiting. -/

namespace AstraOS.Kernel
open AstraOS.Foundation AstraOS.Drivers

structure Console where
  vga : Vga
  serial : SerialPort

section
variable (uart : Uart) (fuel : Nat)

def consoleCall (console : Console) : ConsoleCall → Option Console
  | .vgaPutchar c => (vgaPutchar c.char console.vga).map fun vga => { console with vga := vga }
  | .serialPutchar c => (serialPutchar uart fuel c.char console.serial).map fun serial => { console with serial := serial }

/-- The driver calls of a print function, carried out in order. -/
def performCalls (calls : List ConsoleCall) (console : Console) : Option Console :=
  calls.foldlM (consoleCall uart fuel) console

def consolePuts (memory : Memory 32) (str : BitVec 32) (console : Console) : Option Console :=
  (kputs memory str []).bind fun calls => performCalls uart fuel calls console

/-- `serial_init()` and then `kputs(str)`, as `kernel_main` begins. -/
def bootPuts (memory : Memory 32) (str : BitVec 32) (console : Console) : Option Console :=
  (serialInit uart fuel console.serial).bind fun result =>
    consolePuts uart fuel memory str { console with serial := result.2 }

end

/-- Initialising and printing end, and the screen is as `vga_puts` alone leaves it. -/
def Survives (uart : Uart) (memory : Memory 32) (str : BitVec 32) (text : List (BitVec 8)) (console : Console) : Prop :=
  ∃ fuel final, bootPuts uart fuel memory str console = some final ∧ vgaPuts text console.vga = some final.vga

/-- The device says that it has received a byte, and after that says often
enough that it can take another. -/
def Answers (uart : Uart) (start count : Nat) : Prop :=
  ∃ r, FirstReady (uart.Ready lsrDataReady) start r ∧
    ∃ m, count ≤ (List.range' (r + 1) m).countP fun k => uart.Ready lsrTxEmpty k

section
variable {uart : Uart} {console final : Console}

theorem emitAll_append (text : List (BitVec 8)) (calls : List ConsoleCall) :
    emitAll text calls = calls ++ emitAll text [] := by
  induction text generalizing calls with
  | nil => exact (List.append_nil calls).symm
  | cons c rest ih =>
    have first : emitAll (c :: rest) calls = emitAll rest (emit ⟨c, false⟩ calls) := rfl
    have alone : emitAll (c :: rest) [] = emitAll rest (emit ⟨c, false⟩ []) := rfl
    rw [first, alone, ih, ih (emit ⟨c, false⟩ []), emit, emit, List.nil_append, List.append_assoc]

/-- One character: the screen, then the line. -/
theorem performCalls_cons (fuel : Nat) (c : BitVec 8) (text : List (BitVec 8)) (console : Console) :
    performCalls uart fuel (emitAll (c :: text) []) console =
      (vgaPutchar c console.vga).bind fun vga =>
        (serialPutchar uart fuel c console.serial).bind fun serial =>
          performCalls uart fuel (emitAll text []) ⟨vga, serial⟩ := by
  have first : emitAll (c :: text) [] = emitAll text [.vgaPutchar ⟨c, false⟩, .serialPutchar ⟨c, false⟩] := rfl
  rw [first, emitAll_append, performCalls, List.foldlM_append]
  simp only [List.foldlM_cons, List.foldlM_nil, consoleCall, performCalls]
  cases vgaPutchar c console.vga with
  | none => rfl
  | some vga =>
    cases sent : serialPutchar uart fuel c console.serial with
    | none => simp [sent]
    | some serial => simp [sent]

/-- What printing a text to its end has done to both consoles. -/
theorem performCalls_printed {text : List (BitVec 8)} (nonzero : 0#8 ∉ text)
    (printed : performCalls uart fuel (emitAll text []) console = some final) :
    vgaPuts text console.vga = some final.vga ∧ final.serial.sent = console.serial.sent ++ text ∧
      Waits (uart.Ready lsrTxEmpty) text.length console.serial.statusReads final.serial.statusReads := by
  induction text generalizing console with
  | nil =>
    cases printed
    exact ⟨rfl, (List.append_nil _).symm, .done⟩
  | cons c rest ih =>
    rw [List.mem_cons, not_or] at nonzero
    rw [performCalls_cons] at printed
    obtain ⟨vga, shown, printed⟩ := Option.bind_eq_some_iff.mp printed
    obtain ⟨serial, sent, printed⟩ := Option.bind_eq_some_iff.mp printed
    obtain ⟨screen, line, waits⟩ := ih nonzero.2 printed
    obtain ⟨k, first, reads, character⟩ := serialPutchar_sent sent
    refine ⟨?_, ?_, ?_⟩
    · rw [vgaPuts, if_pos (Ne.symm nonzero.1), shown]
      exact screen
    · rw [line, character, List.append_assoc]
      rfl
    · rw [reads] at waits
      exact .wait first waits

/-- A device that ends every wait lets the text through. -/
theorem performCalls_prints {text : List (BitVec 8)} (inside : console.vga.Inside)
    (waits : Waits (uart.Ready lsrTxEmpty) text.length console.serial.statusReads finish) (enough : finish ≤ fuel) :
    ∃ final, performCalls uart fuel (emitAll text []) console = some final := by
  induction text generalizing console with
  | nil => exact ⟨console, rfl⟩
  | cons c rest ih =>
    obtain ⟨vga, shown, kept⟩ := inside.putchar c
    obtain ⟨serial, sent, others⟩ := serialPutchar_sends c waits enough
    have onScreen : (Console.mk vga serial).vga.Inside := kept
    obtain ⟨final, printed⟩ := ih onScreen others
    refine ⟨final, ?_⟩
    rw [performCalls_cons, shown, Option.bind_some, sent, Option.bind_some, printed]

/-- `serial_init` reads the line status up to the first byte received, if there is one. -/
theorem serialInit_ended {serial after : SerialPort} {result : BitVec 32}
    (ended : serialInit uart fuel serial = some (result, after)) :
    ∃ r, FirstReady (uart.Ready lsrDataReady) serial.statusReads r ∧ after.statusReads = r + 1 := by
  obtain ⟨polled, waited, finished⟩ := Option.bind_eq_some_iff.mp ended
  obtain ⟨r, first, rfl⟩ := pollStatus_ended waited
  rw [configure_statusReads] at first
  refine ⟨r, first, ?_⟩
  by_cases echo : uart.data (configure serial).dataReads ≠ 0xAE#8
  · cases (if_pos echo).symm.trans finished
    rfl
  · cases (if_neg echo).symm.trans finished
    rfl

theorem serialInit_ends {serial : SerialPort} {r : Nat}
    (first : FirstReady (uart.Ready lsrDataReady) serial.statusReads r) (enough : r < fuel + serial.statusReads) :
    ∃ result after, serialInit uart fuel serial = some (result, after) ∧ after.statusReads = r + 1 := by
  rw [← configure_statusReads] at first enough
  have waited := pollStatus_ends first enough
  unfold serialInit
  rw [waited, Option.bind_eq_bind, Option.bind_some]
  by_cases echo : uart.data (configure serial).dataReads ≠ 0xAE#8
  · exact ⟨0#32, _, if_pos echo, rfl⟩
  · exact ⟨1#32, _, if_neg echo, rfl⟩

end

section
variable {uart : Uart} {memory : Memory 32} {str : BitVec 32} {text : List (BitVec 8)} {console : Console}

theorem kputs_text (string : CString memory str text) (pointer : str ≠ 0#32) :
    kputs memory str [] = some (emitAll text []) := emitStr_string string pointer []

/-- The console survives exactly the devices that go on answering. -/
theorem console_survives_iff (string : CString memory str text) (pointer : str ≠ 0#32)
    (inside : console.vga.Inside) :
    Survives uart memory str text console ↔ Answers uart console.serial.statusReads text.length := by
  constructor
  · rintro ⟨fuel, final, finished, -⟩
    obtain ⟨⟨result, serial⟩, started, finished⟩ := Option.bind_eq_some_iff.mp finished
    rw [consolePuts, kputs_text string pointer, Option.bind_some] at finished
    obtain ⟨r, first, reads⟩ := serialInit_ended started
    obtain ⟨-, -, waits⟩ := performCalls_printed string.nonzero finished
    have place : (Console.mk console.vga serial).serial.statusReads = r + 1 := reads
    rw [place] at waits
    exact ⟨r, first, (waits_iff_countP _ _).mp ⟨_, waits⟩⟩
  · rintro ⟨r, first, ready⟩
    obtain ⟨finish, waits⟩ := (waits_iff_countP _ _).mpr ready
    have order := waits.le
    obtain ⟨result, serial, started, reads⟩ :=
      serialInit_ends first (show r < finish + console.serial.statusReads by omega)
    rw [← reads] at waits
    have onScreen : (Console.mk console.vga serial).vga.Inside := inside
    obtain ⟨final, printed⟩ := performCalls_prints onScreen waits le_rfl
    obtain ⟨screen, -, -⟩ := performCalls_printed string.nonzero printed
    refine ⟨finish, final, ?_, screen⟩
    rw [bootPuts, started, Option.bind_some, consolePuts, kputs_text string pointer, Option.bind_some]
    exact printed

/-- Whenever both calls return, they have sent the same line, with its carriage
returns, exactly when the string has no line feed; `kputs` never adds one. -/
theorem lines_agree_iff {other : Uart} {final : Console} {serial after : SerialPort} (string : CString memory str text)
    (pointer : str ≠ 0#32) (printed : consolePuts uart fuel memory str console = some final)
    (logged : serialPuts other steps memory str serial = some after) :
    (final.serial.sent = console.serial.sent ++ withReturns text ∧ after.sent = serial.sent ++ withReturns text) ↔
      0x0A#8 ∉ text := by
  rw [consolePuts, kputs_text string pointer, Option.bind_some] at printed
  obtain ⟨-, line, -⟩ := performCalls_printed string.nonzero printed
  rw [line, List.append_right_inj, ← withReturns_eq_iff, eq_comm, and_iff_left]
  exact serialPutsLoop_sent string logged

end

/-- A UART that is always ready, and one that never is. -/
def promptUart : Uart := ⟨fun _ => 0x61#8, fun _ => 0xAE#8⟩

def deadUart : Uart := ⟨fun _ => 0x00#8, fun _ => 0x00#8⟩

def okText : List (BitVec 8) := ['o', 'k', '\n'].map ascii

def okMemory : Memory 32 := loadBytes 0x1000#32 (okText ++ [0#8])

def blankConsole : Console := ⟨⟨Vector.replicate (vgaHeight * vgaWidth) 0#16, 0, 0, 0x07#8⟩, ⟨0, 0, []⟩⟩

theorem okString : CString okMemory 0x1000#32 okText := ⟨stored_loadBytes _ _ (by decide), by decide⟩

theorem blankConsole_inside : blankConsole.vga.Inside := ⟨show 0 < 25 by decide, show 0 < 80 by decide⟩

theorem console_survives_prompt : Survives promptUart okMemory 0x1000#32 okText blankConsole := by
  exact (console_survives_iff okString (by decide) blankConsole_inside).mpr ⟨0, .now (by decide), 3, by decide⟩

/-- Without a UART the line status reads as zero for ever, and `serial_init` does not return. -/
theorem dead_uart_hangs :
    ¬ ∀ (uart : Uart) (memory : Memory 32) (str : BitVec 32) (text : List (BitVec 8)) (console : Console),
      CString memory str text → str ≠ 0#32 → console.vga.Inside → Survives uart memory str text console := by
  intro survives
  obtain ⟨fuel, final, finished, -⟩ := survives deadUart _ _ _ _ okString (by decide) blankConsole_inside
  obtain ⟨⟨result, serial⟩, started, -⟩ := Option.bind_eq_some_iff.mp finished
  obtain ⟨r, first, -⟩ := serialInit_ended started
  exact first.here (show 0x00#8 &&& 0x01#8 = 0#8 by decide)

theorem waits_prompt (count start : Nat) : Waits (promptUart.Ready lsrTxEmpty) count start (start + count) := by
  induction count generalizing start with
  | zero => exact .done
  | succ count ih =>
    have ready : promptUart.Ready lsrTxEmpty start := show 0x61#8 &&& 0x20#8 ≠ 0#8 by decide
    have rest := ih (start + 1)
    rw [Nat.add_right_comm] at rest
    exact .wait (.now ready) rest

theorem prompt_finishes :
    ∃ final after, consolePuts promptUart 4 okMemory 0x1000#32 blankConsole = some final ∧
      serialPuts promptUart 4 okMemory 0x1000#32 blankConsole.serial = some after := by
  obtain ⟨final, printed⟩ := performCalls_prints blankConsole_inside (waits_prompt okText.length 0)
    (show 0 + 3 ≤ 4 by decide)
  have waits : Waits (promptUart.Ready lsrTxEmpty) (withReturns okText).length blankConsole.serial.statusReads (0 + 4) :=
    waits_prompt 4 0
  obtain ⟨after, logged⟩ := serialPutsLoop_sends okString okString.length_lt waits le_rfl
  refine ⟨final, after, ?_, logged⟩
  rw [consolePuts, kputs_text okString (by decide), Option.bind_some]
  exact printed

theorem lines_agree_ok :
    ∃ final after, consolePuts promptUart 4 okMemory 0x1000#32 blankConsole = some final ∧
      serialPuts promptUart 4 okMemory 0x1000#32 blankConsole.serial = some after ∧
      ((final.serial.sent = blankConsole.serial.sent ++ withReturns okText ∧
          after.sent = blankConsole.serial.sent ++ withReturns okText) ↔ 0x0A#8 ∉ okText) := by
  obtain ⟨final, after, printed, logged⟩ := prompt_finishes
  exact ⟨final, after, printed, logged, lines_agree_iff okString (by decide) printed logged⟩

/-- On "ok" and a line feed, `kputs` sends a bare line feed. -/
theorem kputs_bare_feed :
    ¬ ∀ (uart other : Uart) (fuel steps : Nat) (memory : Memory 32) (str : BitVec 32) (text : List (BitVec 8))
      (console final : Console) (serial after : SerialPort), CString memory str text → str ≠ 0#32 →
        consolePuts uart fuel memory str console = some final → serialPuts other steps memory str serial = some after →
          final.serial.sent = console.serial.sent ++ withReturns text ∧ after.sent = serial.sent ++ withReturns text := by
  intro agree
  obtain ⟨final, after, printed, logged⟩ := prompt_finishes
  obtain ⟨same, -⟩ := agree _ _ _ _ _ _ _ _ _ _ _ okString (by decide) printed logged
  rw [consolePuts, kputs_text okString (by decide), Option.bind_some] at printed
  obtain ⟨-, line, -⟩ := performCalls_printed okString.nonzero printed
  rw [line, List.append_right_inj, eq_comm, withReturns_eq_iff] at same
  exact same (by decide)

end AstraOS.Kernel
