import AstraOS.Drivers.Terminal
import AstraOS.Foundation.Polls
import AstraOS.Kernel.Console
import AstraOS.Kernel.FormatBounds

/-! What the kernel prints, as a transcript. Every print function has a contract
that gives its transcript; the UART decides only whether the function ends. -/

namespace AstraOS.Kernel
open AstraOS.Foundation AstraOS.Drivers

/-- `print` is what reaches both consoles as it stands; `line` is a string for
`serial_puts`, which sends carriage returns too. -/
inductive Output where
  | color (fg bg : VgaColor)
  | print (text : List (BitVec 8))
  | screen (text : List (BitVec 8))
  | line (text : List (BitVec 8))
deriving DecidableEq

def Output.calls : Output → List VgaCall
  | .color fg bg => [.setColor fg bg]
  | .print text => text.map .putchar
  | .screen text => [.puts text]
  | .line _ => []

def Output.sent : Output → List (BitVec 8)
  | .color _ _ => []
  | .print text => text
  | .screen _ => []
  | .line text => withReturns text

/-- The reference terminal after a transcript. -/
def shownAfter (script : List Output) (terminal : Terminal) : Terminal :=
  (script.flatMap Output.calls).foldl Terminal.call terminal

def sentBy (script : List Output) : List (BitVec 8) := script.flatMap Output.sent

/-- The screen is one that the reference terminal can show. -/
def Console.Drawn (console : Console) : Prop := ∃ terminal, Refines console.vga terminal

/-- Both consoles have followed the transcript. -/
structure Transcribed (script : List Output) (before after : Console) : Prop where
  screen : ∀ terminal, Refines before.vga terminal → Refines after.vga (shownAfter script terminal)
  line : after.serial.sent = before.serial.sent ++ sentBy script

/-- The contract of a print function. -/
def Prints (uart : Uart) (program : Nat → Console → Option Console) (script : List Output) : Prop :=
  Polls (uart.Ready lsrTxEmpty) (fun console => console.serial.statusReads) Console.Drawn (sentBy script).length
    program (Transcribed script)

def consoleColor (fg bg : VgaColor) (console : Console) : Console :=
  { console with vga := vgaSetColor fg bg console.vga }

/-- `vga_puts(str)`, reading the string where it is. -/
def vgaPutsLoop (memory : Memory 32) : Nat → BitVec 32 → Vga → Option Vga
  | 0, _, _ => none
  | steps + 1, str, vga =>
    if memory str = 0#8 then some vga else (vgaPutchar (memory str) vga).bind (vgaPutsLoop memory steps (str + 1))

def consoleScreen (memory : Memory 32) (str : BitVec 32) (console : Console) : Option Console :=
  (vgaPutsLoop memory (2 ^ 32) str console.vga).map fun vga => { console with vga := vga }

def consoleLine (uart : Uart) (fuel : Nat) (memory : Memory 32) (str : BitVec 32) (console : Console) : Option Console :=
  (serialPuts uart fuel memory str console.serial).map fun serial => { console with serial := serial }

/-- `kprintf(fmt, ...)` with both drivers behind it. -/
def consolePrintf (uart : Uart) (fuel : Nat) (memory : Memory 32) (fmt : BitVec 32) (args : List (BitVec 32))
    (console : Console) : Option Console :=
  (kprintf memory fmt args fuel).bind fun state => performCalls uart fuel state.calls console

variable {uart : Uart} {memory : Memory 32} {str : BitVec 32} {text : List (BitVec 8)} {script more : List Output}

theorem shownAfter_append (script more : List Output) (terminal : Terminal) :
    shownAfter (script ++ more) terminal = shownAfter more (shownAfter script terminal) := by
  rw [shownAfter, List.flatMap_append, List.foldl_append]
  rfl

theorem sentBy_append (script more : List Output) : sentBy (script ++ more) = sentBy script ++ sentBy more :=
  List.flatMap_append

theorem Transcribed.drawn {before after : Console} (followed : Transcribed script before after)
    (drawn : before.Drawn) : after.Drawn := by
  obtain ⟨terminal, shows⟩ := drawn
  exact ⟨_, followed.screen terminal shows⟩

theorem Transcribed.refl (console : Console) : Transcribed [] console console :=
  ⟨fun _ shows => shows, (List.append_nil _).symm⟩

theorem Transcribed.trans {before middle after : Console} (first : Transcribed script before middle)
    (second : Transcribed more middle after) : Transcribed (script ++ more) before after := by
  constructor
  · intro terminal shows
    rw [shownAfter_append]
    exact second.screen _ (first.screen terminal shows)
  · rw [second.line, first.line, sentBy_append, List.append_assoc]

/-- Transcripts with the same calls and the same bytes are the same contract. -/
theorem Prints.alike {program : Nat → Console → Option Console} (contract : Prints uart program script)
    (calls : script.flatMap Output.calls = more.flatMap Output.calls) (sent : sentBy script = sentBy more) :
    Prints uart program more := by
  unfold Prints
  rw [← sent]
  refine contract.consequence (fun _ drawn => drawn) ?_
  intro before after drawn followed
  refine ⟨?_, sent ▸ followed.line⟩
  intro terminal shows
  rw [shownAfter, ← calls]
  exact followed.screen terminal shows

theorem Prints.of_eq {program other : Nat → Console → Option Console} (contract : Prints uart program script)
    (same : ∀ fuel console, other fuel console = program fuel console) : Prints uart other script :=
  Polls.of_eq contract same

theorem Prints.nothing : Prints uart (fun _ console => some console) [] :=
  Polls.quiet fun console _ => ⟨console, rfl, .refl console, rfl⟩

theorem Prints.seq {program next : Nat → Console → Option Console} (first : Prints uart program script)
    (second : Prints uart next more) :
    Prints uart (fun fuel console => (program fuel console).bind (next fuel)) (script ++ more) := by
  have both := Polls.seq first second fun _ _ drawn followed => followed.drawn drawn
  rw [← List.length_append, ← sentBy_append] at both
  refine both.consequence (fun _ drawn => drawn) ?_
  rintro before after drawn ⟨middle, one, two⟩
  exact one.trans two

theorem prints_color (fg bg : VgaColor) : Prints uart (fun _ console => some (consoleColor fg bg console)) [.color fg bg] := by
  refine Polls.quiet fun console _ => ⟨_, rfl, ⟨?_, (List.append_nil _).symm⟩, rfl⟩
  intro terminal shows
  obtain ⟨after, colored, shown⟩ := shows.call (.setColor fg bg)
  cases colored
  exact shown

/-- One character on both consoles. -/
theorem prints_char (c : BitVec 8) :
    Prints uart (fun fuel console => (vgaPutchar c console.vga).bind fun vga =>
      (serialPutchar uart fuel c console.serial).map fun serial => ⟨vga, serial⟩) [.print [c]] := by
  constructor
  · rintro fuel console final ⟨terminal, shows⟩ ran
    obtain ⟨vga, shown, ran⟩ := Option.bind_eq_some_iff.mp ran
    obtain ⟨serial, sent, rfl⟩ := Option.map_eq_some_iff.mp ran
    obtain ⟨k, first, reads, line⟩ := serialPutchar_sent sent
    refine ⟨⟨?_, line⟩, .wait first (reads ▸ .done)⟩
    intro terminal shows
    obtain ⟨after, same, held⟩ := shows.putchar c
    cases same.symm.trans shown
    exact held
  · refine ⟨0, ?_⟩
    rintro fuel console finish ⟨terminal, shows⟩ waits enough -
    obtain ⟨vga, shown, -⟩ := shows.putchar c
    obtain ⟨serial, sent, -⟩ := serialPutchar_sends c waits enough
    exact ⟨⟨vga, serial⟩, by rw [shown, Option.bind_some, sent, Option.map_some]⟩

theorem performCalls_emission (fuel : Nat) (emission : Emission) (rest : List Emission) (console : Console) :
    performCalls uart fuel (emitEach (emission :: rest) []) console =
      ((vgaPutchar emission.char console.vga).bind fun vga =>
        (serialPutchar uart fuel emission.char console.serial).map fun serial => Console.mk vga serial).bind
          (performCalls uart fuel (emitEach rest [])) := by
  have split (calls : List ConsoleCall) : emitEach rest calls = calls ++ emitEach rest [] := by
    induction rest generalizing calls with
    | nil => exact (List.append_nil calls).symm
    | cons next rest ih =>
      have further : emitEach (next :: rest) calls = emitEach rest (emit next calls) := rfl
      have alone : emitEach (next :: rest) [] = emitEach rest (emit next []) := rfl
      rw [further, alone, ih, ih (emit next []), emit, emit, List.nil_append, List.append_assoc]
  have first : emitEach (emission :: rest) [] = emitEach rest [.vgaPutchar emission, .serialPutchar emission] := rfl
  rw [first, split, performCalls, List.foldlM_append]
  simp only [List.foldlM_cons, List.foldlM_nil, consoleCall, performCalls]
  cases vgaPutchar emission.char console.vga with
  | none => rfl
  | some vga =>
    cases sent : serialPutchar uart fuel emission.char console.serial with
    | none => simp [sent]
    | some serial => simp [sent, performCalls]

/-- Characters that are printed one after the other. -/
theorem prints_emissions (uart : Uart) (emissions : List Emission) :
    Prints uart (fun fuel => performCalls uart fuel (emitEach emissions [])) [.print (emissions.map Emission.char)] := by
  induction emissions with
  | nil => exact Prints.nothing.alike rfl rfl
  | cons emission rest ih =>
    have both := (prints_char emission.char).seq ih
    simp only [← performCalls_emission] at both
    exact both.alike (by simp [Output.calls]) (by simp [sentBy, Output.sent])

theorem prints_kputs (string : CString memory str text) (pointer : str ≠ 0#32) :
    Prints uart (fun fuel => consolePuts uart fuel memory str) [.print text] := by
  have printed := prints_emissions uart (plain text)
  rw [plain_chars, ← emitAll_plain] at printed
  refine printed.of_eq fun fuel console => ?_
  rw [consolePuts, kputs_text string pointer, Option.bind_some]

/-- `kprintf` prints its pieces; its own loop needs some fuel as well. -/
theorem prints_kprintf {fmt : BitVec 32} (pieces : List (Piece memory))
    (format : CString memory fmt (pieces.flatMap Piece.source)) :
    Prints uart (fun fuel => consolePrintf uart fuel memory fmt (pieces.flatMap Piece.args))
      [.print (pieces.flatMap Piece.rendering)] := by
  obtain ⟨emissions, printed, chars⟩ := pieces_printed pieces []
  rw [List.append_nil] at printed
  have proper : ∀ token ∈ pieces.map Piece.token, token.Proper := by
    intro token member
    obtain ⟨piece, -, rfl⟩ := List.mem_map.mp member
    exact piece.proper
  have whole : CString memory (fmt + BitVec.ofNat 32 (PrintState.mk 0 (pieces.flatMap Piece.args) [] []).index)
      (sourceText (pieces.map Piece.token) ++ []) := by
    rw [pieces_source, List.append_nil, BitVec.add_zero]
    exact format
  obtain ⟨next, rounds, advanced⟩ := kprintfLoop_tokens whole proper printed
  have ended : memory (fmt + BitVec.ofNat 32 next.index) = 0#8 := by
    rw [advanced.index, Nat.zero_add]
    rw [BitVec.add_zero] at whole
    exact whole.skip.ended
  have finished (fuel : Nat) : kprintf memory fmt (pieces.flatMap Piece.args) (fuel + 1 + (pieces.map Piece.token).length) =
      some (next.deref memory fmt).2 := (rounds (fuel + 1)).trans (kprintfLoop_end ended fuel)
  have calls : (next.deref memory fmt).2.calls = emitEach emissions [] := advanced.calls
  have contract := prints_emissions uart emissions
  rw [chars] at contract
  constructor
  · intro fuel console final drawn ran
    obtain ⟨state, ran, performed⟩ := Option.bind_eq_some_iff.mp ran
    have longer := kprintfLoop_mono ran (1 + (pieces.map Piece.token).length)
    rw [← Nat.add_assoc] at longer
    cases longer.symm.trans (finished fuel)
    rw [calls] at performed
    exact contract.done fuel console final drawn performed
  · obtain ⟨least, ends⟩ := contract.ends
    refine ⟨max least (1 + (pieces.map Piece.token).length), ?_⟩
    intro fuel console finish drawn waits enough budget
    obtain ⟨final, performed⟩ := ends fuel console finish drawn waits enough ((Nat.le_max_left _ _).trans budget)
    obtain ⟨extra, rfl⟩ := Nat.exists_eq_add_of_le ((Nat.le_max_right _ _).trans budget)
    refine ⟨final, ?_⟩
    rw [consolePrintf, Nat.add_comm _ extra, ← Nat.add_assoc, finished, Option.bind_some, calls, Nat.add_assoc,
      Nat.add_comm extra]
    exact performed

/-- A format that is spelled by pieces prints their text. -/
theorem prints_format {fmt : BitVec 32} {source : List (BitVec 8)} {args : List (BitVec 32)}
    (format : CString memory fmt source) (pieces : List (Piece memory)) (spelled : pieces.flatMap Piece.source = source)
    (taken : pieces.flatMap Piece.args = args) (shown : pieces.flatMap Piece.rendering = text) :
    Prints uart (fun fuel => consolePrintf uart fuel memory fmt args) [.print text] := by
  rw [← spelled] at format
  rw [← taken, ← shown]
  exact prints_kprintf pieces format

theorem vgaPutsLoop_eq (string : CString memory str text) (short : text.length < steps) (vga : Vga) :
    vgaPutsLoop memory steps str vga = vgaPuts text vga := by
  induction text generalizing str steps vga with
  | nil =>
    cases steps with
    | zero => cases short
    | succ steps => exact if_pos string.ended
  | cons c rest ih =>
    obtain ⟨here, nonzero, behind⟩ := string.next
    cases steps with
    | zero => cases short
    | succ steps =>
      have later : vgaPutsLoop memory steps (str + 1) = vgaPuts rest :=
        funext (ih behind (Nat.lt_of_succ_lt_succ short))
      rw [vgaPutsLoop, here, if_neg nonzero, vgaPuts, if_pos nonzero, later]

/-- The screen takes any string, whatever the UART does. -/
theorem prints_screen (string : CString memory str text) :
    Prints uart (fun _ => consoleScreen memory str) [.screen text] := by
  refine Polls.quiet fun console drawn => ?_
  obtain ⟨terminal, shows⟩ := drawn
  obtain ⟨vga, shown, -⟩ := shows.puts text
  refine ⟨{ console with vga := vga }, ?_, ⟨?_, (List.append_nil _).symm⟩, rfl⟩
  · rw [consoleScreen, vgaPutsLoop_eq string string.length_lt, shown, Option.map_some]
  · intro other held
    obtain ⟨after, same, kept⟩ := held.puts text
    cases same.symm.trans shown
    exact kept

/-- `serial_puts` waits once for each byte it sends. -/
theorem serialPutsLoop_waited {serial after : SerialPort} (string : CString memory str text)
    (finished : serialPutsLoop uart fuel memory steps str serial = some after) :
    Waits (uart.Ready lsrTxEmpty) (withReturns text).length serial.statusReads after.statusReads := by
  induction text generalizing str steps serial with
  | nil =>
    cases steps with
    | zero => cases finished
    | succ steps =>
      cases (if_pos string.ended).symm.trans finished
      exact .done
  | cons c rest ih =>
    obtain ⟨here, nonzero, behind⟩ := string.next
    cases steps with
    | zero => cases finished
    | succ steps =>
      unfold serialPutsLoop at finished
      rw [here, if_neg nonzero] at finished
      obtain ⟨returned, first, finished⟩ := Option.bind_eq_some_iff.mp finished
      obtain ⟨written, second, finished⟩ := Option.bind_eq_some_iff.mp finished
      obtain ⟨k, ready, reads, -⟩ := serialPutchar_sent second
      have others : Waits (uart.Ready lsrTxEmpty) ((withReturns rest).length + 1) returned.statusReads after.statusReads :=
        .wait ready (reads ▸ ih behind finished)
      rw [withReturns_cons, List.length_append, Nat.add_comm]
      by_cases feed : c = 0x0A#8
      · rw [if_pos feed] at first ⊢
        obtain ⟨j, carriage, moved, -⟩ := serialPutchar_sent first
        exact .wait carriage (moved ▸ others)
      · rw [if_neg feed] at first ⊢
        cases first
        exact others

theorem prints_line (string : CString memory str text) :
    Prints uart (fun fuel => consoleLine uart fuel memory str) [.line text] := by
  have bytes : sentBy [.line text] = withReturns text := List.append_nil _
  rw [Prints, bytes]
  constructor
  · intro fuel console final drawn ran
    obtain ⟨serial, sent, rfl⟩ := Option.map_eq_some_iff.mp ran
    refine ⟨⟨fun terminal shows => shows, ?_⟩, serialPutsLoop_waited string sent⟩
    rw [bytes]
    exact serialPutsLoop_sent string sent
  · refine ⟨0, ?_⟩
    intro fuel console finish drawn waits enough budget
    obtain ⟨serial, sent⟩ := serialPutsLoop_sends string string.length_lt waits enough
    exact ⟨{ console with serial := serial }, by rw [consoleLine, serialPuts, sent, Option.map_some]⟩

/-- A finished transcript, from any console that draws a terminal. -/
theorem Prints.finished {program : Nat → Console → Option Console} (contract : Prints uart program script)
    {console final : Console} (drawn : console.Drawn) (ran : program fuel console = some final) :
    Transcribed script console final := (contract.done fuel console final drawn ran).1

end AstraOS.Kernel
