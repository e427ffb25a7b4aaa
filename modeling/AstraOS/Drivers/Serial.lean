import AstraOS.Foundation.CString
import AstraOS.Foundation.Polling

/-! The COM1 driver, which polls. The UART is whatever answers the reads: a byte
for each read of its line-status port and one for each read of its data port. -/

namespace AstraOS.Drivers
open AstraOS.Foundation

def serialCom1 : BitVec 16 := 0x3F8#16

def serialData : BitVec 16 := 0#16
def serialIntEnable : BitVec 16 := 1#16
def serialBaudLow : BitVec 16 := 0#16
def serialBaudHigh : BitVec 16 := 1#16
def serialFifoCtrl : BitVec 16 := 2#16
def serialLineCtrl : BitVec 16 := 3#16
def serialModemCtrl : BitVec 16 := 4#16

def lsrDataReady : BitVec 8 := 0x01#8
def lsrTxEmpty : BitVec 8 := 0x20#8

/-- The answers of the device, by the number of earlier reads of the same port. -/
structure Uart where
  lineStatus : Nat → BitVec 8
  data : Nat → BitVec 8

structure PortWrite where
  port : BitVec 16
  value : BitVec 8
deriving DecidableEq

/-- How many reads each port has seen, and every `outb` so far. -/
structure SerialPort where
  statusReads : Nat
  dataReads : Nat
  writes : List PortWrite
deriving DecidableEq

def SerialPort.outb (port : BitVec 16) (value : BitVec 8) (serial : SerialPort) : SerialPort :=
  { serial with writes := serial.writes ++ [⟨port, value⟩] }

/-- `while (!(inb(SERIAL_COM1 + SERIAL_LINE_STATUS) & mask))`, cut off after `fuel` reads. -/
def pollStatus (uart : Uart) (mask : BitVec 8) : Nat → SerialPort → Option SerialPort
  | 0, _ => none
  | fuel + 1, serial =>
    let status := uart.lineStatus serial.statusReads
    let serial := { serial with statusReads := serial.statusReads + 1 }
    if status &&& mask = 0#8 then pollStatus uart mask fuel serial else some serial

/-- The writes of `serial_init` up to the byte of its loopback test. -/
def configure (serial : SerialPort) : SerialPort :=
  serial |>.outb (serialCom1 + serialIntEnable) 0x00#8
    |>.outb (serialCom1 + serialLineCtrl) 0x80#8
    |>.outb (serialCom1 + serialBaudLow) 0x01#8
    |>.outb (serialCom1 + serialBaudHigh) 0x00#8
    |>.outb (serialCom1 + serialLineCtrl) 0x03#8
    |>.outb (serialCom1 + serialFifoCtrl) 0xC7#8
    |>.outb (serialCom1 + serialModemCtrl) 0x0B#8
    |>.outb (serialCom1 + serialModemCtrl) 0x1B#8
    |>.outb (serialCom1 + serialData) 0xAE#8

/-- `serial_init` with its result: 1, or 0 when the loopback byte comes back wrong. -/
def serialInit (uart : Uart) (fuel : Nat) (serial : SerialPort) : Option (BitVec 32 × SerialPort) := do
  let serial ← pollStatus uart lsrDataReady fuel (configure serial)
  let echo := uart.data serial.dataReads
  let serial := { serial with dataReads := serial.dataReads + 1 }
  if echo ≠ 0xAE#8 then some (0#32, serial)
  else some (1#32, serial.outb (serialCom1 + serialModemCtrl) 0x0B#8)

def serialPutchar (uart : Uart) (fuel : Nat) (c : BitVec 8) (serial : SerialPort) : Option SerialPort := do
  let serial ← pollStatus uart lsrTxEmpty fuel serial
  some (serial.outb (serialCom1 + serialData) c)

/-- The loop of `serial_puts`; as in printing, `steps` bounds the way round the address space. -/
def serialPutsLoop (uart : Uart) (fuel : Nat) (memory : Memory 32) :
    Nat → BitVec 32 → SerialPort → Option SerialPort
  | 0, _, _ => none
  | steps + 1, str, serial =>
    if memory str = 0#8 then some serial
    else
      let returned := if memory str = 0x0A#8 then serialPutchar uart fuel 0x0D#8 serial else some serial
      returned.bind fun serial =>
        (serialPutchar uart fuel (memory str) serial).bind (serialPutsLoop uart fuel memory steps (str + 1))

def serialPuts (uart : Uart) (fuel : Nat) (memory : Memory 32) (str : BitVec 32) (serial : SerialPort) :
    Option SerialPort :=
  serialPutsLoop uart fuel memory (2 ^ 32) str serial

/-- The bytes written to the data port, baud rate and loopback byte included. -/
def SerialPort.sent (serial : SerialPort) : List (BitVec 8) :=
  (serial.writes.filter (fun write => write.port = serialCom1 + serialData)).map PortWrite.value

/-- The answers for which a poll of this bit ends. -/
def Uart.Ready (uart : Uart) (mask : BitVec 8) (k : Nat) : Prop := uart.lineStatus k &&& mask ≠ 0#8

instance (uart : Uart) (mask : BitVec 8) : DecidablePred (uart.Ready mask) :=
  fun k => inferInstanceAs (Decidable (uart.lineStatus k &&& mask ≠ 0#8))

section
variable {uart : Uart} {mask : BitVec 8} {serial after : SerialPort}

/-- A poll that ends has read up to the first ready answer. -/
theorem pollStatus_ended (ended : pollStatus uart mask fuel serial = some after) :
    ∃ k, FirstReady (uart.Ready mask) serial.statusReads k ∧ after = { serial with statusReads := k + 1 } := by
  induction fuel generalizing serial with
  | zero => cases ended
  | succ fuel ih =>
    unfold pollStatus at ended
    by_cases busy : uart.lineStatus serial.statusReads &&& mask = 0#8
    · simp only [busy, if_true] at ended
      obtain ⟨k, first, rfl⟩ := ih ended
      exact ⟨k, first.earlier (not_not_intro busy), rfl⟩
    · simp only [busy, if_false] at ended
      cases ended
      exact ⟨serial.statusReads, .now busy, rfl⟩

/-- A poll ends when it may read up to the first ready answer. -/
theorem pollStatus_ends (first : FirstReady (uart.Ready mask) serial.statusReads k)
    (enough : k < fuel + serial.statusReads) :
    pollStatus uart mask fuel serial = some { serial with statusReads := k + 1 } := by
  induction fuel generalizing serial with
  | zero =>
    have order := first.after
    omega
  | succ fuel ih =>
    unfold pollStatus
    by_cases now : uart.Ready mask serial.statusReads
    · have ready : ¬ uart.lineStatus serial.statusReads &&& mask = 0#8 := now
      simp only [ready, if_false, first.eq_of_ready now]
    · have busy : uart.lineStatus serial.statusReads &&& mask = 0#8 := not_not.mp now
      have later : FirstReady (uart.Ready mask)
          (SerialPort.mk (serial.statusReads + 1) serial.dataReads serial.writes).statusReads k := first.later now
      simp only [busy, if_true]
      refine ih later ?_
      show k < fuel + (serial.statusReads + 1)
      omega

@[simp] theorem outb_statusReads (serial : SerialPort) (port : BitVec 16) (value : BitVec 8) :
    (serial.outb port value).statusReads = serial.statusReads := rfl

theorem configure_statusReads (serial : SerialPort) : (configure serial).statusReads = serial.statusReads := by
  simp only [configure, outb_statusReads]

theorem sent_outb (serial : SerialPort) (port : BitVec 16) (value : BitVec 8) :
    (serial.outb port value).sent = serial.sent ++ if port = serialCom1 + serialData then [value] else [] := by
  unfold SerialPort.sent SerialPort.outb
  rw [List.filter_append, List.map_append]
  by_cases data : port = serialCom1 + serialData
  · simp [data]
  · simp [data]

/-- A character is sent when its poll has ended. -/
theorem serialPutchar_sent {c : BitVec 8} (sent : serialPutchar uart fuel c serial = some after) :
    ∃ k, FirstReady (uart.Ready lsrTxEmpty) serial.statusReads k ∧ after.statusReads = k + 1 ∧
      after.sent = serial.sent ++ [c] := by
  obtain ⟨polled, ended, written⟩ := Option.bind_eq_some_iff.mp sent
  obtain ⟨k, first, rfl⟩ := pollStatus_ended ended
  cases written
  refine ⟨k, first, rfl, ?_⟩
  rw [sent_outb, if_pos rfl]
  rfl

/-- With waits to spare, a character goes out and uses up the first of them. -/
theorem serialPutchar_sends (c : BitVec 8)
    (waits : Waits (uart.Ready lsrTxEmpty) (count + 1) serial.statusReads finish) (enough : finish ≤ fuel) :
    ∃ after, serialPutchar uart fuel c serial = some after ∧
      Waits (uart.Ready lsrTxEmpty) count after.statusReads finish := by
  cases waits with
  | @wait _ _ k _ first rest =>
    have order := rest.le
    have polled := pollStatus_ends first (show k < fuel + serial.statusReads by omega)
    exact ⟨_, congrArg (Option.bind · _) polled, rest⟩

/-- The text with a carriage return before every line feed. -/
def withReturns (text : List (BitVec 8)) : List (BitVec 8) :=
  text.flatMap fun c => if c = 0x0A#8 then [0x0D#8, c] else [c]

theorem withReturns_cons (c : BitVec 8) (rest : List (BitVec 8)) :
    withReturns (c :: rest) = (if c = 0x0A#8 then [0x0D#8, c] else [c]) ++ withReturns rest := rfl

/-- `serial_puts` sends its string with the carriage returns. -/
theorem serialPutsLoop_sent {memory : Memory 32} {str : BitVec 32} {text : List (BitVec 8)}
    (string : CString memory str text) (finished : serialPutsLoop uart fuel memory steps str serial = some after) :
    after.sent = serial.sent ++ withReturns text := by
  induction text generalizing str steps serial with
  | nil =>
    cases steps with
    | zero => cases finished
    | succ steps =>
      unfold serialPutsLoop at finished
      rw [if_pos string.ended] at finished
      cases finished
      exact (List.append_nil _).symm
  | cons c rest ih =>
    obtain ⟨here, nonzero, behind⟩ := string.next
    cases steps with
    | zero => cases finished
    | succ steps =>
      unfold serialPutsLoop at finished
      rw [here, if_neg nonzero] at finished
      obtain ⟨returned, first, finished⟩ := Option.bind_eq_some_iff.mp finished
      obtain ⟨written, second, finished⟩ := Option.bind_eq_some_iff.mp finished
      obtain ⟨-, -, -, character⟩ := serialPutchar_sent second
      rw [ih behind finished, character, withReturns_cons]
      by_cases feed : c = 0x0A#8
      · rw [if_pos feed] at first
        obtain ⟨-, -, -, carriage⟩ := serialPutchar_sent first
        simp [carriage, feed]
      · rw [if_neg feed] at first
        cases first
        simp [feed]

/-- A device that ends every wait lets `serial_puts` finish. -/
theorem serialPutsLoop_sends {memory : Memory 32} {str : BitVec 32} {text : List (BitVec 8)}
    (string : CString memory str text) (short : text.length < steps)
    (waits : Waits (uart.Ready lsrTxEmpty) (withReturns text).length serial.statusReads finish)
    (enough : finish ≤ fuel) : ∃ after, serialPutsLoop uart fuel memory steps str serial = some after := by
  induction text generalizing str steps serial with
  | nil =>
    cases steps with
    | zero => cases short
    | succ steps => exact ⟨serial, if_pos string.ended⟩
  | cons c rest ih =>
    obtain ⟨here, nonzero, behind⟩ := string.next
    cases steps with
    | zero => cases short
    | succ steps =>
      rw [withReturns_cons] at waits
      have returned : ∃ middle, (if c = 0x0A#8 then serialPutchar uart fuel 0x0D#8 serial else some serial) = some middle ∧
          Waits (uart.Ready lsrTxEmpty) ((withReturns rest).length + 1) middle.statusReads finish := by
        by_cases feed : c = 0x0A#8
        · rw [if_pos feed] at waits ⊢
          have two : ([0x0D#8, c] ++ withReturns rest).length = (withReturns rest).length + 1 + 1 := by simp
          rw [two] at waits
          exact serialPutchar_sends 0x0D#8 waits enough
        · rw [if_neg feed] at waits ⊢
          exact ⟨serial, rfl, waits⟩
      obtain ⟨middle, first, remaining⟩ := returned
      obtain ⟨written, second, others⟩ := serialPutchar_sends c remaining enough
      obtain ⟨after, finished⟩ := ih behind (Nat.lt_of_succ_lt_succ short) others
      refine ⟨after, ?_⟩
      unfold serialPutsLoop
      rw [here, if_neg nonzero]
      simp only [first, Option.bind_some, second, finished]

theorem withReturns_length (text : List (BitVec 8)) :
    (withReturns text).length = text.length + text.count 0x0A#8 := by
  induction text with
  | nil => rfl
  | cons c rest ih =>
    rw [withReturns_cons, List.length_append, ih, List.length_cons, List.count_cons]
    by_cases feed : c = 0x0A#8
    · simp [feed]
      omega
    · simp [feed]
      omega

theorem withReturns_eq_iff (text : List (BitVec 8)) : withReturns text = text ↔ 0x0A#8 ∉ text := by
  constructor
  · intro same
    have length := congrArg List.length same
    rw [withReturns_length] at length
    exact List.count_eq_zero.mp (by omega)
  · intro absent
    induction text with
    | nil => rfl
    | cons c rest ih =>
      rw [List.mem_cons, not_or] at absent
      rw [withReturns_cons, ih absent.2, if_neg (Ne.symm absent.1)]
      rfl

end

end AstraOS.Drivers
