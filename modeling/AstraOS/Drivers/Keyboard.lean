import AstraOS.Foundation.Buffer
import AstraOS.Foundation.Run

/-! The PS/2 keyboard driver: the IRQ1 handler fills the input ring and
`keyboard_getchar` drains it, with interrupts possible between its steps. -/

namespace AstraOS.Drivers
open AstraOS.Foundation

def kbBufSize : Nat := 64

def kbBufMask : BitVec 32 := BitVec.ofNat 32 (kbBufSize - 1)

/-- The initialisers of `scancode_map`, make codes 0x00 to 0x39; the remaining
entries of the array are zero. -/
def scancodeInit : List Char := [
  '\x00', '\x00', '1', '2', '3', '4', '5', '6', '7', '8', '9', '0',
  '-', '=', '\x08', '\t', 'q', 'w', 'e', 'r', 't', 'y', 'u', 'i', 'o', 'p',
  '[', ']', '\n', '\x00', 'a', 's', 'd', 'f', 'g', 'h', 'j', 'k', 'l',
  ';', '\x27', '\x60', '\x00', '\x5c', 'z', 'x', 'c', 'v', 'b', 'n', 'm',
  ',', '.', '/', '\x00', '*', '\x00', ' ']

def scancodeMapLen : Nat := 89

def scancodeMap (index : Nat) : BitVec 8 :=
  BitVec.ofNat 8 (scancodeInit.getD index '\x00').toNat

structure Keyboard where
  kbBuf : Vector (BitVec 8) kbBufSize
  kbHead : BitVec 32
  kbTail : BitVec 32
deriving DecidableEq

/-- The ring as the kernel image holds it. -/
def resetKeyboard : Keyboard := ⟨Vector.replicate kbBufSize 0#8, 0#32, 0#32⟩

/-- `keyboard_irq1_handler`, for the byte `sc` that port 0x60 delivers. -/
def keyboardIrq1Handler (sc : BitVec 8) (kb : Keyboard) : Option Keyboard :=
  if sc &&& 0x80#8 ≠ 0#8 then some kb
  else if sc = 0xE0#8 then some kb
  else if sc.toNat < scancodeMapLen then
    let c := scancodeMap sc.toNat
    if c ≠ 0#8 then
      let next := (kb.kbHead + 1#32) &&& kbBufMask
      if next ≠ kb.kbTail then do
        let kbBuf ← storeAt kb.kbBuf kb.kbHead.toNat c
        some { kb with kbBuf := kbBuf, kbHead := next }
      else some kb
    else some kb
  else some kb

def keyboardGetchar (kb : Keyboard) : Option (BitVec 8 × Keyboard) :=
  if kb.kbTail = kb.kbHead then some (0#8, kb)
  else do
    let c ← kb.kbBuf[kb.kbTail.toNat]?
    some (c, { kb with kbTail := (kb.kbTail + 1#32) &&& kbBufMask })

def keyboardPoll (kb : Keyboard) : BitVec 32 :=
  if kb.kbTail ≠ kb.kbHead then 1#32 else 0#32

/-- Where the consumer stands inside `keyboard_getchar`. -/
inductive GetcharPoint where
  | idle
  | nonEmpty
  | loaded (c : BitVec 8)
deriving DecidableEq

structure KeyboardSystem where
  kb : Keyboard
  point : GetcharPoint
deriving DecidableEq

inductive KeyboardEvent where
  | irq1 (sc : BitVec 8)
  | internal
  | returned (c : BitVec 8)
deriving DecidableEq

/-- One elementary step of `keyboard_getchar`: the comparison, the slot read or
the tail store, which also returns. -/
def getcharStep (system : KeyboardSystem) : Option (KeyboardEvent × KeyboardSystem) :=
  match system.point with
  | .idle =>
    if system.kb.kbTail = system.kb.kbHead then some (.returned 0#8, system)
    else some (.internal, { system with point := .nonEmpty })
  | .nonEmpty => do
    let c ← system.kb.kbBuf[system.kb.kbTail.toNat]?
    some (.internal, { system with point := .loaded c })
  | .loaded c =>
    some (.returned c, ⟨{ system.kb with kbTail := (system.kb.kbTail + 1#32) &&& kbBufMask }, .idle⟩)

/-- The producer may run between any two steps of the consumer. -/
inductive KeyboardStep : KeyboardSystem → KeyboardEvent → KeyboardSystem → Prop where
  | irq1 {system : KeyboardSystem} {kb : Keyboard} {sc : BitVec 8}
      (handled : keyboardIrq1Handler sc system.kb = some kb) :
      KeyboardStep system (.irq1 sc) { system with kb := kb }
  | getchar {system after : KeyboardSystem} {event : KeyboardEvent}
      (stepped : getcharStep system = some (event, after)) : KeyboardStep system event after

/-- Left alone, the elementary steps are the function. -/
theorem keyboardGetchar_steps {kb after : Keyboard} (returned : keyboardGetchar kb = some (c, after)) :
    ∃ events, Run KeyboardStep ⟨kb, .idle⟩ (events ++ [.returned c]) ⟨after, .idle⟩ ∧
      ∀ event ∈ events, event = .internal := by
  unfold keyboardGetchar at returned
  split at returned
  · rename_i empty
    cases returned
    refine ⟨[], .next .start (.getchar ?_), by simp⟩
    simp [getcharStep, empty]
  · rename_i filled
    rw [Option.bind_eq_bind, Option.bind_eq_some_iff] at returned
    obtain ⟨_, read, finished⟩ := returned
    cases finished
    have compared : getcharStep ⟨kb, .idle⟩ = some (.internal, ⟨kb, .nonEmpty⟩) := by
      simp [getcharStep, filled]
    have loaded : getcharStep ⟨kb, .nonEmpty⟩ = some (.internal, ⟨kb, .loaded c⟩) := by
      simp [getcharStep, read]
    exact ⟨[.internal, .internal], .next (.next (.next .start (.getchar compared)) (.getchar loaded))
      (.getchar rfl), by simp⟩

end AstraOS.Drivers
