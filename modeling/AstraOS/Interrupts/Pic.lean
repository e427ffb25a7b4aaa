import AstraOS.Foundation.Mask

/-! The 8259A driver over a model of the two cascaded chips. Only the port
accesses of the driver reach a chip. -/

namespace AstraOS.Interrupts

/-- What the next write to a chip's data port means. -/
inductive IcwPhase where
  | ready
  | icw2
  | icw3
  | icw4
deriving DecidableEq

/-- One 8259A: its request, in-service and mask registers, the register that the
command port reads, and the progress of an initialisation. -/
structure Chip where
  irr : BitVec 8
  isr : BitVec 8
  imr : BitVec 8
  readIsr : Bool
  phase : IcwPhase
  offset : BitVec 8
deriving DecidableEq

/-- The in-service bit of highest priority is the lowest one that is set. -/
def nonSpecificEoi (isr : BitVec 8) : BitVec 8 :=
  match (List.range 8).find? (fun n => isr.getLsbD n) with
  | some n => isr &&& ~~~(1#8 <<< n)
  | none => isr

/-- A write to the command port: ICW1, OCW3, or an OCW2, of which the driver
sends only the non-specific end of interrupt. -/
def Chip.command (chip : Chip) (val : BitVec 8) : Chip :=
  if val.getLsbD 4 then { chip with imr := 0#8, readIsr := false, phase := .icw2 }
  else if val.getLsbD 3 then
    if val.getLsbD 1 then { chip with readIsr := val.getLsbD 0 } else chip
  else if val &&& 0xE0#8 = 0x20#8 then { chip with isr := nonSpecificEoi chip.isr }
  else chip

def Chip.data (chip : Chip) (val : BitVec 8) : Chip :=
  match chip.phase with
  | .ready => { chip with imr := val }
  | .icw2 => { chip with offset := val &&& 0xF8#8, phase := .icw3 }
  | .icw3 => { chip with phase := .icw4 }
  | .icw4 => { chip with phase := .ready }

def Chip.status (chip : Chip) : BitVec 8 := if chip.readIsr then chip.isr else chip.irr

/-- The processor takes the request on line `n` of the chip. -/
def Chip.accept (chip : Chip) (n : Nat) : Chip :=
  { chip with isr := chip.isr ||| (1#8 <<< n), irr := chip.irr &&& ~~~(1#8 <<< n) }

structure Pics where
  master : Chip
  slave : Chip
deriving DecidableEq

def picMasterCmd : BitVec 16 := 0x20#16
def picMasterData : BitVec 16 := 0x21#16
def picSlaveCmd : BitVec 16 := 0xA0#16
def picSlaveData : BitVec 16 := 0xA1#16

def picMasterOffset : BitVec 8 := 0x20#8
def picSlaveOffset : BitVec 8 := 0x28#8

def icw1Init : BitVec 8 := 0x10#8
def icw1Icw4 : BitVec 8 := 0x01#8
def icw4Mode8086 : BitVec 8 := 0x01#8
def picEoi : BitVec 8 := 0x20#8
def picOcw3Isr : BitVec 8 := 0x0B#8

def outb (port : BitVec 16) (val : BitVec 8) (pics : Pics) : Pics :=
  if port = picMasterCmd then { pics with master := pics.master.command val }
  else if port = picMasterData then { pics with master := pics.master.data val }
  else if port = picSlaveCmd then { pics with slave := pics.slave.command val }
  else if port = picSlaveData then { pics with slave := pics.slave.data val }
  else pics

def inb (port : BitVec 16) (pics : Pics) : BitVec 8 :=
  if port = picMasterCmd then pics.master.status
  else if port = picMasterData then pics.master.imr
  else if port = picSlaveCmd then pics.slave.status
  else if port = picSlaveData then pics.slave.imr
  else 0#8

def ioWait (pics : Pics) : Pics := outb 0x80#16 0#8 pics

def picInit (pics : Pics) : Pics :=
  let maskMaster := inb picMasterData pics
  let maskSlave := inb picSlaveData pics
  let pics := ioWait (outb picMasterCmd (icw1Init ||| icw1Icw4) pics)
  let pics := ioWait (outb picSlaveCmd (icw1Init ||| icw1Icw4) pics)
  let pics := ioWait (outb picMasterData picMasterOffset pics)
  let pics := ioWait (outb picSlaveData picSlaveOffset pics)
  let pics := ioWait (outb picMasterData 0x04#8 pics)
  let pics := ioWait (outb picSlaveData 0x02#8 pics)
  let pics := ioWait (outb picMasterData icw4Mode8086 pics)
  let pics := ioWait (outb picSlaveData icw4Mode8086 pics)
  let pics := outb picMasterData maskMaster pics
  outb picSlaveData maskSlave pics

def picSendEoi (irq : BitVec 8) (pics : Pics) : Pics :=
  let pics := if 8#8 ≤ irq then outb picSlaveCmd picEoi pics else pics
  outb picMasterCmd picEoi pics

/-- The data port of a line and the line's number on that chip. -/
def maskPort (irq : BitVec 8) : BitVec 16 × BitVec 8 :=
  if irq < 8#8 then (picMasterData, irq) else (picSlaveData, irq - 8#8)

def picSetMask (irq : BitVec 8) (pics : Pics) : Pics :=
  let (port, irq) := maskPort irq
  outb port (inb port pics ||| (1#32 <<< irq.toNat).setWidth 8) pics

def picClearMask (irq : BitVec 8) (pics : Pics) : Pics :=
  let (port, irq) := maskPort irq
  outb port (inb port pics &&& (~~~(1#32 <<< irq.toNat)).setWidth 8) pics

def picReadIsr (pics : Pics) : BitVec 16 × Pics :=
  let pics := outb picMasterCmd picOcw3Isr pics
  let pics := outb picSlaveCmd picOcw3Isr pics
  (((inb picSlaveCmd pics).setWidth 16 <<< 8) ||| (inb picMasterCmd pics).setWidth 16, pics)

/-- Initialisation keeps the masks, moves the vectors to 0x20 and 0x28, and
leaves both chips ready for mask writes. -/
theorem picInit_effect (pics : Pics) :
    (picInit pics).master.imr = pics.master.imr ∧ (picInit pics).slave.imr = pics.slave.imr ∧
    (picInit pics).master.phase = .ready ∧ (picInit pics).slave.phase = .ready ∧
    (picInit pics).master.offset = picMasterOffset ∧ (picInit pics).slave.offset = picSlaveOffset :=
  ⟨rfl, rfl, rfl, rfl, rfl, rfl⟩

/-- The in-service registers of the two chips. -/
def Pics.inService (pics : Pics) : BitVec 8 × BitVec 8 := (pics.master.isr, pics.slave.isr)

theorem picSendEoi_inService (irq : BitVec 8) (pics : Pics) :
    (picSendEoi irq pics).inService =
      (nonSpecificEoi pics.master.isr, if 8#8 ≤ irq then nonSpecificEoi pics.slave.isr else pics.slave.isr) := by
  unfold picSendEoi
  split
  · rfl
  · rfl

theorem picReadIsr_value (pics : Pics) :
    (picReadIsr pics).1 = (pics.slave.isr.setWidth 16 <<< 8) ||| pics.master.isr.setWidth 16 := rfl

theorem Chip.data_isr (chip : Chip) (val : BitVec 8) : (chip.data val).isr = chip.isr := by
  unfold Chip.data
  cases chip.phase with
  | ready => rfl
  | icw2 => rfl
  | icw3 => rfl
  | icw4 => rfl

/-- A write to the data port of a line's chip acknowledges nothing. -/
theorem maskPort_inService (irq val : BitVec 8) (pics : Pics) :
    (outb (maskPort irq).1 val pics).inService = pics.inService := by
  unfold maskPort
  split
  · exact congrArg (·, pics.slave.isr) (pics.master.data_isr val)
  · exact congrArg (pics.master.isr, ·) (pics.slave.data_isr val)

theorem picSetMask_inService (irq : BitVec 8) (pics : Pics) :
    (picSetMask irq pics).inService = pics.inService := maskPort_inService irq _ pics

end AstraOS.Interrupts
