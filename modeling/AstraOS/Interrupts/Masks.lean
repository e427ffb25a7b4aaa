import AstraOS.Interrupts.Pic
import Mathlib.Data.List.Induction

/-! Which interrupt lines are unmasked after the remap and the drivers' calls,
for every pair of mask registers that the firmware left. -/

namespace AstraOS.Interrupts

/-- One call of a driver on a line. -/
inductive MaskCall where
  | setMask (line : Fin 16)
  | clearMask (line : Fin 16)
deriving DecidableEq

def MaskCall.line : MaskCall → Fin 16
  | .setMask line => line
  | .clearMask line => line

def maskCall (pics : Pics) : MaskCall → Pics
  | .setMask line => picSetMask (BitVec.ofNat 8 line.val) pics
  | .clearMask line => picClearMask (BitVec.ofNat 8 line.val) pics

/-- The mask bit of a line: the low eight lines are on the master. -/
def Pics.masked (pics : Pics) (line : Fin 16) : Bool :=
  if line.val < 8 then pics.master.imr.getLsbD line.val else pics.slave.imr.getLsbD (line.val - 8)

/-- The last call that names the line, if any does. -/
def lastCall (line : Fin 16) (calls : List MaskCall) : Option MaskCall :=
  (calls.filter (fun call => call.line = line)).getLast?

/-- What the driver's header promises: every line starts masked, and afterwards
exactly the lines last named by an unmasking call are unmasked. -/
structure OnlyAskedUnmasked (pics : Pics) (calls : List MaskCall) : Prop where
  start : ∀ line, (picInit pics).masked line = true
  after : ∀ line, (calls.foldl maskCall (picInit pics)).masked line = false ↔
    lastCall line calls = some (.clearMask line)

/-- Both chips take the next write to the data port as a mask. -/
def Pics.Ready (pics : Pics) : Prop := pics.master.phase = .ready ∧ pics.slave.phase = .ready

/-- The mask after one call: the named line gets its new value, the others keep theirs. -/
def MaskCall.effect (call : MaskCall) (line : Fin 16) (before : Bool) : Bool :=
  if call.line = line then decide (call = .setMask line) else before

theorem lineBit (inside : n < 8) (bound : i < 8) :
    ((1#32 <<< n).setWidth 8).getLsbD i = decide (n = i) := by
  rw [BitVec.getLsbD_setWidth, ← BitVec.twoPow_eq, BitVec.getLsbD_twoPow]
  simp [bound, show n < 32 by omega]

theorem setMask_bit (imr : BitVec 8) (inside : n < 8) (bound : i < 8) :
    (imr ||| (1#32 <<< n).setWidth 8).getLsbD i = if n = i then true else imr.getLsbD i := by
  rw [BitVec.getLsbD_or, lineBit inside bound]
  by_cases same : n = i
  · simp [same]
  · simp [same]

theorem clearMask_bit (imr : BitVec 8) (inside : n < 8) (bound : i < 8) :
    (imr &&& (~~~(1#32 <<< n)).setWidth 8).getLsbD i = if n = i then false else imr.getLsbD i := by
  rw [BitVec.setWidth_not (by decide), BitVec.getLsbD_and, BitVec.getLsbD_not, lineBit inside bound]
  by_cases same : n = i
  · simp [same]
  · simp [same, bound]

theorem maskPort_line (line : Fin 16) :
    maskPort (BitVec.ofNat 8 line.val) = if line.val < 8 then (picMasterData, BitVec.ofNat 8 line.val)
      else (picSlaveData, BitVec.ofNat 8 (line.val - 8)) := by
  revert line
  decide

theorem Chip.data_ready {chip : Chip} (ready : chip.phase = .ready) (val : BitVec 8) :
    chip.data val = { chip with imr := val } := by
  rw [Chip.data, ready]

/-- A read-modify-write of a line's mask register that changes the line's bit
alone changes that line alone, on either chip. -/
theorem Pics.Ready.rewrite {pics : Pics} (ready : pics.Ready) (change : BitVec 8 → Nat → BitVec 8)
    (value : Bool) (bits : ∀ (imr : BitVec 8) (n i : Nat), n < 8 → i < 8 →
      (change imr n).getLsbD i = if n = i then value else imr.getLsbD i) (line other : Fin 16) :
    let port := maskPort (BitVec.ofNat 8 line.val)
    let after := outb port.1 (change (inb port.1 pics) port.2.toNat) pics
    after.Ready ∧ after.masked other = if line = other then value else pics.masked other := by
  obtain ⟨master, slave⟩ := pics
  obtain ⟨masterReady, slaveReady⟩ := ready
  rw [maskPort_line]
  by_cases low : line.val < 8
  · have number : (BitVec.ofNat 8 line.val).toNat = line.val := Nat.mod_eq_of_lt (by omega)
    have written : outb picMasterData (change (inb picMasterData ⟨master, slave⟩) line.val) ⟨master, slave⟩ =
        ⟨{ master with imr := change master.imr line.val }, slave⟩ :=
      congrArg (Pics.mk · slave) (Chip.data_ready masterReady _)
    simp only [if_pos low, number, written]
    refine ⟨⟨masterReady, slaveReady⟩, ?_⟩
    unfold Pics.masked
    by_cases side : other.val < 8
    · rw [if_pos side, if_pos side, bits _ _ _ low side]
      exact if_congr Fin.ext_iff.symm rfl rfl
    · have different : line ≠ other := fun same => side (same ▸ low)
      rw [if_neg side, if_neg side, if_neg different]
  · have high : line.val - 8 < 8 := by omega
    have number : (BitVec.ofNat 8 (line.val - 8)).toNat = line.val - 8 := Nat.mod_eq_of_lt (by omega)
    have written : outb picSlaveData (change (inb picSlaveData ⟨master, slave⟩) (line.val - 8)) ⟨master, slave⟩ =
        ⟨master, { slave with imr := change slave.imr (line.val - 8) }⟩ :=
      congrArg (Pics.mk master) (Chip.data_ready slaveReady _)
    simp only [if_neg low, number, written]
    refine ⟨⟨masterReady, slaveReady⟩, ?_⟩
    unfold Pics.masked
    by_cases side : other.val < 8
    · have different : line ≠ other := fun same => low (same ▸ side)
      rw [if_pos side, if_pos side, if_neg different]
    · rw [if_neg side, if_neg side, bits _ _ _ high (by omega)]
      refine if_congr ?_ rfl rfl
      rw [Fin.ext_iff]
      omega

theorem maskCall_effect {pics : Pics} (ready : pics.Ready) (call : MaskCall) :
    (maskCall pics call).Ready ∧
      ∀ line, (maskCall pics call).masked line = call.effect line (pics.masked line) := by
  cases call with
  | setMask named =>
    have changed := ready.rewrite (fun imr n => imr ||| (1#32 <<< n).setWidth 8) true
      (fun imr n i => setMask_bit imr) named
    refine ⟨(changed named).1, ?_⟩
    intro line
    refine (changed line).2.trans ?_
    by_cases same : named = line
    · simp [MaskCall.effect, MaskCall.line, same]
    · simp [MaskCall.effect, MaskCall.line, same]
  | clearMask named =>
    have changed := ready.rewrite (fun imr n => imr &&& (~~~(1#32 <<< n)).setWidth 8) false
      (fun imr n i => clearMask_bit imr) named
    refine ⟨(changed named).1, ?_⟩
    intro line
    refine (changed line).2.trans ?_
    by_cases same : named = line
    · simp [MaskCall.effect, MaskCall.line, same]
    · simp [MaskCall.effect, MaskCall.line, same]

theorem lastCall_append (line : Fin 16) (calls : List MaskCall) (call : MaskCall) :
    lastCall line (calls ++ [call]) = if call.line = line then some call else lastCall line calls := by
  unfold lastCall
  by_cases named : call.line = line
  · simp [List.filter_append, named]
  · simp [List.filter_append, named]

/-- After any calls, a line has the value its last call gave it, or the one it started with. -/
theorem maskCalls_masked {pics : Pics} (ready : pics.Ready) (calls : List MaskCall) :
    (calls.foldl maskCall pics).Ready ∧ ∀ line, (calls.foldl maskCall pics).masked line =
      match lastCall line calls with
      | some call => decide (call = .setMask line)
      | none => pics.masked line := by
  induction calls using List.reverseRecOn with
  | nil => exact ⟨ready, fun line => rfl⟩
  | append_singleton calls call ih =>
    obtain ⟨kept, values⟩ := ih
    obtain ⟨still, changed⟩ := maskCall_effect kept call
    rw [List.foldl_append]
    refine ⟨still, ?_⟩
    intro line
    refine (changed line).trans ?_
    rw [lastCall_append, values line]
    by_cases named : call.line = line
    · simp [MaskCall.effect, named]
    · simp [MaskCall.effect, named]

theorem lastCall_line {line : Fin 16} {calls : List MaskCall} {call : MaskCall}
    (last : lastCall line calls = some call) : call = .setMask line ∨ call = .clearMask line := by
  have member := List.mem_filter.mp (List.mem_of_getLast? last)
  have named : call.line = line := of_decide_eq_true member.2
  cases call with
  | setMask other => exact .inl (congrArg MaskCall.setMask named)
  | clearMask other => exact .inr (congrArg MaskCall.clearMask named)

/-- A line is as the drivers asked when one of them named it or the firmware had masked it. -/
theorem unmasked_iff_asked (pics : Pics) (calls : List MaskCall) (line : Fin 16) :
    ((calls.foldl maskCall (picInit pics)).masked line = false ↔ lastCall line calls = some (.clearMask line)) ↔
      lastCall line calls ≠ none ∨ pics.masked line = true := by
  obtain ⟨-, -, masterReady, slaveReady, -, -⟩ := picInit_effect pics
  have start : (picInit pics).masked line = pics.masked line := rfl
  rw [(maskCalls_masked ⟨masterReady, slaveReady⟩ calls).2 line]
  cases last : lastCall line calls with
  | none => simp [start]
  | some call =>
    rcases lastCall_line last with set | clear
    · simp [set]
    · simp [clear]

/-- The remap restores the firmware's masks, so the promise holds exactly when
the firmware had masked every line. -/
theorem only_asked_unmasked_iff (pics : Pics) (calls : List MaskCall) :
    OnlyAskedUnmasked pics calls ↔ ∀ line, pics.masked line = true := by
  constructor
  · intro promised
    exact promised.start
  · intro masked
    refine ⟨masked, ?_⟩
    intro line
    exact (unmasked_iff_asked pics calls line).mpr (.inr (masked line))

/-- Firmware that left lines 0, 1, 2 and 6 open, as a PC with a floppy drive does. -/
def firmwarePics : Pics :=
  ⟨⟨0#8, 0#8, 0xB8#8, false, .ready, 0x08#8⟩, ⟨0#8, 0#8, 0xFF#8, false, .ready, 0x70#8⟩⟩

/-- The calls of `interrupts_init`, `pit_init` and `keyboard_init` leave line 6
open, which none of them names. -/
theorem firmware_line_left_open :
    ([MaskCall.clearMask 2, .clearMask 0, .clearMask 1].foldl maskCall (picInit firmwarePics)).masked 6 = false ∧
    lastCall 6 [.clearMask 2, .clearMask 0, .clearMask 1] = none ∧
    ¬ OnlyAskedUnmasked firmwarePics [.clearMask 2, .clearMask 0, .clearMask 1] := by
  refine ⟨by decide, by decide, ?_⟩
  intro promised
  have start := promised.start 6
  revert start
  decide

end AstraOS.Interrupts
