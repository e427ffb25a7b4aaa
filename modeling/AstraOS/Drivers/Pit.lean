import AstraOS.Foundation.Run
import Mathlib.Algebra.Order.Group.Nat

/-! The timer's tick counter and `pit_sleep_ms`. The sleeping code and the timer
interrupt share only the counter, so every interleaving of the two is a run. -/

namespace AstraOS.Drivers
open AstraOS.Foundation

def pitFrequencyHz : Nat := 100

def pitBaseHz : Nat := 1193180

def pitDivisor : BitVec 16 := BitVec.ofNat 16 (pitBaseHz / pitFrequencyHz)

def pitChannel0 : BitVec 16 := 0x40#16
def pitCmd : BitVec 16 := 0x43#16
def pitCmdByte : BitVec 8 := 0x36#8

/-- Channel 0 of the timer chip, as far as a low and a high byte program it. -/
structure Timer where
  command : BitVec 8
  lowByte : Option (BitVec 8)
  reload : Option (BitVec 16)
deriving DecidableEq

/-- A command for the channel starts over; then the count comes in two bytes. -/
def Timer.outb (port : BitVec 16) (val : BitVec 8) (timer : Timer) : Timer :=
  if port = pitCmd then
    if val.extractLsb' 6 2 = 0#2 then ⟨val, none, none⟩ else timer
  else if port = pitChannel0 then
    match timer.lowByte with
    | none => { timer with lowByte := some val }
    | some low => { timer with lowByte := none, reload := some (val ++ low) }
  else timer

/-- The port writes of `pit_init`. -/
def pitProgram (timer : Timer) : Timer :=
  timer |>.outb pitCmd pitCmdByte
    |>.outb pitChannel0 ((pitDivisor &&& 0xFF#16).setWidth 8)
    |>.outb pitChannel0 (((pitDivisor >>> 8) &&& 0xFF#16).setWidth 8)

/-- Whatever the timer was doing, it then counts the whole divisor in mode 3. -/
theorem pitProgram_reload (timer : Timer) : pitProgram timer = ⟨pitCmdByte, none, some pitDivisor⟩ := rfl

def pitIrq0Handler (ticks : BitVec 32) : BitVec 32 := ticks + 1#32

/-- The conversion of `pit_sleep_ms`, in 32-bit arithmetic. -/
def ticksNeeded (ms : BitVec 32) : BitVec 32 :=
  (ms * BitVec.ofNat 32 pitFrequencyHz + 999#32) / 1000#32

/-- The signed difference is read across a wrap of the counter. -/
def beforeEnd (endTicks ticks : BitVec 32) : Bool := decide (0 < (endTicks - ticks).toInt)

/-- Where `pit_sleep_ms` stands: each read of the volatile counter is a step of
its own, and so is the halt after a successful test. -/
inductive SleepPoint where
  | called (ms : BitVec 32)
  | converted (needed : BitVec 32)
  | testing (endTicks : BitVec 32)
  | halting (endTicks : BitVec 32)
  | halted (endTicks : BitVec 32)
  | returned
deriving DecidableEq

structure SleepState where
  ticks : BitVec 32
  point : SleepPoint
deriving DecidableEq

inductive SleepEvent where
  | irq0
  | otherIrq
  | step
deriving DecidableEq

/-- Any interrupt ends a halt. -/
def SleepPoint.wake : SleepPoint → SleepPoint
  | .called ms => .called ms
  | .converted needed => .converted needed
  | .testing endTicks => .testing endTicks
  | .halting endTicks => .halting endTicks
  | .halted endTicks => .testing endTicks
  | .returned => .returned

/-- The next step of the sleeping code; a halted or finished one has none. -/
def pitSleepMs (ticks : BitVec 32) : SleepPoint → Option SleepPoint
  | .called ms => some (.converted (ticksNeeded ms))
  | .converted needed => some (.testing (ticks + needed))
  | .testing endTicks => some (if beforeEnd endTicks ticks then .halting endTicks else .returned)
  | .halting endTicks => some (.halted endTicks)
  | .halted _ => none
  | .returned => none

def SleepStep (state : SleepState) (event : SleepEvent) (after : SleepState) : Prop :=
  match event with
  | .irq0 => after = ⟨pitIrq0Handler state.ticks, state.point.wake⟩
  | .otherIrq => after = ⟨state.ticks, state.point.wake⟩
  | .step => pitSleepMs state.ticks state.point = some after.point ∧ after.ticks = state.ticks

/-- The ticks in a duration, rounded up, in exact integers. -/
def exactTicks (ms : BitVec 32) : Nat := (ms.toNat * pitFrequencyHz + 999) / 1000

/-- From these ticks, no run returns before the exact number of increments. -/
def NeverEarly (ticks ms : BitVec 32) : Prop :=
  ∀ events state, Run SleepStep ⟨ticks, .called ms⟩ events state → state.point = .returned →
    exactTicks ms ≤ events.count .irq0

theorem ticksNeeded_toNat (ms : BitVec 32) :
    (ticksNeeded ms).toNat = (ms.toNat * 100 + 999) % 4294967296 / 1000 := by
  unfold ticksNeeded
  rw [BitVec.toNat_udiv, BitVec.toNat_add, BitVec.toNat_mul]
  show (ms.toNat * 100 % 4294967296 + 999) % 4294967296 / 1000 = _
  omega

/-- The conversion never asks for more than 4294967 ticks, for any duration. -/
theorem ticksNeeded_small (ms : BitVec 32) : (ticksNeeded ms).toNat < 2147483648 := by
  rw [ticksNeeded_toNat]
  omega

/-- Rounding up: the least number of ticks that covers the duration. -/
theorem exactTicks_le_iff (ms : BitVec 32) (n : Nat) :
    exactTicks ms ≤ n ↔ ms.toNat * pitFrequencyHz ≤ n * 1000 := by
  unfold exactTicks
  omega

/-- Until half the counter's range after the deadline, the signed test tells
whether enough increments have happened since the deadline was set. -/
theorem beforeEnd_iff (start needed : BitVec 32) (passed : Nat) (small : needed.toNat < 2147483648)
    (recent : passed < needed.toNat + 2147483648) :
    beforeEnd (start + needed) (start + BitVec.ofNat 32 passed) = true ↔ passed < needed.toNat := by
  have moved : start + needed - (start + BitVec.ofNat 32 passed) = needed - BitVec.ofNat 32 passed := by
    bv_omega
  have difference : (needed - BitVec.ofNat 32 passed).toNat =
      (4294967296 - passed % 4294967296 + needed.toNat) % 4294967296 := by
    rw [BitVec.toNat_sub, BitVec.toNat_ofNat]
  unfold beforeEnd
  rw [moved, decide_eq_true_iff, BitVec.toInt_eq_toNat_cond, difference]
  split
  · omega
  · omega

/-- What a sleep knows after `passed` increments: the deadline was set at some
earlier increment, and a return has waited for all of them. -/
def SleepPoint.Waits (start needed : BitVec 32) (passed : Nat) : SleepPoint → Prop
  | .called ms => ticksNeeded ms = needed
  | .converted computed => computed = needed
  | .testing endTicks => ∃ earlier ≤ passed, endTicks = start + BitVec.ofNat 32 earlier + needed
  | .halting endTicks => ∃ earlier ≤ passed, endTicks = start + BitVec.ofNat 32 earlier + needed
  | .halted endTicks => ∃ earlier ≤ passed, endTicks = start + BitVec.ofNat 32 earlier + needed
  | .returned => needed.toNat ≤ passed

theorem SleepPoint.Waits.later {start needed : BitVec 32} {point : SleepPoint} {more : Nat}
    (held : point.Waits start needed passed) (later : passed ≤ more) : point.wake.Waits start needed more := by
  have extended : ∀ endTicks, (∃ earlier ≤ passed, endTicks = start + BitVec.ofNat 32 earlier + needed) →
      ∃ earlier ≤ more, endTicks = start + BitVec.ofNat 32 earlier + needed := by
    rintro endTicks ⟨earlier, bound, same⟩
    exact ⟨earlier, bound.trans later, same⟩
  cases point with
  | called ms => exact held
  | converted computed => exact held
  | testing endTicks => exact extended endTicks held
  | halting endTicks => exact extended endTicks held
  | halted endTicks => exact extended endTicks held
  | returned => exact le_trans held later

/-- The step lemma: the sleeping code moves on only after enough increments. -/
theorem SleepPoint.Waits.step {start needed : BitVec 32} {point next : SleepPoint} {passed : Nat}
    (small : needed.toNat < 2147483648) (held : point.Waits start needed passed)
    (taken : pitSleepMs (start + BitVec.ofNat 32 passed) point = some next) :
    next.Waits start needed passed := by
  cases point with
  | called ms =>
    cases taken
    exact held
  | converted computed =>
    cases taken
    cases held
    exact ⟨passed, le_rfl, rfl⟩
  | testing endTicks =>
    obtain ⟨earlier, bound, rfl⟩ := held
    simp only [pitSleepMs, Option.some.injEq] at taken
    split at taken
    · cases taken
      exact ⟨earlier, bound, rfl⟩
    · rename_i expired
      cases taken
      have now : start + BitVec.ofNat 32 passed =
          start + BitVec.ofNat 32 earlier + BitVec.ofNat 32 (passed - earlier) := by
        rw [BitVec.add_assoc, ← BitVec.ofNat_add, Nat.add_sub_of_le bound]
      by_contra early
      have wanted : passed - earlier < needed.toNat := by
        simp only [SleepPoint.Waits] at early
        omega
      rw [now] at expired
      exact expired ((beforeEnd_iff _ needed (passed - earlier) small (by omega)).mpr wanted)
  | halting endTicks =>
    cases taken
    exact held
  | halted endTicks => cases taken
  | returned => cases taken

/-- Only the timer interrupt moves the counter. -/
theorem SleepStep.ticks {state after : SleepState} (taken : SleepStep state event after)
    (counted : state.ticks = start + BitVec.ofNat 32 (earlier.count .irq0)) :
    after.ticks = start + BitVec.ofNat 32 ((earlier ++ [event]).count .irq0) := by
  rw [List.count_append]
  cases event with
  | irq0 =>
    cases taken
    rw [pitIrq0Handler, counted, BitVec.add_assoc, ← BitVec.ofNat_add]
    rfl
  | otherIrq =>
    cases taken
    exact counted
  | step => exact taken.2.trans counted

/-- The run lemma: whenever the sleep is over, enough increments have happened. -/
theorem sleep_waits (ticks ms : BitVec 32) (run : Run SleepStep ⟨ticks, .called ms⟩ events state) :
    state.ticks = ticks + BitVec.ofNat 32 (events.count .irq0) ∧
      state.point.Waits ticks (ticksNeeded ms) (events.count .irq0) := by
  refine run.invariant (fun events state => state.ticks = ticks + BitVec.ofNat 32 (events.count .irq0) ∧
    state.point.Waits ticks (ticksNeeded ms) (events.count .irq0)) ⟨by simp, rfl⟩ ?_
  rintro earlier state event after ⟨counted, held⟩ taken
  refine ⟨taken.ticks counted, ?_⟩
  rw [List.count_append]
  cases event with
  | irq0 =>
    cases taken
    exact held.later (Nat.le_add_right _ 1)
  | otherIrq =>
    cases taken
    exact held.later le_rfl
  | step =>
    have moved := taken.1
    rw [counted] at moved
    exact held.step (ticksNeeded_small ms) moved

/-- The timer may fire any number of times between two steps. -/
theorem run_irq0 {point : SleepPoint} (awake : point.wake = point)
    (run : Run SleepStep origin events ⟨ticks, point⟩) (count : Nat) :
    Run SleepStep origin (events ++ List.replicate count .irq0) ⟨ticks + BitVec.ofNat 32 count, point⟩ := by
  have current : Run SleepStep origin events ⟨ticks + BitVec.ofNat 32 0, point⟩ := by simpa using run
  refine current.replicate (fun k => SleepState.mk (ticks + BitVec.ofNat 32 k) point) ?_ count
  intro k
  rw [SleepStep, awake, pitIrq0Handler, BitVec.add_assoc, ← BitVec.ofNat_add]

/-- Some run waits for exactly the number of increments that was computed. -/
theorem sleep_returns (ticks ms : BitVec 32) :
    ∃ events state, Run SleepStep ⟨ticks, .called ms⟩ events state ∧ state.point = .returned ∧
      events.count .irq0 = (ticksNeeded ms).toNat := by
  have converted : Run SleepStep ⟨ticks, .called ms⟩ ([] ++ [.step]) ⟨ticks, .converted (ticksNeeded ms)⟩ :=
    .next .start ⟨rfl, rfl⟩
  have set : Run SleepStep ⟨ticks, .called ms⟩ ([] ++ [.step] ++ [.step]) ⟨ticks, .testing (ticks + ticksNeeded ms)⟩ :=
    .next converted ⟨rfl, rfl⟩
  have waited := run_irq0 rfl set (ticksNeeded ms).toNat
  have expired : beforeEnd (ticks + ticksNeeded ms) (ticks + BitVec.ofNat 32 (ticksNeeded ms).toNat) = false := by
    rw [BitVec.ofNat_toNat, BitVec.setWidth_eq, beforeEnd, BitVec.sub_self]
    decide
  have moved : pitSleepMs (ticks + BitVec.ofNat 32 (ticksNeeded ms).toNat) (.testing (ticks + ticksNeeded ms)) =
      some .returned := by
    rw [pitSleepMs, expired]
    rfl
  have final : Run SleepStep ⟨ticks, .called ms⟩
      ([] ++ [.step] ++ [.step] ++ List.replicate (ticksNeeded ms).toNat .irq0 ++ [.step])
      ⟨ticks + BitVec.ofNat 32 (ticksNeeded ms).toNat, .returned⟩ := .next waited ⟨moved, rfl⟩
  refine ⟨_, _, final, rfl, ?_⟩
  simp

/-- A sleep waits long enough exactly when its conversion does not wrap. -/
theorem sleep_never_early_iff (ticks ms : BitVec 32) :
    NeverEarly ticks ms ↔ ms.toNat * pitFrequencyHz + 999 < 2 ^ 32 := by
  have bound : ms.toNat < 4294967296 := ms.isLt
  have computed := ticksNeeded_toNat ms
  constructor
  · intro waits
    obtain ⟨events, state, run, returned, counted⟩ := sleep_returns ticks ms
    have enough := waits events state run returned
    rw [exactTicks_le_iff, counted, computed] at enough
    have covered : ms.toNat * 100 ≤ (ms.toNat * 100 + 999) % 4294967296 / 1000 * 1000 := enough
    by_contra large
    have wraps : 4294967296 ≤ ms.toNat * 100 + 999 := Nat.not_lt.mp large
    have lost : (ms.toNat * 100 + 999) % 4294967296 ≤ ms.toNat * 100 + 999 - 4294967296 := by
      rw [Nat.mod_eq_sub_mod wraps]
      exact Nat.mod_le _ _
    generalize (ms.toNat * 100 + 999) % 4294967296 = kept at lost covered
    omega
  · intro fits events state run returned
    have inside : ms.toNat * 100 + 999 < 4294967296 := fits
    rw [Nat.mod_eq_of_lt inside] at computed
    obtain ⟨-, held⟩ := sleep_waits ticks ms run
    rw [returned] at held
    show (ms.toNat * 100 + 999) / 1000 ≤ _
    rw [← computed]
    exact held

/-- A sleep of 42949663 ms, about twelve hours, returns before any tick. -/
theorem long_sleep_returns_at_once :
    Run SleepStep ⟨0#32, .called 42949663#32⟩ ([] ++ [.step] ++ [.step] ++ [.step]) ⟨0#32, .returned⟩ ∧
    ¬ NeverEarly 0#32 42949663#32 := by
  have converted : Run SleepStep ⟨0#32, .called 42949663#32⟩ ([] ++ [.step]) ⟨0#32, .converted 0#32⟩ :=
    .next .start ⟨by decide, rfl⟩
  have set : Run SleepStep ⟨0#32, .called 42949663#32⟩ ([] ++ [.step] ++ [.step]) ⟨0#32, .testing 0#32⟩ :=
    .next converted ⟨by decide, rfl⟩
  have final : Run SleepStep ⟨0#32, .called 42949663#32⟩ ([] ++ [.step] ++ [.step] ++ [.step]) ⟨0#32, .returned⟩ :=
    .next set ⟨by decide, rfl⟩
  refine ⟨final, ?_⟩
  intro waits
  have enough := waits _ _ final rfl
  rw [exactTicks_le_iff] at enough
  revert enough
  decide

/-- Once the deadline is set, the loop keeps it until it returns. -/
def SleepPoint.Until (endTicks : BitVec 32) : SleepPoint → Prop
  | .called _ => False
  | .converted _ => False
  | .testing deadline => deadline = endTicks
  | .halting deadline => deadline = endTicks
  | .halted deadline => deadline = endTicks
  | .returned => True

theorem SleepPoint.Until.wake {point : SleepPoint} (held : point.Until endTicks) : point.wake.Until endTicks := by
  cases point with
  | called ms => exact held
  | converted needed => exact held
  | testing deadline => exact held
  | halting deadline => exact held
  | halted deadline => exact held
  | returned => trivial

theorem SleepPoint.Until.step {point next : SleepPoint} (held : point.Until endTicks)
    (taken : pitSleepMs ticks point = some next) : next.Until endTicks := by
  cases point with
  | called ms => exact held.elim
  | converted needed => exact held.elim
  | testing deadline =>
    simp only [pitSleepMs, Option.some.injEq] at taken
    split at taken
    · cases taken
      exact held
    · cases taken
      trivial
  | halting deadline =>
    cases taken
    exact held
  | halted deadline => cases taken
  | returned => cases taken

/-- The counter and the deadline at every point of the loop. -/
theorem sleep_until (start endTicks : BitVec 32) (run : Run SleepStep ⟨start, .testing endTicks⟩ events state) :
    state.ticks = start + BitVec.ofNat 32 (events.count .irq0) ∧ state.point.Until endTicks := by
  refine run.invariant (fun events state => state.ticks = start + BitVec.ofNat 32 (events.count .irq0) ∧
    state.point.Until endTicks) ⟨by simp, rfl⟩ ?_
  rintro earlier state event after ⟨counted, held⟩ taken
  refine ⟨taken.ticks counted, ?_⟩
  cases event with
  | irq0 =>
    cases taken
    exact held.wake
  | otherIrq =>
    cases taken
    exact held.wake
  | step => exact held.step taken.1

/-- The loop test is exact until half the counter's range after the deadline:
as a test of two counter values, and as the branch taken in any run from the
setting of the deadline on, wherever the counter has wrapped. -/
theorem deadline_test_exact (start ms : BitVec 32) (passed : Nat)
    (recent : passed < (ticksNeeded ms).toNat + 2 ^ 31) :
    (beforeEnd (start + ticksNeeded ms) (start + BitVec.ofNat 32 passed) = true ↔ passed < (ticksNeeded ms).toNat) ∧
    ∀ deadline events state endTicks, pitSleepMs start (.converted (ticksNeeded ms)) = some deadline →
      Run SleepStep ⟨start, deadline⟩ events state → events.count .irq0 = passed → state.point = .testing endTicks →
      pitSleepMs state.ticks state.point =
        some (if passed < (ticksNeeded ms).toNat then .halting endTicks else .returned) := by
  have exact := beforeEnd_iff start (ticksNeeded ms) passed (ticksNeeded_small ms) recent
  refine ⟨exact, ?_⟩
  intro deadline events state endTicks set run counted testing
  cases set
  obtain ⟨ticks, held⟩ := sleep_until start _ run
  rw [testing] at held
  obtain rfl : endTicks = start + ticksNeeded ms := held
  rw [testing, ticks, counted, pitSleepMs]
  exact congrArg some (if_congr exact rfl rfl)

/-- A sleep of one second set 50 ticks before the counter wraps, 30 and 120 ticks later. -/
theorem deadline_test_exact_wrapping :
    beforeEnd (0xFFFFFFCE#32 + ticksNeeded 1000#32) (0xFFFFFFCE#32 + BitVec.ofNat 32 30) = true ∧
      ¬ beforeEnd (0xFFFFFFCE#32 + ticksNeeded 1000#32) (0xFFFFFFCE#32 + BitVec.ofNat 32 120) = true :=
  ⟨(deadline_test_exact 0xFFFFFFCE#32 1000#32 30 (by decide)).1.mpr (by decide),
    mt (deadline_test_exact 0xFFFFFFCE#32 1000#32 120 (by decide)).1.mp (by decide)⟩

end AstraOS.Drivers
