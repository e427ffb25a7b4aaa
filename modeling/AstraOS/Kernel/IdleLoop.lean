import AstraOS.Drivers.Keyboard
import AstraOS.Kernel.Uptime
import Mathlib.Data.List.Chain

/-! The idle loop of `kernel_main` as a system: its rounds interleaved with the
timer and keyboard interrupts, for any length of time. -/

namespace AstraOS.Kernel
open AstraOS.Foundation AstraOS.Drivers

/-- The characters up to the NUL; running into a cell that was never written is a fault. -/
def readString : List (Option (BitVec 8)) → Option (List (BitVec 8))
  | [] => none
  | none :: _ => none
  | some c :: rest => if c = 0#8 then some [] else (readString rest).map (c :: ·)

def tickPrefix : List (BitVec 8) :=
  ['[', 'T', 'I', 'C', 'K', ']', ' ', 'u', 'p', 't', 'i', 'm', 'e', '='].map ascii

/-- An uptime report: its value and the text handed to `serial_puts`. -/
structure Report where
  sec : BitVec 32
  line : List (BitVec 8)
deriving DecidableEq

/-- The first half of a round: read the counter and report a new second. The
result is the new `last_sec` and the report, if there is one. -/
def uptimeReport (ticks lastSec : BitVec 32) : Option (BitVec 32 × Option Report) :=
  let sec := ticks / BitVec.ofNat 32 pitFrequencyHz
  if sec ≠ lastSec then do
    let out ← uptimeBuffer sec
    let text ← readString out.buf.toList
    some (sec, some ⟨sec, tickPrefix ++ text⟩)
  else some (lastSec, none)

/-- The second half: echo a waiting key. -/
def echoInput (kb : Keyboard) : Option (Keyboard × Option (BitVec 8)) :=
  if keyboardPoll kb ≠ 0#32 then do
    let (c, kb) ← keyboardGetchar kb
    if c ≠ 0#8 then some (kb, some c) else some (kb, none)
  else some (kb, none)

inductive IdlePoint where
  | reading
  | echoing
deriving DecidableEq

structure IdleState where
  ticks : BitVec 32
  lastSec : BitVec 32
  kb : Keyboard
  point : IdlePoint
deriving DecidableEq

inductive IdleEvent where
  | irq0
  | irq1 (sc : BitVec 8)
  | report (report : Option Report)
  | echo (c : Option (BitVec 8))
deriving DecidableEq

/-- Interrupts come at any time; a round reads the counter and then echoes. -/
inductive IdleStep : IdleState → IdleEvent → IdleState → Prop where
  | irq0 {state : IdleState} : IdleStep state .irq0 { state with ticks := pitIrq0Handler state.ticks }
  | irq1 {state : IdleState} {kb : Keyboard} {sc : BitVec 8}
      (handled : keyboardIrq1Handler sc state.kb = some kb) : IdleStep state (.irq1 sc) { state with kb := kb }
  | report {state : IdleState} {lastSec : BitVec 32} {report : Option Report} (ready : state.point = .reading)
      (reported : uptimeReport state.ticks state.lastSec = some (lastSec, report)) :
      IdleStep state (.report report) { state with lastSec := lastSec, point := .echoing }
  | echo {state : IdleState} {kb : Keyboard} {c : Option (BitVec 8)} (ready : state.point = .echoing)
      (echoed : echoInput state.kb = some (kb, c)) :
      IdleStep state (.echo c) { state with kb := kb, point := .reading }

/-- The reads of the counter: how many ticks there had been, and what was reported. -/
def readsFrom (count : Nat) : List IdleEvent → List (Nat × Option Report)
  | [] => []
  | .irq0 :: rest => readsFrom (count + 1) rest
  | .irq1 _ :: rest => readsFrom count rest
  | .report report :: rest => (count, report) :: readsFrom count rest
  | .echo _ :: rest => readsFrom count rest

def tickCount (events : List IdleEvent) : Nat := events.count .irq0

def readTimes (events : List IdleEvent) : List Nat := (readsFrom 0 events).map Prod.fst

/-- The reports with the true number of ticks at the read behind each. -/
def reports (events : List IdleEvent) : List (Nat × Report) :=
  (readsFrom 0 events).filterMap fun read => read.2.map (read.1, ·)

def tickLine (sec : Nat) : List (BitVec 8) := tickPrefix ++ uintText 10 false sec ++ [ascii 's', ascii '\n']

/-- Every report gives the whole seconds since boot, and the values increase. -/
structure HonestUptime (events : List IdleEvent) : Prop where
  exact : ∀ entry ∈ reports events, entry.2.sec.toNat = entry.1 / pitFrequencyHz ∧
    entry.2.line = tickLine (entry.1 / pitFrequencyHz)
  increasing : ((reports events).map fun entry => entry.2.sec.toNat).Pairwise (· < ·)

/-- The second that the 32-bit counter shows after so many ticks. -/
def shownSecond (count : Nat) : Nat := count % 2 ^ 32 / pitFrequencyHz

/-- Each read comes before the counter's first wrap, or shows the same second as the read before it. -/
def SteadyPastWrap (events : List IdleEvent) : Prop :=
  (0 :: readTimes events).IsChain fun previous count =>
    count < 2 ^ 32 ∨ shownSecond count = shownSecond previous

theorem readsFrom_append (count : Nat) (earlier later : List IdleEvent) :
    readsFrom count (earlier ++ later) = readsFrom count earlier ++ readsFrom (count + tickCount earlier) later := by
  induction earlier generalizing count with
  | nil => rfl
  | cons event rest ih =>
    cases event with
    | irq0 =>
      have counted : tickCount (.irq0 :: rest) = tickCount rest + 1 := List.count_cons_self
      rw [List.cons_append, readsFrom, ih, counted, readsFrom, Nat.add_right_comm, Nat.add_assoc]
    | irq1 sc => exact ih count
    | report report =>
      rw [List.cons_append, readsFrom, ih, readsFrom]
      rfl
    | echo c => exact ih count

theorem tickCount_append (earlier later : List IdleEvent) :
    tickCount (earlier ++ later) = tickCount earlier + tickCount later := List.count_append

theorem readString_text {text rest : List (BitVec 8)} (nonzero : 0#8 ∉ text) (cells : List (Option (BitVec 8))) :
    readString ((text ++ 0#8 :: rest).map some ++ cells) = some text := by
  induction text with
  | nil => rfl
  | cons c text ih =>
    rw [List.mem_cons, not_or] at nonzero
    have later := ih nonzero.2
    rw [List.cons_append, List.map_cons, List.cons_append, readString, if_neg (Ne.symm nonzero.1), later]
    rfl

theorem uptimeText_nonzero (sec : Nat) : 0#8 ∉ uintText 10 false sec ++ [ascii 's', ascii '\n'] := by
  have digits := (uintText_canonical false sec (show 2 ≤ 10 by decide) (by decide)).digits
  intro member
  rcases List.mem_append.mp member with digit | tail
  · exact absurd (digits _ digit) (by decide)
  · exact absurd tail (by decide)

/-- What the first half of a round does, without its buffer. -/
theorem uptimeReport_eq (ticks lastSec : BitVec 32) :
    uptimeReport ticks lastSec = some (ticks / 100#32,
      if ticks / 100#32 = lastSec then none
      else some ⟨ticks / 100#32, tickLine (ticks / 100#32).toNat⟩) := by
  have divisor : BitVec.ofNat 32 pitFrequencyHz = 100#32 := rfl
  unfold uptimeReport
  rw [divisor]
  by_cases same : ticks / 100#32 = lastSec
  · simp [same]
  · obtain ⟨out, finished, -, filled⟩ := uptimeBuffer_text (ticks / 100#32)
    have text : readString out.buf.toList =
        some (uintText 10 false (ticks / 100#32).toNat ++ [ascii 's', ascii '\n']) := by
      obtain ⟨cells, contents⟩ := filled.toList
      have split (digits : List (BitVec 8)) :
          digits ++ [ascii 's', ascii '\n', 0#8] = (digits ++ [ascii 's', ascii '\n']) ++ 0#8 :: [] := by simp
      rw [contents, split]
      exact readString_text (uptimeText_nonzero _) cells
    simp [same, finished, text, tickLine]

/-- The tick count of the last read, zero before the first. -/
def lastRead (events : List IdleEvent) : Nat := (readTimes events).getLast?.getD 0

/-- What a run keeps: the counter and `last_sec` follow the true tick counts. -/
structure Tracks (events : List IdleEvent) (state : IdleState) : Prop where
  ticks : state.ticks.toNat = tickCount events % 2 ^ 32
  last : state.lastSec.toNat = shownSecond (lastRead events)
  behind : lastRead events ≤ tickCount events
  earlier : ∀ entry ∈ reports events, entry.1 ≤ lastRead events
  honest : HonestUptime events ↔ SteadyPastWrap events

theorem Tracks.initial (kb : Keyboard) : Tracks [] ⟨0#32, 0#32, kb, .reading⟩ := by
  refine ⟨rfl, rfl, le_rfl, fun entry member => (by cases member), ?_⟩
  exact iff_of_true ⟨fun entry member => (by cases member), .nil⟩ (.singleton 0)

/-- An event that reads nothing adds nothing to the reports. -/
theorem reads_quiet {event : IdleEvent} (quiet : readsFrom (tickCount earlier) [event] = []) :
    readTimes (earlier ++ [event]) = readTimes earlier ∧ reports (earlier ++ [event]) = reports earlier := by
  have same : readsFrom 0 (earlier ++ [event]) = readsFrom 0 earlier := by
    rw [readsFrom_append, Nat.zero_add, quiet, List.append_nil]
  exact ⟨congrArg (List.map Prod.fst) same, congrArg (List.filterMap _) same⟩

theorem reads_report (earlier : List IdleEvent) (report : Option Report) :
    readTimes (earlier ++ [.report report]) = readTimes earlier ++ [tickCount earlier] ∧
      reports (earlier ++ [.report report]) =
        reports earlier ++ (report.map (tickCount earlier, ·)).toList := by
  have appended : readsFrom 0 (earlier ++ [.report report]) = readsFrom 0 earlier ++ [(tickCount earlier, report)] := by
    rw [readsFrom_append, Nat.zero_add]
    rfl
  constructor
  · rw [readTimes, appended, List.map_append]
    rfl
  · rw [reports, appended, List.filterMap_append]
    cases report with
    | none => rfl
    | some report => rfl

theorem Tracks.quiet {earlier : List IdleEvent} {state after : IdleState} {event : IdleEvent}
    (held : Tracks earlier state) (quiet : readsFrom (tickCount earlier) [event] = [])
    (ticks : after.ticks.toNat = (tickCount earlier + tickCount [event]) % 2 ^ 32)
    (last : after.lastSec = state.lastSec) : Tracks (earlier ++ [event]) after := by
  obtain ⟨times, listed⟩ := reads_quiet quiet
  have read : lastRead (earlier ++ [event]) = lastRead earlier := congrArg (fun list => list.getLast?.getD 0) times
  refine ⟨?_, ?_, ?_, ?_, ?_⟩
  · rw [ticks, tickCount_append]
  · rw [last, read, held.last]
  · rw [read, tickCount_append]
    exact Nat.le_add_right_of_le held.behind
  · rw [listed, read]
    exact held.earlier
  · have honest := held.honest
    rw [SteadyPastWrap] at honest ⊢
    rw [times, ← honest]
    exact ⟨fun holds => ⟨listed ▸ holds.exact, listed ▸ holds.increasing⟩,
      fun holds => ⟨listed.symm ▸ holds.exact, listed.symm ▸ holds.increasing⟩⟩

theorem steady_append (earlier : List IdleEvent) (report : Option Report) :
    SteadyPastWrap (earlier ++ [.report report]) ↔ SteadyPastWrap earlier ∧
      (tickCount earlier < 2 ^ 32 ∨ shownSecond (tickCount earlier) = shownSecond (lastRead earlier)) := by
  rw [SteadyPastWrap, (reads_report earlier report).1, ← List.cons_append, List.isChain_append, SteadyPastWrap,
    List.getLast?_cons]
  simp [lastRead]

theorem honest_none (earlier : List IdleEvent) :
    HonestUptime (earlier ++ [.report none]) ↔ HonestUptime earlier := by
  have listed : reports (earlier ++ [.report none]) = reports earlier := by
    rw [(reads_report earlier none).2]
    exact List.append_nil _
  exact ⟨fun holds => ⟨listed ▸ holds.exact, listed ▸ holds.increasing⟩,
    fun holds => ⟨listed.symm ▸ holds.exact, listed.symm ▸ holds.increasing⟩⟩

theorem honest_some (earlier : List IdleEvent) (report : Report) :
    HonestUptime (earlier ++ [.report (some report)]) ↔ HonestUptime earlier ∧
      (report.sec.toNat = tickCount earlier / pitFrequencyHz ∧
        report.line = tickLine (tickCount earlier / pitFrequencyHz)) ∧
      ∀ entry ∈ reports earlier, entry.2.sec.toNat < report.sec.toNat := by
  have listed := (reads_report earlier (some report)).2
  rw [Option.map_some, Option.toList_some] at listed
  have increases : ((reports (earlier ++ [.report (some report)])).map fun entry => entry.2.sec.toNat).Pairwise (· < ·) ↔
      ((reports earlier).map fun entry => entry.2.sec.toNat).Pairwise (· < ·) ∧
        ∀ entry ∈ reports earlier, entry.2.sec.toNat < report.sec.toNat := by
    rw [List.pairwise_map, listed, List.pairwise_append, List.pairwise_map]
    simp
  constructor
  · rintro ⟨values, increasing⟩
    obtain ⟨before, last⟩ := increases.mp increasing
    rw [listed] at values
    refine ⟨⟨fun entry member => values entry (List.mem_append_left _ member), before⟩, ?_, last⟩
    exact values (tickCount earlier, report) (by simp)
  · rintro ⟨holds, here, last⟩
    refine ⟨?_, increases.mpr ⟨holds.increasing, last⟩⟩
    intro entry member
    rw [listed] at member
    rcases List.mem_append.mp member with old | new
    · exact holds.exact entry old
    · cases List.mem_singleton.mp new
      exact here

/-- A value shown after the first wrap is too small. -/
theorem shownSecond_eq_iff (count : Nat) : shownSecond count = count / pitFrequencyHz ↔ count < 2 ^ 32 := by
  have wrap : shownSecond count = count % 4294967296 / 100 := rfl
  have frequency : count / pitFrequencyHz = count / 100 := rfl
  have bound : (2 : Nat) ^ 32 = 4294967296 := rfl
  rw [wrap, frequency, bound]
  omega

/-- A new second, reported at a read, is honest exactly before the first wrap. -/
theorem Tracks.reports_honest {earlier : List IdleEvent} {state : IdleState} {report : Report}
    (held : Tracks earlier state) (value : report.sec.toNat = shownSecond (tickCount earlier))
    (text : report.line = tickLine report.sec.toNat)
    (changed : shownSecond (tickCount earlier) ≠ shownSecond (lastRead earlier)) :
    HonestUptime (earlier ++ [.report (some report)]) ↔ HonestUptime earlier ∧ tickCount earlier < 2 ^ 32 := by
  rw [honest_some, value, shownSecond_eq_iff, text, value]
  constructor
  · rintro ⟨honest, ⟨below, -⟩, -⟩
    exact ⟨honest, below⟩
  · rintro ⟨honest, below⟩
    have now := (shownSecond_eq_iff _).mpr below
    have before := (shownSecond_eq_iff _).mpr (lt_of_le_of_lt held.behind below)
    refine ⟨honest, ⟨below, congrArg tickLine now⟩, ?_⟩
    intro entry member
    have past : entry.1 / pitFrequencyHz ≤ lastRead earlier / pitFrequencyHz :=
      Nat.div_le_div_right (held.earlier entry member)
    have advanced : lastRead earlier / pitFrequencyHz ≤ tickCount earlier / pitFrequencyHz :=
      Nat.div_le_div_right held.behind
    rw [(honest.exact entry member).1]
    omega

theorem lastRead_report (earlier : List IdleEvent) (report : Option Report) :
    lastRead (earlier ++ [.report report]) = tickCount earlier := by
  rw [lastRead, (reads_report earlier report).1, List.getLast?_concat]
  rfl

theorem Tracks.report {earlier : List IdleEvent} {state : IdleState} {report : Option Report}
    (held : Tracks earlier state) (reported : uptimeReport state.ticks state.lastSec = some (lastSec, report)) :
    Tracks (earlier ++ [.report report]) { state with lastSec := lastSec, point := .echoing } := by
  rw [uptimeReport_eq, Option.some.injEq, Prod.mk.injEq] at reported
  obtain ⟨rfl, chosen⟩ := reported
  have shown : (state.ticks / 100#32).toNat = shownSecond (tickCount earlier) := by
    rw [BitVec.toNat_udiv, held.ticks]
    rfl
  have same : state.ticks / 100#32 = state.lastSec ↔ shownSecond (tickCount earlier) = shownSecond (lastRead earlier) := by
    rw [← shown, ← held.last]
    exact BitVec.toNat_inj.symm
  have read := lastRead_report earlier report
  have silent : tickCount (earlier ++ [.report report]) = tickCount earlier := tickCount_append _ _
  refine ⟨?_, ?_, ?_, ?_, ?_⟩
  · rw [silent]
    exact held.ticks
  · rw [read]
    exact shown
  · rw [read, silent]
  · intro entry member
    rw [(reads_report earlier report).2] at member
    rw [read]
    rcases List.mem_append.mp member with old | new
    · exact (held.earlier entry old).trans held.behind
    · obtain ⟨report, -, rfl⟩ := Option.map_eq_some_iff.mp (Option.mem_toList.mp new)
      exact le_rfl
  · rw [steady_append, ← held.honest, ← chosen]
    by_cases repeated : state.ticks / 100#32 = state.lastSec
    · rw [if_pos repeated, honest_none]
      exact (and_iff_left (.inr (same.mp repeated))).symm
    · rw [if_neg repeated, held.reports_honest shown rfl (mt same.mpr repeated)]
      exact and_congr_right' (or_iff_left (mt same.mpr repeated)).symm

theorem Tracks.step {earlier : List IdleEvent} {state after : IdleState} {event : IdleEvent}
    (held : Tracks earlier state) (taken : IdleStep state event after) : Tracks (earlier ++ [event]) after := by
  cases taken with
  | irq0 =>
    refine held.quiet rfl ?_ rfl
    have count : tickCount [.irq0] = 1 := rfl
    rw [pitIrq0Handler, BitVec.toNat_add, held.ticks, count, Nat.mod_add_mod]
    rfl
  | irq1 handled => exact held.quiet rfl held.ticks rfl
  | report ready reported => exact held.report reported
  | echo ready echoed => exact held.quiet rfl held.ticks rfl

/-- The uptime reports of a run of the idle loop are the true seconds since
boot, strictly increasing, exactly when no read behind the counter's first wrap
shows a new second. -/
theorem uptime_honest_iff (kb : Keyboard) (run : Run IdleStep ⟨0#32, 0#32, kb, .reading⟩ events state) :
    HonestUptime events ↔ SteadyPastWrap events :=
  (run.invariant Tracks (.initial kb) fun _ _ _ _ held taken => held.step taken).honest

theorem idle_irq0 {start state : IdleState} (run : Run IdleStep start events state) (count : Nat) :
    Run IdleStep start (events ++ List.replicate count .irq0)
      { state with ticks := state.ticks + BitVec.ofNat 32 count } := by
  have current : Run IdleStep start events { state with ticks := state.ticks + BitVec.ofNat 32 0 } := by
    simpa using run
  refine current.replicate (fun k => { state with ticks := state.ticks + BitVec.ofNat 32 k }) ?_ count
  intro k
  rw [BitVec.ofNat_add, ← BitVec.add_assoc]
  exact .irq0

theorem reports_earlier {earlier : List IdleEvent} (later : List IdleEvent) :
    ∀ entry ∈ reports earlier, entry ∈ reports (earlier ++ later) := by
  intro entry member
  rw [reports, readsFrom_append, List.filterMap_append]
  exact List.mem_append_left _ member

/-- The first 200 ticks and the report that follows them. -/
def twoSeconds : List IdleEvent := List.replicate 200 .irq0 ++ [.report (some ⟨2#32, tickLine 2⟩)]

theorem twoSeconds_run : Run IdleStep ⟨0#32, 0#32, resetKeyboard, .reading⟩ twoSeconds
    ⟨200#32, 2#32, resetKeyboard, .echoing⟩ := by
  have reported : uptimeReport 200#32 0#32 = some (2#32, some ⟨2#32, tickLine 2⟩) := by
    rw [uptimeReport_eq]
    rfl
  exact (idle_irq0 .start 200).next (.report rfl reported)

theorem uptime_honest_two_seconds :
    Run IdleStep ⟨0#32, 0#32, resetKeyboard, .reading⟩ twoSeconds ⟨200#32, 2#32, resetKeyboard, .echoing⟩ ∧
      (HonestUptime twoSeconds ↔ SteadyPastWrap twoSeconds) :=
  ⟨twoSeconds_run, uptime_honest_iff resetKeyboard twoSeconds_run⟩

/-- A second after the first wrap the report goes back to one second. -/
theorem uptime_goes_back :
    ¬ ∀ (kb : Keyboard) (events : List IdleEvent) (state : IdleState),
      Run IdleStep ⟨0#32, 0#32, kb, .reading⟩ events state → HonestUptime events := by
  intro honest
  have echoed : IdleStep ⟨200#32, 2#32, resetKeyboard, .echoing⟩ (.echo none)
      ⟨200#32, 2#32, resetKeyboard, .reading⟩ := .echo rfl rfl
  have reported : uptimeReport (200#32 + BitVec.ofNat 32 4294967196) 2#32 = some (1#32, some ⟨1#32, tickLine 1⟩) := by
    rw [uptimeReport_eq]
    rfl
  have run := (idle_irq0 (twoSeconds_run.next echoed) 4294967196).next (.report rfl reported)
  obtain ⟨-, -, increases⟩ := (honest_some _ _).mp (honest _ _ _ run)
  have first : ((200, ⟨2#32, tickLine 2⟩) : Nat × Report) ∈ reports twoSeconds := by
    have counted : tickCount (List.replicate 200 .irq0) = 200 := List.count_replicate_self
    rw [twoSeconds, (reads_report _ _).2, counted]
    exact List.mem_append_right _ List.mem_cons_self
  have backwards := increases _ (reports_earlier _ _ (reports_earlier _ _ first))
  exact absurd backwards (by decide)

end AstraOS.Kernel
