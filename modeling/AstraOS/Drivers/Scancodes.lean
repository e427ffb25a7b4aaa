import AstraOS.Drivers.KeyboardQueue
import Mathlib.Data.List.Chain

/-! What the interrupt handler appends over a whole stream of bytes from the
keyboard controller, while the consumer keeps the ring from filling. -/

namespace AstraOS.Drivers
open AstraOS.Foundation

/-- The character a call of the handler added: the cell it stored before it moved the head. -/
def appendedBy (before after : Keyboard) : List (BitVec 8) :=
  if after.kbHead = before.kbHead then [] else after.kbBuf[before.kbHead.toNat]?.toList

structure Delivery where
  event : KeyboardEvent
  appended : List (BitVec 8)
deriving DecidableEq

/-- The steps of the keyboard in which every interrupt finds a free cell, each
with the characters it appended. -/
inductive DrainedStep : KeyboardSystem → Delivery → KeyboardSystem → Prop where
  | irq1 {system : KeyboardSystem} {kb : Keyboard} {sc : BitVec 8}
      (room : (system.kb.kbHead + 1#32) &&& kbBufMask ≠ system.kb.kbTail)
      (handled : keyboardIrq1Handler sc system.kb = some kb) :
      DrainedStep system ⟨.irq1 sc, appendedBy system.kb kb⟩ { system with kb := kb }
  | getchar {system after : KeyboardSystem} {event : KeyboardEvent}
      (stepped : getcharStep system = some (event, after)) : DrainedStep system ⟨event, []⟩ after

def KeyboardEvent.byte? : KeyboardEvent → Option (BitVec 8)
  | .irq1 sc => some sc
  | .internal => none
  | .returned _ => none

def deliveredBytes (deliveries : List Delivery) : List (BitVec 8) :=
  deliveries.filterMap fun delivery => delivery.event.byte?

def appendedChars (deliveries : List Delivery) : List (BitVec 8) :=
  deliveries.flatMap Delivery.appended

/-- The translations a stream stands for when the byte after a 0xE0 prefix is
part of an extended code; `extended` says that the prefix came just before. -/
def ordinaryChars (extended : Bool) : List (BitVec 8) → List (BitVec 8)
  | [] => []
  | sc :: rest =>
    if extended = true ∨ translate sc = 0#8 then ordinaryChars (sc = 0xE0#8) rest
    else translate sc :: ordinaryChars (sc = 0xE0#8) rest

/-- No byte that follows a 0xE0 prefix has a character of its own in the table. -/
def ExtendedSilent (bytes : List (BitVec 8)) : Prop :=
  bytes.IsChain fun previous sc => previous = 0xE0#8 → translate sc = 0#8

/-- The characters of a stream read one byte at a time, without regard to prefixes. -/
def plainChars (bytes : List (BitVec 8)) : List (BitVec 8) :=
  bytes.flatMap fun sc => if translate sc = 0#8 then [] else [translate sc]

theorem head_moves (index : BitVec 32) : (index + 1#32) &&& kbBufMask ≠ index := by
  intro same
  have value := congrArg BitVec.toNat same
  rw [next_toNat, kbBufSize] at value
  omega

/-- With a free cell the handler appends the translation of its byte and nothing else. -/
theorem appendedBy_handler {before after : Keyboard}
    (room : (before.kbHead + 1#32) &&& kbBufMask ≠ before.kbTail)
    (handled : keyboardIrq1Handler sc before = some after) :
    appendedBy before after = if translate sc = 0#8 then [] else [translate sc] := by
  rw [keyboardIrq1Handler_eq] at handled
  by_cases char : translate sc = 0#8
  · rw [if_pos (.inl char)] at handled
    cases handled
    rw [appendedBy, if_pos rfl, if_pos char]
  · rw [if_neg (not_or.mpr ⟨char, room⟩)] at handled
    obtain ⟨kbBuf, stored, same⟩ := Option.map_eq_some_iff.mp handled
    have inside : before.kbHead.toNat < kbBufSize := by
      by_contra outside
      rw [storeAt, if_neg outside] at stored
      cases stored
    obtain ⟨next, kept, cells⟩ := storeAt_inside before.kbBuf (translate sc) inside
    cases kept.symm.trans stored
    cases same
    rw [appendedBy, if_neg (head_moves before.kbHead), if_neg char, cells, if_pos rfl]
    rfl

theorem getcharStep_byte {system after : KeyboardSystem} {event : KeyboardEvent}
    (stepped : getcharStep system = some (event, after)) : event.byte? = none := by
  obtain ⟨kb, point⟩ := system
  cases point with
  | idle =>
    by_cases same : kb.kbTail = kb.kbHead
    · simp only [getcharStep, if_pos same] at stepped
      cases stepped
      rfl
    · simp only [getcharStep, if_neg same] at stepped
      cases stepped
      rfl
  | nonEmpty =>
    obtain ⟨c, read, finished⟩ := Option.bind_eq_some_iff.mp stepped
    cases finished
    rfl
  | loaded c =>
    cases stepped
    rfl

theorem DrainedStep.appended {before after : KeyboardSystem} {delivery : Delivery}
    (taken : DrainedStep before delivery after) :
    appendedChars [delivery] = plainChars (deliveredBytes [delivery]) := by
  cases taken with
  | irq1 room handled =>
    simp [appendedChars, deliveredBytes, plainChars, KeyboardEvent.byte?, appendedBy_handler room handled]
  | getchar stepped =>
    simp [appendedChars, deliveredBytes, plainChars, getcharStep_byte stepped]

/-- The handler keeps nothing between two interrupts, so a whole run appends
the characters of its bytes one by one. -/
theorem appended_plain {start system : KeyboardSystem} (run : Run DrainedStep start deliveries system) :
    appendedChars deliveries = plainChars (deliveredBytes deliveries) := by
  refine run.invariant (fun earlier _ => appendedChars earlier = plainChars (deliveredBytes earlier)) rfl ?_
  intro earlier state delivery after held taken
  have step := taken.appended
  simp only [appendedChars, deliveredBytes, plainChars, List.flatMap_append, List.filterMap_append] at held step ⊢
  rw [held, step]

theorem ordinaryChars_length (extended : Bool) (bytes : List (BitVec 8)) :
    (ordinaryChars extended bytes).length ≤ (plainChars bytes).length := by
  induction bytes generalizing extended with
  | nil => exact le_rfl
  | cons sc rest ih =>
    have later := ih (decide (sc = 0xE0#8))
    by_cases char : translate sc = 0#8
    · simpa [ordinaryChars, plainChars, char] using later
    · by_cases after : extended = true
      · simpa [ordinaryChars, plainChars, char, after] using Nat.le_succ_of_le later
      · simpa [ordinaryChars, plainChars, char, after] using later

/-- Reading the bytes one by one agrees with the prefixes exactly when every extended byte is silent. -/
theorem plain_eq_ordinary_iff (extended : Bool) (bytes : List (BitVec 8)) :
    plainChars bytes = ordinaryChars extended bytes ↔
      (extended = true → ∀ sc ∈ bytes.head?, translate sc = 0#8) ∧ ExtendedSilent bytes := by
  induction bytes generalizing extended with
  | nil => simp [plainChars, ordinaryChars, ExtendedSilent]
  | cons sc rest ih =>
    have later := ih (decide (sc = 0xE0#8))
    have short := ordinaryChars_length (decide (sc = 0xE0#8)) rest
    simp only [ExtendedSilent, List.isChain_cons, decide_eq_true_eq] at later ⊢
    have chain : plainChars rest = ordinaryChars (decide (sc = 0xE0#8)) rest ↔
        (∀ next ∈ rest.head?, sc = 0xE0#8 → translate next = 0#8) ∧
          rest.IsChain fun previous next => previous = 0xE0#8 → translate next = 0#8 := by
      rw [later]
      exact and_congr_left' ⟨fun silent next first prefixed => silent prefixed next first,
        fun silent prefixed next first => silent next first prefixed⟩
    by_cases char : translate sc = 0#8
    · simpa [ordinaryChars, plainChars, char] using chain
    · by_cases after : extended = true
      · subst after
        have longer : plainChars (sc :: rest) ≠ ordinaryChars true (sc :: rest) := by
          intro same
          have counted := congrArg List.length same
          simp only [plainChars, List.flatMap_cons, if_neg char, ordinaryChars, true_or, if_true,
            List.length_append, List.length_singleton] at counted
          simp only [plainChars] at short
          omega
        simp [longer, char]
      · simpa [ordinaryChars, plainChars, char, after] using chain

/-- From the reset ring, the characters appended are those of the ordinary keys
exactly in the runs in which no extended byte has a character of its own. -/
theorem appended_ordinary_iff (buf : Vector (BitVec 8) kbBufSize)
    (run : Run DrainedStep ⟨⟨buf, 0#32, 0#32⟩, .idle⟩ deliveries system) :
    appendedChars deliveries = ordinaryChars false (deliveredBytes deliveries) ↔
      ExtendedSilent (deliveredBytes deliveries) := by
  rw [appended_plain run, plain_eq_ordinary_iff]
  simp

theorem DrainedStep.reset {after : Keyboard} (handled : keyboardIrq1Handler sc resetKeyboard = some after) :
    DrainedStep ⟨resetKeyboard, .idle⟩
      ⟨.irq1 sc, if translate sc = 0#8 then [] else [translate sc]⟩ ⟨after, .idle⟩ := by
  have room : (resetKeyboard.kbHead + 1#32) &&& kbBufMask ≠ resetKeyboard.kbTail := by decide
  rw [← appendedBy_handler room handled]
  exact .irq1 room handled

/-- The keypad's Enter is 0xE0 0x1C, and its second byte is appended as the main Enter key. -/
theorem keypad_enter_appended :
    ¬ ∀ (buf : Vector (BitVec 8) kbBufSize) (deliveries : List Delivery) (system : KeyboardSystem),
      Run DrainedStep ⟨⟨buf, 0#32, 0#32⟩, .idle⟩ deliveries system →
        appendedChars deliveries = ordinaryChars false (deliveredBytes deliveries) := by
  intro ignored
  have prefixed : DrainedStep ⟨resetKeyboard, .idle⟩ ⟨.irq1 0xE0#8, []⟩ ⟨resetKeyboard, .idle⟩ := .reset rfl
  obtain ⟨system, entered⟩ : ∃ system,
      DrainedStep ⟨resetKeyboard, .idle⟩ ⟨.irq1 0x1C#8, [0x0A#8]⟩ system := ⟨_, .reset rfl⟩
  have equal := ignored _ _ _ ((Run.start.next prefixed).next entered)
  revert equal
  decide

/-- The release of the cursor-up key, and then a letter: the stream E0 C8 30. -/
theorem cursor_release_ignored :
    ∃ system, Run DrainedStep ⟨resetKeyboard, .idle⟩
        [⟨.irq1 0xE0#8, []⟩, ⟨.irq1 0xC8#8, []⟩, ⟨.irq1 0x30#8, [0x62#8]⟩] system ∧
      ExtendedSilent [0xE0#8, 0xC8#8, 0x30#8] ∧
      (appendedChars [⟨.irq1 0xE0#8, []⟩, ⟨.irq1 0xC8#8, []⟩, ⟨.irq1 0x30#8, [0x62#8]⟩] =
          ordinaryChars false [0xE0#8, 0xC8#8, 0x30#8] ↔
        ExtendedSilent [0xE0#8, 0xC8#8, 0x30#8]) := by
  have prefixed : DrainedStep ⟨resetKeyboard, .idle⟩ ⟨.irq1 0xE0#8, []⟩ ⟨resetKeyboard, .idle⟩ := .reset rfl
  have released : DrainedStep ⟨resetKeyboard, .idle⟩ ⟨.irq1 0xC8#8, []⟩ ⟨resetKeyboard, .idle⟩ := .reset rfl
  obtain ⟨system, typed⟩ : ∃ system,
      DrainedStep ⟨resetKeyboard, .idle⟩ ⟨.irq1 0x30#8, [0x62#8]⟩ system := ⟨_, .reset rfl⟩
  have run := ((Run.start.next prefixed).next released).next typed
  exact ⟨system, run, by simp [ExtendedSilent]; decide, appended_ordinary_iff _ run⟩

end AstraOS.Drivers
