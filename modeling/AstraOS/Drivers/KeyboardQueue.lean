import AstraOS.Drivers.Keyboard
import AstraOS.Foundation.Mask
import AstraOS.Foundation.Ring

/-! The keyboard ring is a bounded FIFO: every interleaving of the interrupt
handler with the steps of `keyboard_getchar` follows an abstract queue. -/

namespace AstraOS.Drivers
open AstraOS.Foundation

/-- The character of a make code, zero where the table has none. -/
def translate (sc : BitVec 8) : BitVec 8 :=
  if sc.toNat < scancodeMapLen then scancodeMap sc.toNat else 0#8

structure CharQueue where
  pending : List (BitVec 8)
  appended : List (BitVec 8)
  delivered : List (BitVec 8)

def CharQueue.empty : CharQueue := ⟨[], [], []⟩

def CharQueue.append (queue : CharQueue) (c : BitVec 8) : CharQueue :=
  { queue with pending := queue.pending ++ [c], appended := queue.appended ++ [c] }

def CharQueue.deliver (queue : CharQueue) (c : BitVec 8) (rest : List (BitVec 8)) : CharQueue :=
  { queue with pending := rest, delivered := queue.delivered ++ [c] }

/-- A queue of capacity 63 that loses new characters when full. -/
inductive QueueStep : CharQueue → KeyboardEvent → CharQueue → Prop where
  | ignore (silent : translate sc = 0#8) : QueueStep queue (.irq1 sc) queue
  | append (char : translate sc ≠ 0#8) (room : queue.pending.length < 63) :
      QueueStep queue (.irq1 sc) (queue.append (translate sc))
  | drop (char : translate sc ≠ 0#8) (full : 63 ≤ queue.pending.length) :
      QueueStep queue (.irq1 sc) queue
  | internal : QueueStep queue .internal queue
  | nothing (empty : queue.pending = []) : QueueStep queue (.returned 0#8) queue
  | deliver (front : queue.pending = c :: rest) :
      QueueStep queue (.returned c) (queue.deliver c rest)

/-- The characters that `keyboard_getchar` has returned; zero means none. -/
def returnedChars : List KeyboardEvent → List (BitVec 8)
  | [] => []
  | .returned c :: rest => if c = 0#8 then returnedChars rest else c :: returnedChars rest
  | .irq1 _ :: rest => returnedChars rest
  | .internal :: rest => returnedChars rest

theorem returnedChars_append (earlier later : List KeyboardEvent) :
    returnedChars (earlier ++ later) = returnedChars earlier ++ returnedChars later := by
  induction earlier with
  | nil => rfl
  | cons event rest ih =>
    cases event with
    | irq1 sc => exact ih
    | internal => exact ih
    | returned c =>
      by_cases zero : c = 0#8
      · simpa [returnedChars, zero] using ih
      · simpa [returnedChars, zero] using ih

/-- What every run of the queue keeps: nothing is lost, repeated or altered. -/
structure Conserved (events : List KeyboardEvent) (queue : CharQueue) : Prop where
  split : queue.appended = queue.delivered ++ queue.pending
  returned : queue.delivered = returnedChars events
  nonzero : ∀ c ∈ queue.pending, c ≠ 0#8
  capacity : queue.pending.length ≤ 63

theorem Conserved.step {earlier : List KeyboardEvent} {queue after : CharQueue}
    (held : Conserved earlier queue) (taken : QueueStep queue event after) :
    Conserved (earlier ++ [event]) after := by
  obtain ⟨split, returned, nonzero, capacity⟩ := held
  have quiet (silent : returnedChars [event] = []) :
      queue.delivered = returnedChars (earlier ++ [event]) := by
    rw [returnedChars_append, silent, List.append_nil, returned]
  cases taken with
  | ignore silent => exact ⟨split, quiet rfl, nonzero, capacity⟩
  | drop char full => exact ⟨split, quiet rfl, nonzero, capacity⟩
  | internal => exact ⟨split, quiet rfl, nonzero, capacity⟩
  | nothing empty => exact ⟨split, quiet rfl, nonzero, capacity⟩
  | append char room =>
    refine ⟨?_, quiet rfl, ?_, ?_⟩
    · simp [CharQueue.append, split]
    · intro c member
      rcases List.mem_append.mp member with old | new
      · exact nonzero c old
      · rw [List.mem_singleton.mp new]
        exact char
    · rw [CharQueue.append, List.length_append]
      exact room
  | @deliver c rest _ front =>
    rw [front] at split nonzero capacity
    have char : c ≠ 0#8 := nonzero c List.mem_cons_self
    refine ⟨by simpa [CharQueue.deliver] using split, ?_, ?_, ?_⟩
    · simp [CharQueue.deliver, returnedChars_append, returnedChars, char, returned]
    · intro c member
      exact nonzero c (List.mem_cons_of_mem _ member)
    · exact Nat.le_of_succ_le capacity

theorem next_toNat (index : BitVec 32) :
    ((index + 1#32) &&& kbBufMask).toNat = (index.toNat + 1) % kbBufSize := by
  have mask : ((index + 1#32) &&& kbBufMask).toNat = (index + 1#32).toNat % 2 ^ 6 :=
    and_mask_toNat (k := 6) (index + 1#32) (by decide)
  have width : 2 ^ 6 ∣ 2 ^ 32 := by decide
  rw [mask, BitVec.toNat_add, Nat.mod_mod_of_dvd _ width]
  rfl

/-- The ring holds the pending characters, and the consumer has seen what the
producer cannot take back. -/
structure Mirrors (system : KeyboardSystem) (queue : CharQueue) : Prop where
  ring : RingHolds system.kb.kbBuf system.kb.kbHead.toNat system.kb.kbTail.toNat queue.pending
  seen : system.point ≠ .idle → queue.pending ≠ []
  front : ∀ c, system.point = .loaded c → queue.pending.head? = some c

theorem Mirrors.initial (buf : Vector (BitVec 8) kbBufSize) :
    Mirrors ⟨⟨buf, 0#32, 0#32⟩, .idle⟩ .empty :=
  ⟨.empty (show 0 < 64 by decide), fun busy => absurd rfl busy, by simp⟩

theorem Mirrors.empty_iff {system : KeyboardSystem} {queue : CharQueue} (held : Mirrors system queue) :
    system.kb.kbTail = system.kb.kbHead ↔ queue.pending = [] := by
  rw [BitVec.toNat_inj.symm]
  exact held.ring.eq_iff_empty

/-- The checks of the handler amount to the table lookup and the full test. -/
theorem keyboardIrq1Handler_eq (sc : BitVec 8) (kb : Keyboard) :
    keyboardIrq1Handler sc kb =
      if translate sc = 0#8 ∨ (kb.kbHead + 1#32) &&& kbBufMask = kb.kbTail then some kb
      else (storeAt kb.kbBuf kb.kbHead.toNat (translate sc)).map
        (fun kbBuf => { kb with kbBuf := kbBuf, kbHead := (kb.kbHead + 1#32) &&& kbBufMask }) := by
  have released (bit : sc &&& 0x80#8 ≠ 0#8) : translate sc = 0#8 := by
    revert bit
    revert sc
    decide
  unfold keyboardIrq1Handler
  by_cases bit : sc &&& 0x80#8 ≠ 0#8
  · simp [bit, released bit]
  by_cases same : sc = 0xE0#8
  · exact absurd (by rw [same]; decide) bit
  by_cases inside : sc.toNat < scancodeMapLen
  · rw [if_neg bit, if_neg same, if_pos inside]
    have looked : translate sc = scancodeMap sc.toNat := if_pos inside
    by_cases char : translate sc = 0#8
    · simp [← looked, char]
    · by_cases full : (kb.kbHead + 1#32) &&& kbBufMask = kb.kbTail
      · simp [← looked, char, full]
      · simp [← looked, char, full, Option.map_eq_bind]
  · simp [bit, same, inside, translate]

/-- The handler against the ring: it ignores, drops or appends. -/
theorem handler_cases {kb : Keyboard} {pending : List (BitVec 8)} (sc : BitVec 8)
    (ring : RingHolds kb.kbBuf kb.kbHead.toNat kb.kbTail.toNat pending) :
    (keyboardIrq1Handler sc kb = some kb ∧ (translate sc = 0#8 ∨ 63 ≤ pending.length)) ∨
    translate sc ≠ 0#8 ∧ pending.length < 63 ∧ ∃ after,
      keyboardIrq1Handler sc kb = some after ∧
      RingHolds after.kbBuf after.kbHead.toNat after.kbTail.toNat (pending ++ [translate sc]) := by
  have full : (kb.kbHead + 1#32) &&& kbBufMask = kb.kbTail ↔ pending.length + 1 = 64 := by
    rw [BitVec.toNat_inj.symm, next_toNat]
    exact ring.next_eq_iff_full
  have bound : pending.length < 64 := ring.length_lt
  rw [keyboardIrq1Handler_eq]
  by_cases char : translate sc = 0#8
  · exact .inl ⟨if_pos (.inl char), .inl char⟩
  by_cases room : pending.length + 1 = 64
  · exact .inl ⟨if_pos (.inr (full.mpr room)), .inr (by omega)⟩
  · have kept : ¬ (translate sc = 0#8 ∨ (kb.kbHead + 1#32) &&& kbBufMask = kb.kbTail) := by
      rintro (zero | filled)
      · exact char zero
      · exact room (full.mp filled)
    have pushed := ring.push (show pending.length + 1 < 64 by omega) (translate sc)
    rw [if_neg kept, storeAt, if_pos ring.head_lt]
    rw [← next_toNat] at pushed
    exact .inr ⟨char, by omega, _, Option.map_some _ _, pushed⟩

theorem Mirrors.irq1 {system : KeyboardSystem} {queue : CharQueue} {kb : Keyboard}
    (held : Mirrors system queue) (handled : keyboardIrq1Handler sc system.kb = some kb) :
    ∃ next, QueueStep queue (.irq1 sc) next ∧ Mirrors { system with kb := kb } next := by
  obtain ⟨ring, seen, front⟩ := held
  rcases handler_cases sc ring with ⟨same, reason⟩ | ⟨char, room, after, same, pushed⟩
  · cases same.symm.trans handled
    refine ⟨queue, ?_, ring, seen, front⟩
    by_cases char : translate sc = 0#8
    · exact .ignore char
    · exact .drop char (reason.resolve_left char)
  · cases same.symm.trans handled
    refine ⟨_, .append char room, pushed, ?_, ?_⟩
    · intro _
      simp [CharQueue.append]
    · intro c loaded
      rw [CharQueue.append, List.head?_append, front c loaded]
      rfl

theorem Mirrors.getchar {system after : KeyboardSystem} {queue : CharQueue}
    (held : Mirrors system queue) (stepped : getcharStep system = some (event, after)) :
    ∃ next, QueueStep queue event next ∧ Mirrors after next := by
  obtain ⟨kb, point⟩ := system
  have emptied : kb.kbTail = kb.kbHead ↔ queue.pending = [] := held.empty_iff
  obtain ⟨ring, seen, front⟩ := held
  cases point with
  | idle =>
    by_cases same : kb.kbTail = kb.kbHead
    · simp only [getcharStep, if_pos same] at stepped
      cases stepped
      exact ⟨queue, .nothing (emptied.mp same), ring, seen, front⟩
    · simp only [getcharStep, if_neg same] at stepped
      cases stepped
      exact ⟨queue, .internal, ring, fun _ => same ∘ emptied.mpr, by simp⟩
  | nonEmpty =>
    obtain ⟨c, rest, filled⟩ := List.exists_cons_of_ne_nil (seen (by simp))
    have read : kb.kbBuf[kb.kbTail.toNat]? = some c := by
      rw [filled] at ring
      exact ring.front
    simp only [getcharStep, read] at stepped
    cases stepped
    refine ⟨queue, .internal, ring, fun _ => by simp [filled], ?_⟩
    intro value loaded
    cases loaded
    simp [filled]
  | loaded c =>
    cases stepped
    obtain ⟨rest, filled⟩ : ∃ rest, queue.pending = c :: rest := by
      have first := front c rfl
      exact ⟨_, (List.cons_head?_tail first).symm⟩
    rw [filled] at ring
    refine ⟨_, .deliver filled, ?_, fun busy => absurd rfl busy, by simp⟩
    have popped := ring.pop
    rw [← next_toNat] at popped
    exact popped

/-- One step of either side is one step of the queue. -/
theorem Mirrors.step {system after : KeyboardSystem} {queue : CharQueue} (held : Mirrors system queue)
    (taken : KeyboardStep system event after) : ∃ next, QueueStep queue event next ∧ Mirrors after next := by
  cases taken with
  | irq1 handled => exact held.irq1 handled
  | getchar stepped => exact held.getchar stepped

/-- A point of an interleaving that agrees with the abstract queue, and from
which neither side can fault. -/
structure FollowsQueue (events : List KeyboardEvent) (system : KeyboardSystem) (queue : CharQueue) :
    Prop where
  followed : Run QueueStep .empty events queue
  conserved : Conserved events queue
  poll : keyboardPoll system.kb ≠ 0#32 ↔ queue.pending ≠ []
  head_lt : system.kb.kbHead.toNat < kbBufSize
  tail_lt : system.kb.kbTail.toNat < kbBufSize
  dropped : ∀ sc, translate sc ≠ 0#8 → 63 ≤ queue.pending.length →
    keyboardIrq1Handler sc system.kb = some system.kb
  handles : ∀ sc, ∃ kb, keyboardIrq1Handler sc system.kb = some kb
  proceeds : ∃ event after, getcharStep system = some (event, after)

theorem Mirrors.poll_iff {system : KeyboardSystem} {queue : CharQueue} (held : Mirrors system queue) :
    keyboardPoll system.kb ≠ 0#32 ↔ queue.pending ≠ [] := by
  unfold keyboardPoll
  by_cases same : system.kb.kbTail = system.kb.kbHead
  · simp [same, held.empty_iff.mp same]
  · have filled : queue.pending ≠ [] := same ∘ held.empty_iff.mpr
    simp [same, filled]

theorem Mirrors.proceeds {system : KeyboardSystem} {queue : CharQueue} (held : Mirrors system queue) :
    ∃ event after, getcharStep system = some (event, after) := by
  obtain ⟨kb, point⟩ := system
  cases point with
  | idle =>
    by_cases same : kb.kbTail = kb.kbHead
    · exact ⟨_, _, if_pos same⟩
    · exact ⟨_, _, if_neg same⟩
  | nonEmpty =>
    obtain ⟨c, read⟩ : ∃ c, kb.kbBuf[kb.kbTail.toNat]? = some c :=
      ⟨_, Vector.getElem?_eq_getElem held.ring.tail_lt⟩
    exact ⟨.internal, ⟨kb, .loaded c⟩, by simp [getcharStep, read]⟩
  | loaded c => exact ⟨_, _, rfl⟩

theorem getcharStep_cases {system finish : KeyboardSystem} {taken : KeyboardEvent}
    (stepped : getcharStep system = some (taken, finish)) :
    (taken = .internal ∧ finish.kb = system.kb) ∨ (∃ c, taken = .returned c) ∧ finish.point = .idle := by
  obtain ⟨kb, place⟩ := system
  cases place with
  | idle =>
    by_cases same : kb.kbTail = kb.kbHead
    · simp only [getcharStep, if_pos same] at stepped
      cases stepped
      exact .inr ⟨⟨_, rfl⟩, rfl⟩
    · simp only [getcharStep, if_neg same] at stepped
      cases stepped
      exact .inl ⟨rfl, rfl⟩
  | nonEmpty =>
    obtain ⟨c, -, returned⟩ := Option.bind_eq_some_iff.mp stepped
    cases returned
    exact .inl ⟨rfl, rfl⟩
  | loaded c =>
    cases stepped
    exact .inr ⟨⟨_, rfl⟩, rfl⟩

/-- On a queue that is not empty, `keyboard_getchar` returns the first character. -/
theorem Mirrors.fetch {system finish : KeyboardSystem} {taken : KeyboardEvent} {queue : CharQueue}
    (held : Mirrors system queue)
    (filled : queue.pending ≠ []) (stepped : getcharStep system = some (taken, finish)) :
    (taken = .internal ∧ Mirrors finish queue) ∨ ∃ c rest, taken = .returned c ∧ queue.pending = c :: rest ∧
      Mirrors finish (queue.deliver c rest) ∧ finish.point = .idle := by
  obtain ⟨next, followed, mirrors⟩ := held.getchar stepped
  rcases getcharStep_cases stepped with ⟨rfl, -⟩ | ⟨⟨c, rfl⟩, idle⟩
  · cases followed
    exact .inl ⟨rfl, mirrors⟩
  · cases followed with
    | nothing empty => exact absurd empty filled
    | deliver front => exact .inr ⟨_, _, rfl, front, mirrors, idle⟩

/-- The producer neither delivers a character nor takes one away. -/
theorem QueueStep.irq1_pending {queue next : CharQueue} (taken : QueueStep queue (.irq1 sc) next) :
    next.delivered = queue.delivered ∧ (queue.pending ≠ [] → next.pending ≠ []) := by
  cases taken with
  | ignore silent => exact ⟨rfl, id⟩
  | append char room => exact ⟨rfl, fun _ => by simp [CharQueue.append]⟩
  | drop char full => exact ⟨rfl, id⟩

theorem QueueStep.accepts {queue next : CharQueue} {observed : KeyboardEvent} (taken : QueueStep queue observed next) :
    queue.appended <+: next.appended := by
  cases taken with
  | append char room => exact List.prefix_append _ _
  | _ => exact List.prefix_rfl

/-- Every interleaving of IRQ1 with the steps of `keyboard_getchar`, of any
length, follows the queue of capacity 63. -/
theorem keyboard_fifo (buf : Vector (BitVec 8) kbBufSize)
    (run : Run KeyboardStep ⟨⟨buf, 0#32, 0#32⟩, .idle⟩ events system) :
    ∃ queue, FollowsQueue events system queue := by
  obtain ⟨queue, followed, held⟩ := run.simulation Mirrors (.initial buf)
    (fun _ _ _ _ held taken => held.step taken)
  have conserved : Conserved events queue :=
    followed.invariant Conserved ⟨rfl, rfl, by simp [CharQueue.empty], by simp [CharQueue.empty]⟩
      (fun _ _ _ _ kept taken => kept.step taken)
  refine ⟨queue, followed, conserved, held.poll_iff, held.ring.head_lt, held.ring.tail_lt, ?_, ?_, held.proceeds⟩
  · intro sc char full
    rcases handler_cases sc held.ring with ⟨same, _⟩ | ⟨_, room, _⟩
    · exact same
    · exact absurd room (Nat.not_lt.mpr full)
  · intro sc
    rcases handler_cases sc held.ring with ⟨same, _⟩ | ⟨_, _, after, same, _⟩
    · exact ⟨_, same⟩
    · exact ⟨after, same⟩

/-- `b` arrives between the comparison and the slot read of the call that returns `a`. -/
theorem keyboard_fifo_interrupted :
    ∃ system queue, Run KeyboardStep ⟨⟨Vector.replicate kbBufSize 0#8, 0#32, 0#32⟩, .idle⟩
        [.irq1 0x1E#8, .internal, .irq1 0x30#8, .internal, .returned 0x61#8] system ∧
      FollowsQueue [.irq1 0x1E#8, .internal, .irq1 0x30#8, .internal, .returned 0x61#8] system queue := by
  have run : ∃ system, Run KeyboardStep ⟨⟨Vector.replicate kbBufSize 0#8, 0#32, 0#32⟩, .idle⟩
      ([] ++ [.irq1 0x1E#8] ++ [.internal] ++ [.irq1 0x30#8] ++ [.internal] ++ [.returned 0x61#8]) system :=
    ⟨_, .next (.next (.next (.next (.next .start (.irq1 rfl)) (.getchar rfl)) (.irq1 rfl))
      (.getchar rfl)) (.getchar rfl)⟩
  obtain ⟨system, taken⟩ := run
  obtain ⟨queue, follows⟩ := keyboard_fifo _ taken
  exact ⟨system, queue, taken, follows⟩

end AstraOS.Drivers
