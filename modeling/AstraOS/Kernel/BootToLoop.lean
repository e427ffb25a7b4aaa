import AstraOS.Kernel.EchoProgress
import AstraOS.Kernel.SelfTest

/-! The whole of `kernel_main`: from a cold start to its loop, with the interrupts
that come once they are enabled, and on through the loop. -/

namespace AstraOS.Kernel
open AstraOS.Foundation AstraOS.Drivers AstraOS.Interrupts AstraOS.Memory

/-- Without calls of `keyboard_getchar` the driver is never inside one. -/
theorem idle_of_interrupts {start system : KeyboardSystem} {events : List KeyboardEvent}
    (run : Run KeyboardStep start events system) (interrupts : ∀ event ∈ events, ∃ sc, event = .irq1 sc)
    (idle : start.point = .idle) : system.point = .idle := by
  induction run with
  | start => exact idle
  | next earlier taken ih =>
    have quiet := ih fun event member => interrupts event (List.mem_append_left _ member)
    obtain ⟨sc, rfl⟩ := interrupts _ (List.mem_append_right _ List.mem_cons_self)
    cases taken with
    | irq1 handled => exact quiet
    | getchar stepped =>
      rcases getcharStep_cases stepped with ⟨same, -⟩ | ⟨⟨c, same⟩, -⟩
      · cases same
      · cases same

theorem keyboard_interrupts {events : List LiveEvent} (interrupts : ∀ inner, .getchar inner ∉ events) :
    ∀ event ∈ events.filterMap LiveEvent.keyboard?, ∃ sc, event = .irq1 sc := by
  intro event member
  obtain ⟨source, inside, seen⟩ := List.mem_filterMap.mp member
  cases source with
  | request line sc =>
    by_cases keys : line = 1
    · exact ⟨sc, (Option.some.inj ((if_pos keys).symm.trans seen)).symm⟩
    · cases (if_neg keys).symm.trans seen
  | spurious7 => cases seen
  | spurious15 => cases seen
  | getchar inner => exact absurd inside (interrupts inner)

theorem returnedChars_interrupts {events : List KeyboardEvent} (interrupts : ∀ event ∈ events, ∃ sc, event = .irq1 sc) :
    returnedChars events = [] := by
  induction events with
  | nil => rfl
  | cons event rest ih =>
    obtain ⟨sc, rfl⟩ := interrupts event List.mem_cons_self
    exact ih fun other member => interrupts other (List.mem_cons_of_mem _ member)

section
variable {uart : Uart} {image : Image} {cpu : CpuId} {mbi : BitVec 32} {pmm after : Pmm} {start : KernelState}
variable {firmware : Pics} {timer : Timer} {early wait late : List LiveEvent} {t0 t1 : BitVec 32} {entry : EchoState}

theorem Booted.follows {booted : KernelState} (reached : Booted image cpu firmware start pmm booted) {events : List LiveEvent}
    {live : Live} (run : Run (LiveStep image.code) booted.live events live) : Follows image.code firmware events live :=
  run.invariant (Follows image.code firmware)
    ⟨reached.connected, reached.opened, reached.ticks, reached.reload, fun line sc member => (by cases member)⟩
    (fun _ _ _ _ held taken => held.step taken)

/-- What has been typed before the first `keyboard_getchar`. -/
theorem Booted.typed {booted : KernelState} (reached : Booted image cpu firmware start pmm booted) {events : List LiveEvent}
    {live : Live} (run : Run (LiveStep image.code) booted.live events live) (interrupts : ∀ inner, .getchar inner ∉ events) :
    live.keyboard.point = .idle ∧ ∃ waiting,
      Run QueueStep .empty (events.filterMap LiveEvent.keyboard?) (waitingQueue waiting) ∧
      (∀ c ∈ waiting, c ≠ 0#8) ∧ Mirrors live.keyboard (waitingQueue waiting) := by
  have keyboard := follows_keyboard run reached.connected
  have unread := keyboard_interrupts interrupts
  have idle : booted.live.keyboard.point = .idle := by
    by_contra busy
    exact reached.keyboard.seen busy rfl
  obtain ⟨queue, followed, mirrors⟩ := keyboard.simulation Mirrors reached.keyboard
    (fun _ _ _ _ held taken => held.step taken)
  have conserved : Conserved (events.filterMap LiveEvent.keyboard?) queue :=
    followed.invariant Conserved ⟨rfl, rfl, by simp [CharQueue.empty], by simp [CharQueue.empty]⟩
      (fun _ _ _ _ kept taken => kept.step taken)
  obtain ⟨pending, appended, delivered⟩ := queue
  obtain rfl : delivered = [] := conserved.returned.trans (returnedChars_interrupts unread)
  obtain rfl : appended = pending := conserved.split
  exact ⟨idle_of_interrupts keyboard unread idle, _, followed, conserved.nonzero, mirrors⟩

end

end AstraOS.Kernel
