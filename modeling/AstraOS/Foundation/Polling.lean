import Mathlib.Data.List.Range

/-! Waiting for a device by reading its answers one by one until one is ready.
The answers are any infinite sequence, so a wait may last for ever. -/

namespace AstraOS.Foundation

/-- From `start` on, the answer at `k` is the first that is ready. -/
structure FirstReady (ready : Nat → Prop) (start k : Nat) : Prop where
  after : start ≤ k
  here : ready k
  before : ∀ j, start ≤ j → j < k → ¬ ready j

/-- So many waits in a row, each beginning behind the answer that ended the one before. -/
inductive Waits (ready : Nat → Prop) : Nat → Nat → Nat → Prop where
  | done {start} : Waits ready 0 start start
  | wait {count start k finish} (first : FirstReady ready start k) (rest : Waits ready count (k + 1) finish) :
      Waits ready (count + 1) start finish

variable {ready : Nat → Prop} {start k finish count : Nat}

theorem FirstReady.now (here : ready start) : FirstReady ready start start :=
  ⟨le_rfl, here, fun _ above below => absurd above (Nat.not_le.mpr below)⟩

/-- An answer that is not ready can be put in front. -/
theorem FirstReady.earlier (first : FirstReady ready (start + 1) k) (busy : ¬ ready start) :
    FirstReady ready start k := by
  refine ⟨(Nat.le_succ start).trans first.after, first.here, ?_⟩
  intro j above below
  rcases Nat.eq_or_lt_of_le above with same | later
  · exact same ▸ busy
  · exact first.before j later below

theorem FirstReady.later (first : FirstReady ready start k) (busy : ¬ ready start) :
    FirstReady ready (start + 1) k := by
  refine ⟨lt_of_le_of_ne first.after fun same => busy (same ▸ first.here), first.here, ?_⟩
  intro j above below
  exact first.before j ((Nat.le_succ start).trans above) below

theorem FirstReady.eq_of_ready (first : FirstReady ready start k) (here : ready start) : k = start := by
  by_contra other
  exact first.before start le_rfl (lt_of_le_of_ne first.after (Ne.symm other)) here

theorem Waits.le (waits : Waits ready count start finish) : start ≤ finish := by
  induction waits with
  | done => exact le_rfl
  | wait first rest ih => exact first.after.trans ((Nat.le_succ _).trans ih)

theorem Waits.earlier (waits : Waits ready count (start + 1) finish) (busy : ¬ ready start) :
    ∃ last, Waits ready count start last := by
  cases waits with
  | done => exact ⟨start, .done⟩
  | wait first rest => exact ⟨finish, .wait (first.earlier busy) rest⟩

variable [DecidablePred ready]

theorem Waits.countP (waits : Waits ready count start finish) :
    count ≤ (List.range' start (finish - start)).countP (fun j => ready j) := by
  induction waits with
  | done => exact Nat.zero_le _
  | wait first rest ih =>
    obtain ⟨gap, rfl⟩ := Nat.exists_eq_add_of_le first.after
    obtain ⟨more, rfl⟩ := Nat.exists_eq_add_of_le rest.le
    rw [Nat.add_sub_cancel_left] at ih
    rw [Nat.add_assoc, Nat.add_assoc, Nat.add_sub_cancel_left, Nat.add_comm 1 more, ← List.range'_append_1,
      List.range'_succ, List.countP_append, List.countP_cons_of_pos (by simpa using first.here)]
    omega

theorem waits_of_countP (enough : count ≤ (List.range' start m).countP (fun j => ready j)) :
    ∃ finish, Waits ready count start finish := by
  induction m generalizing start count with
  | zero =>
    have none : count = 0 := Nat.le_zero.mp enough
    exact ⟨start, none ▸ .done⟩
  | succ m ih =>
    rw [List.range'_succ] at enough
    by_cases now : ready start
    · rw [List.countP_cons_of_pos (by simpa using now)] at enough
      cases count with
      | zero => exact ⟨start, .done⟩
      | succ count =>
        obtain ⟨finish, rest⟩ := ih (Nat.le_of_succ_le_succ enough)
        exact ⟨finish, .wait (.now now) rest⟩
    · rw [List.countP_cons_of_neg (by simpa using now)] at enough
      obtain ⟨finish, rest⟩ := ih enough
      exact rest.earlier now

/-- The waits end exactly when enough answers are ready. -/
theorem waits_iff_countP (count start : Nat) :
    (∃ finish, Waits ready count start finish) ↔
      ∃ m, count ≤ (List.range' start m).countP (fun j => ready j) :=
  ⟨fun ⟨_, waits⟩ => ⟨_, waits.countP⟩, fun ⟨_, enough⟩ => waits_of_countP enough⟩

end AstraOS.Foundation
