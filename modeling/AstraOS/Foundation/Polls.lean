import AstraOS.Foundation.Polling

/-! Programs that wait for a device again and again, cut off by fuel. Their
contract counts the waits, so it says when a program ends and what it has done. -/

namespace AstraOS.Foundation

universe u
variable {State : Type u} {ready : Nat → Prop} {clock : State → Nat}
variable {start middle finish count more : Nat}

/-- `clock` is the number of answers read so far. A run that ends has waited
`count` times; it ends when the device ends so many waits and the fuel reaches
over them and over `least`, which the device has no part in. -/
structure Polls (ready : Nat → Prop) (clock : State → Nat) (pre : State → Prop) (count : Nat)
    (program : Nat → State → Option State) (post : State → State → Prop) : Prop where
  done : ∀ fuel state final, pre state → program fuel state = some final →
    post state final ∧ Waits ready count (clock state) (clock final)
  ends : ∃ least, ∀ fuel state finish, pre state → Waits ready count (clock state) finish → finish ≤ fuel →
    least ≤ fuel → ∃ final, program fuel state = some final

theorem FirstReady.unique (one : FirstReady ready start k) (two : FirstReady ready start j) : k = j := by
  rcases Nat.lt_trichotomy k j with below | same | above
  · exact absurd one.here (two.before k one.after below)
  · exact same
  · exact absurd two.here (one.before j two.after above)

theorem Waits.unique (one : Waits ready count start middle) (two : Waits ready count start finish) :
    middle = finish := by
  induction one with
  | done =>
    cases two
    rfl
  | wait first rest ih =>
    cases two with
    | wait other others =>
      cases first.unique other
      exact ih others

theorem Waits.split (waits : Waits ready (count + more) start finish) :
    ∃ middle, Waits ready count start middle ∧ Waits ready more middle finish := by
  induction count generalizing start with
  | zero =>
    rw [Nat.zero_add] at waits
    exact ⟨start, .done, waits⟩
  | succ count ih =>
    rw [Nat.add_right_comm] at waits
    cases waits with
    | wait first rest =>
      obtain ⟨middle, front, back⟩ := ih rest
      exact ⟨middle, .wait first front, back⟩

theorem Waits.append (front : Waits ready count start middle) (back : Waits ready more middle finish) :
    Waits ready (count + more) start finish := by
  induction front with
  | done => exact (Nat.zero_add more).symm ▸ back
  | wait first rest ih => exact (Nat.add_right_comm _ 1 more) ▸ .wait first (ih back)

section
variable {pre other : State → Prop} {program next : Nat → State → Option State}
variable {post link : State → State → Prop}

theorem Polls.of_eq (contract : Polls ready clock pre count program post)
    (same : ∀ fuel state, next fuel state = program fuel state) : Polls ready clock pre count next post := by
  have equal : next = program := funext fun fuel => funext (same fuel)
  exact equal ▸ contract

/-- A step that reads nothing from the device. -/
theorem Polls.quiet {step : State → Option State}
    (taken : ∀ state, pre state → ∃ final, step state = some final ∧ post state final ∧ clock final = clock state) :
    Polls ready clock pre 0 (fun _ => step) post := by
  constructor
  · intro fuel state final holds stepped
    obtain ⟨_, same, held, still⟩ := taken state holds
    cases same.symm.trans stepped
    exact ⟨held, still ▸ .done⟩
  · refine ⟨0, ?_⟩
    intro fuel state finish holds waits enough budget
    obtain ⟨final, same, -, -⟩ := taken state holds
    exact ⟨final, same⟩

/-- One program after another: the waits add up. -/
theorem Polls.seq (first : Polls ready clock pre count program link) (second : Polls ready clock other more next post)
    (joined : ∀ state final, pre state → link state final → other final) :
    Polls ready clock pre (count + more) (fun fuel state => (program fuel state).bind (next fuel))
      (fun state final => ∃ between, link state between ∧ post between final) := by
  constructor
  · intro fuel state final holds ran
    obtain ⟨between, one, two⟩ := Option.bind_eq_some_iff.mp ran
    obtain ⟨linked, front⟩ := first.done fuel state between holds one
    obtain ⟨held, back⟩ := second.done fuel between final (joined _ _ holds linked) two
    exact ⟨⟨between, linked, held⟩, front.append back⟩
  · obtain ⟨least, begins⟩ := first.ends
    obtain ⟨later, continues⟩ := second.ends
    refine ⟨max least later, ?_⟩
    intro fuel state finish holds waits enough budget
    obtain ⟨middle, front, back⟩ := waits.split
    obtain ⟨between, one⟩ := begins fuel state middle holds front (back.le.trans enough)
      ((Nat.le_max_left _ _).trans budget)
    obtain ⟨linked, spent⟩ := first.done fuel state between holds one
    rw [front.unique spent] at back
    obtain ⟨final, two⟩ := continues fuel between finish (joined _ _ holds linked) back enough
      ((Nat.le_max_right _ _).trans budget)
    exact ⟨final, by rw [one, Option.bind_some, two]⟩

/-- A stronger precondition, and from there a weaker postcondition. -/
theorem Polls.consequence (contract : Polls ready clock pre count program link)
    (stronger : ∀ state, other state → pre state)
    (weaker : ∀ state final, other state → link state final → post state final) :
    Polls ready clock other count program post := by
  constructor
  · intro fuel state final holds ran
    obtain ⟨held, waits⟩ := contract.done fuel state final (stronger state holds) ran
    exact ⟨weaker state final holds held, waits⟩
  · obtain ⟨least, ends⟩ := contract.ends
    refine ⟨least, ?_⟩
    intro fuel state finish holds waits enough budget
    exact ends fuel state finish (stronger state holds) waits enough budget

/-- A program on one part of a larger state. -/
theorem Polls.frame {Large : Type u} (view : Large → State) (build : Large → State → Large)
    (kept : ∀ large small, view (build large small) = small) (contract : Polls ready clock pre count program post) :
    Polls ready (fun large => clock (view large)) (fun large => pre (view large)) count
      (fun fuel large => (program fuel (view large)).map (build large))
      (fun large final => final = build large (view final) ∧ post (view large) (view final)) := by
  constructor
  · intro fuel large final holds ran
    obtain ⟨small, part, rfl⟩ := Option.map_eq_some_iff.mp ran
    rw [kept]
    obtain ⟨held, waits⟩ := contract.done fuel (view large) small holds part
    exact ⟨⟨rfl, held⟩, waits⟩
  · obtain ⟨least, ends⟩ := contract.ends
    refine ⟨least, ?_⟩
    intro fuel large finish holds waits enough budget
    obtain ⟨small, part⟩ := ends fuel (view large) finish holds waits enough budget
    exact ⟨build large small, by rw [part, Option.map_some]⟩

/-- The program ends exactly when the device gives as many ready answers. -/
theorem Polls.ends_iff [DecidablePred ready] (contract : Polls ready clock pre count program post) {state : State}
    (holds : pre state) :
    (∃ fuel final, program fuel state = some final) ↔
      ∃ m, count ≤ (List.range' (clock state) m).countP (fun j => ready j) := by
  rw [← waits_iff_countP]
  constructor
  · rintro ⟨fuel, final, ran⟩
    exact ⟨_, (contract.done fuel state final holds ran).2⟩
  · rintro ⟨finish, waits⟩
    obtain ⟨least, ends⟩ := contract.ends
    exact ⟨max finish least, ends _ state finish holds waits (Nat.le_max_left _ _) (Nat.le_max_right _ _)⟩

end

end AstraOS.Foundation
