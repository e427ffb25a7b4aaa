import Mathlib.Logic.Function.Iterate
import AstraOS.Foundation.Bytes
import AstraOS.Foundation.Loop

/-! Computations that ask memory for its bytes one at a time. Every byte that can
matter to the result is therefore one of the reads. -/

namespace AstraOS.Foundation

universe u
variable {Result Other State : Type u}

inductive Reading (width : Nat) (Result : Type u) where
  | done (result : Result)
  | ask (address : BitVec width) (next : BitVec 8 → Reading width Result)

namespace Reading

def bind : Reading width Result → (Result → Reading width Other) → Reading width Other
  | done result, next => next result
  | ask address rest, next => ask address (fun byte => (rest byte).bind next)

instance : Monad (Reading width) where
  pure := done
  bind := bind

def value (memory : Memory width) : Reading width Result → Result
  | done result => result
  | ask address next => (next (memory address)).value memory

/-- The addresses of the bytes, in the order of the reads. -/
def reads (memory : Memory width) : Reading width Result → List (BitVec width)
  | done _ => []
  | ask address next => address :: (next (memory address)).reads memory

/-- A little-endian load of `count` bytes. -/
def load (address : BitVec width) : Nat → Reading width Nat
  | 0 => pure 0
  | count + 1 => do
    let low ← load address count
    let byte ← ask (address + BitVec.ofNat width count) done
    return low + byte.toNat * 256 ^ count

/-- `while (guard) body`, cut off after `fuel` tests of the guard. -/
def loop (guard : State → Bool) (body : State → Reading width State) : Nat → State → Reading width (Option State)
  | 0, _ => pure none
  | fuel + 1, state => if guard state then body state >>= loop guard body fuel else pure (some state)

variable {memory other : Memory width}

@[simp] theorem value_pure (result : Result) : (pure result : Reading width Result).value memory = result := rfl

@[simp] theorem reads_pure (result : Result) : (pure result : Reading width Result).reads memory = [] := rfl

@[simp] theorem value_bind (reading : Reading width Result) (next : Result → Reading width Other) :
    (reading >>= next).value memory = (next (reading.value memory)).value memory := by
  induction reading with
  | done result => rfl
  | ask address rest ih => exact ih (memory address)

@[simp] theorem reads_bind (reading : Reading width Result) (next : Result → Reading width Other) :
    (reading >>= next).reads memory = reading.reads memory ++ (next (reading.value memory)).reads memory := by
  induction reading with
  | done result => rfl
  | ask address rest ih => exact congrArg (address :: ·) (ih (memory address))

@[simp] theorem value_map (f : Result → Other) (reading : Reading width Result) :
    (f <$> reading).value memory = f (reading.value memory) :=
  value_bind reading (fun result => pure (f result))

@[simp] theorem reads_map (f : Result → Other) (reading : Reading width Result) :
    (f <$> reading).reads memory = reading.reads memory := by
  have bound : (f <$> reading).reads memory = reading.reads memory ++ [] :=
    reads_bind reading (fun result => pure (f result))
  rw [bound, List.append_nil]

/-- Memories that agree on the reads of the one give the same run. -/
theorem run_congr (reading : Reading width Result)
    (same : ∀ address ∈ reading.reads memory, other address = memory address) :
    reading.value other = reading.value memory ∧ reading.reads other = reading.reads memory := by
  induction reading with
  | done result => exact ⟨rfl, rfl⟩
  | ask address next ih =>
    have here := same address List.mem_cons_self
    have later := ih (memory address) (fun place read => same place (List.mem_cons_of_mem _ read))
    simp only [value, reads, here]
    exact ⟨later.1, congrArg (address :: ·) later.2⟩

@[simp] theorem value_load (address : BitVec width) (count : Nat) :
    (load address count).value memory = leRead memory address count := by
  induction count with
  | zero => rfl
  | succ count ih => simp [load, leRead, ih, value]

@[simp] theorem reads_load (address : BitVec width) (count : Nat) :
    (load address count).reads memory = (List.range count).map (fun i => address + BitVec.ofNat width i) := by
  induction count with
  | zero => rfl
  | succ count ih => simp [load, reads, ih, List.range_succ]

variable {guard : State → Bool} {body : State → Reading width State}

/-- Without its reads the loop is the pure one. -/
theorem value_loop (fuel : Nat) (state : State) :
    (loop guard body fuel state).value memory = whileLoop guard (fun state => (body state).value memory) fuel state := by
  induction fuel generalizing state with
  | zero => rfl
  | succ fuel ih =>
    by_cases continues : guard state = true
    · simp [loop, whileLoop, continues, ih]
    · simp [loop, whileLoop, continues]

/-- The loop reads what its turns read, for as long as the guard holds. -/
theorem mem_reads_loop {address : BitVec width} (fuel : Nat) (state : State) :
    address ∈ (loop guard body fuel state).reads memory ↔
      ∃ k < fuel, (∀ i ≤ k, guard ((fun state => (body state).value memory)^[i] state) = true) ∧
        address ∈ (body ((fun state => (body state).value memory)^[k] state)).reads memory := by
  induction fuel generalizing state with
  | zero => simp [loop]
  | succ fuel ih =>
    by_cases continues : guard state = true
    · rw [loop, if_pos continues, reads_bind, List.mem_append, ih]
      constructor
      · rintro (first | ⟨k, inside, holds, read⟩)
        · refine ⟨0, Nat.succ_pos fuel, ?_, first⟩
          intro i bound
          obtain rfl := Nat.le_zero.mp bound
          exact continues
        · refine ⟨k + 1, Nat.succ_lt_succ inside, ?_, read⟩
          intro i bound
          cases i with
          | zero => exact continues
          | succ i => exact holds i (Nat.le_of_succ_le_succ bound)
      · rintro ⟨k, inside, holds, read⟩
        cases k with
        | zero => exact Or.inl read
        | succ k =>
          refine Or.inr ⟨k, Nat.lt_of_succ_lt_succ inside, ?_, read⟩
          intro i bound
          exact holds (i + 1) (Nat.succ_le_succ bound)
    · rw [loop, if_neg continues, reads_pure]
      constructor
      · intro read
        cases read
      · rintro ⟨k, -, holds, -⟩
        exact absurd (holds 0 (Nat.zero_le k)) continues

end Reading

end AstraOS.Foundation
