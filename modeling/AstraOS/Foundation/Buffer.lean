import AstraOS.Foundation.Loop

/-! Fixed-size buffers with checked accesses, and the loops that sweep them.
A nested loop over rows and columns is one loop over row-major positions. -/

namespace AstraOS.Foundation

universe u v
variable {State : Type u} {α : Type v} {size : Nat}

/-- `buffer[i] = value`; a write outside the buffer is a fault. -/
def storeAt (buffer : Vector α size) (i : Nat) (value : α) : Option (Vector α size) :=
  if i < size then some (buffer.setIfInBounds i value) else none

theorem storeAt_inside (buffer : Vector α size) (value : α) (inside : i < size) :
    ∃ next, storeAt buffer i value = some next ∧
      ∀ j : Nat, next[j]? = if j = i then some value else buffer[j]? := by
  refine ⟨buffer.setIfInBounds i value, if_pos inside, ?_⟩
  intro j
  rw [Vector.getElem?_setIfInBounds]
  by_cases same : i = j
  · cases same
    simp [inside]
  · simp [same, Ne.symm same]

theorem forRangeM_add (body : Nat → State → Option State) (state : State) (m k : Nat) :
    forRangeM 0 (m + k) body state =
      (forRangeM 0 m body state).bind (forRangeM 0 k (fun x => body (m + x))) := by
  induction k with
  | zero =>
    have nothing : forRangeM 0 0 (fun x => body (m + x)) = some :=
      funext fun current => forRangeM_empty _ current le_rfl
    rw [nothing, Nat.add_zero, Option.bind_fun_some]
  | succ k ih =>
    have last : forRangeM 0 (k + 1) (fun x => body (m + x)) =
        fun current => (forRangeM 0 k (fun x => body (m + x)) current).bind (body (m + k)) :=
      funext fun current => forRangeM_succ _ current (Nat.zero_le k)
    rw [last, ← Nat.add_assoc, forRangeM_succ body state (Nat.zero_le _), ih, Option.bind_assoc]

/-- A sweep row by row visits the row-major positions in order. -/
theorem forRangeM_rowMajor {body : Nat → Nat → State → Option State} {flat : Nat → State → Option State}
    (width height : Nat) (state : State) (position : ∀ y x, body y x = flat (y * width + x)) :
    forRangeM 0 height (fun y => forRangeM 0 width (body y)) state =
      forRangeM 0 (height * width) flat state := by
  induction height with
  | zero => rw [Nat.zero_mul, forRangeM_empty _ _ le_rfl, forRangeM_empty _ _ le_rfl]
  | succ height ih =>
    have row : body height = fun x => flat (height * width + x) := funext (position height)
    rw [forRangeM_succ _ _ (Nat.zero_le height), ih, Nat.succ_mul, forRangeM_add, row]

/-- A fill of consecutive cells. -/
theorem forRangeM_fill (buffer : Vector α size) (value : α) (first count : Nat)
    (inside : first + count ≤ size) :
    ∃ filled, forRangeM 0 count (fun i buffer => storeAt buffer (first + i) value) buffer = some filled ∧
      ∀ j : Nat, filled[j]? = if first ≤ j ∧ j < first + count then some value else buffer[j]? := by
  apply forRangeM_invariant (fun i (current : Vector α size) => ∀ j : Nat,
    current[j]? = if first ≤ j ∧ j < first + i then some value else buffer[j]?) (Nat.zero_le count)
  · intro j
    have none : ¬ (first ≤ j ∧ j < first + 0) := by omega
    rw [if_neg none]
  · intro i current _ below held
    obtain ⟨next, stored, cells⟩ := storeAt_inside current value (show first + i < size by omega)
    refine ⟨next, stored, ?_⟩
    intro j
    rw [cells, held]
    by_cases last : j = first + i
    · rw [if_pos last, if_pos (by omega)]
    · by_cases earlier : first ≤ j ∧ j < first + i
      · rw [if_neg last, if_pos earlier, if_pos (by omega)]
      · rw [if_neg last, if_neg earlier, if_neg (by omega)]

/-- A copy towards lower positions in ascending order reads every source cell
before that cell is overwritten. -/
theorem forRangeM_copyDown (buffer : Vector α size) (gap count : Nat) (gapped : 0 < gap)
    (inside : count + gap ≤ size) :
    ∃ moved, forRangeM 0 count (fun i buffer => do
        let value ← (buffer : Vector α size)[i + gap]?
        storeAt buffer i value) buffer = some moved ∧
      ∀ j : Nat, moved[j]? = if j < count then buffer[j + gap]? else buffer[j]? := by
  apply forRangeM_invariant (fun i (current : Vector α size) => ∀ j : Nat,
    current[j]? = if j < i then buffer[j + gap]? else buffer[j]?) (Nat.zero_le count)
  · intro j
    rw [if_neg (Nat.not_lt_zero j)]
  · intro i current _ below held
    have source : current[i + gap]? = buffer[i + gap]? := by
      rw [held, if_neg (by omega)]
    obtain ⟨value, read⟩ : ∃ value, buffer[i + gap]? = some value :=
      ⟨_, Vector.getElem?_eq_getElem (by omega)⟩
    obtain ⟨next, stored, cells⟩ := storeAt_inside current value (show i < size by omega)
    refine ⟨next, by simp [source, read, stored], ?_⟩
    intro j
    rw [cells, held]
    rcases Nat.lt_trichotomy j i with before | same | after
    · rw [if_neg (by omega), if_pos before, if_pos (by omega)]
    · cases same
      rw [if_pos rfl, if_pos (Nat.lt_succ_self _), read]
    · rw [if_neg (by omega), if_neg (by omega), if_neg (by omega)]

/-- The first cells have been written with these values. -/
def Filled (buffer : Vector (Option α) size) (values : List α) : Prop :=
  ∀ j < values.length, buffer[j]? = some values[j]?

theorem Filled.push {buffer : Vector (Option α) size} {values : List α} (filled : Filled buffer values)
    (room : values.length < size) (value : α) :
    ∃ next, storeAt buffer values.length (some value) = some next ∧ Filled next (values ++ [value]) := by
  obtain ⟨next, stored, cells⟩ := storeAt_inside buffer (some value) room
  refine ⟨next, stored, ?_⟩
  intro j below
  rw [List.length_append, List.length_singleton] at below
  rw [cells]
  by_cases last : j = values.length
  · rw [if_pos last, last, List.getElem?_concat_length]
  · have old : j < values.length := by omega
    rw [if_neg last, filled j old, List.getElem?_append_left old]

theorem Filled.toList {buffer : Vector (Option α) size} {values : List α} (filled : Filled buffer values) :
    ∃ cells, buffer.toList = values.map some ++ cells := by
  have front : buffer.toList.take values.length = values.map some := by
    apply List.ext_getElem?
    intro j
    rw [List.getElem?_take, List.getElem?_map]
    by_cases below : j < values.length
    · rw [if_pos below, Vector.getElem?_toList, filled j below, List.getElem?_eq_getElem below]
      rfl
    · rw [if_neg below, List.getElem?_eq_none (Nat.not_lt.mp below)]
      rfl
  exact ⟨buffer.toList.drop values.length, by rw [← front, List.take_append_drop]⟩

/-- `for (; a < b; a++, b--)` exchanging two cells; reading a cell that was
never written is a fault. -/
def swapLoop : Nat → Nat → Nat → Vector (Option α) size → Option (Vector (Option α) size)
  | 0, _, _, _ => none
  | fuel + 1, a, b, buffer =>
    if a < b then do
      let tmp ← buffer[a]?.join
      let other ← buffer[b]?.join
      let buffer ← storeAt buffer a (some other)
      let buffer ← storeAt buffer b (some tmp)
      swapLoop fuel (a + 1) (b - 1) buffer
    else some buffer

/-- Outside the two indices the values are already reversed, between them not yet. -/
def HalfReversed (buffer : Vector (Option α) size) (values : List α) (a b : Nat) : Prop :=
  ∀ j < values.length, buffer[j]? = some (if a ≤ j ∧ j ≤ b then values[j]? else values.reverse[j]?)

theorem HalfReversed.exchange {buffer : Vector (Option α) size} {values : List α}
    (held : HalfReversed buffer values a b) (meeting : a + b + 1 = values.length) (inside : values.length ≤ size)
    (apart : a < b) :
    ∃ next, HalfReversed next values (a + 1) (b - 1) ∧
      ∀ fuel, swapLoop (fuel + 1) a b buffer = swapLoop fuel (a + 1) (b - 1) next := by
  have low : a < values.length := by omega
  have high : b < values.length := by omega
  have first : buffer[a]? = some (some values[a]) := by
    rw [held a low, if_pos (by omega), List.getElem?_eq_getElem low]
  have last : buffer[b]? = some (some values[b]) := by
    rw [held b high, if_pos (by omega), List.getElem?_eq_getElem high]
  obtain ⟨half, one, before⟩ := storeAt_inside buffer (some values[b]) (show a < size by omega)
  obtain ⟨next, two, after⟩ := storeAt_inside half (some values[a]) (show b < size by omega)
  refine ⟨next, ?_, ?_⟩
  · intro j below
    rw [after, before]
    rcases eq_or_ne j b with same | notHigh
    · have mirrored : values.length - 1 - b = a := by omega
      rw [if_pos same, same, if_neg (by omega), List.getElem?_reverse high, mirrored, List.getElem?_eq_getElem low]
    rcases eq_or_ne j a with same | notLow
    · have mirrored : values.length - 1 - a = b := by omega
      rw [if_neg notHigh, if_pos same, same, if_neg (by omega), List.getElem?_reverse low, mirrored,
        List.getElem?_eq_getElem high]
    · rw [if_neg notHigh, if_neg notLow, held j below]
      by_cases between : a ≤ j ∧ j ≤ b
      · rw [if_pos between, if_pos (by omega)]
      · rw [if_neg between, if_neg (by omega)]
  · intro fuel
    rw [swapLoop, if_pos apart]
    simp [first, last, one, two]

/-- Two indices that meet in the middle reverse what lies between them. -/
theorem swapLoop_reverse {buffer : Vector (Option α) size} {values : List α}
    (held : HalfReversed buffer values a b) (meeting : a + b + 1 = values.length) (inside : values.length ≤ size)
    (ordered : a ≤ b + 1) (enough : b + 1 < fuel + a) :
    ∃ final, swapLoop fuel a b buffer = some final ∧ Filled final values.reverse := by
  induction fuel generalizing a b buffer with
  | zero => omega
  | succ fuel ih =>
    by_cases apart : a < b
    · obtain ⟨next, kept, round⟩ := held.exchange meeting inside apart
      rw [round]
      exact ih kept (by omega) (by omega) (by omega)
    · refine ⟨buffer, if_neg apart, ?_⟩
      intro j below
      rw [List.length_reverse] at below
      rw [held j below]
      by_cases middle : a ≤ j ∧ j ≤ b
      · have mirrored : values.length - 1 - j = j := by omega
        rw [if_pos middle, List.getElem?_reverse below, mirrored]
      · rw [if_neg middle]

theorem Filled.reverse {buffer : Vector (Option α) size} {values : List α} (filled : Filled buffer values)
    (nonempty : values ≠ []) (inside : values.length ≤ size) (enough : values.length < fuel) :
    ∃ final, swapLoop fuel 0 (values.length - 1) buffer = some final ∧ Filled final values.reverse := by
  have positive : 0 < values.length := List.length_pos_iff.mpr nonempty
  refine swapLoop_reverse ?_ (by omega) inside (by omega) (by omega)
  intro j below
  rw [filled j below, if_pos (by omega)]

end AstraOS.Foundation
