import AstraOS.Kernel.Format
import Mathlib.Data.List.DropRight

/-! How far `kprintf` reads its format. A percent sign takes the character after
it, whatever it is, so a format may end with a percent sign that takes the NUL. -/

namespace AstraOS.Kernel
open AstraOS.Foundation

/-- The number of percent signs at the end of a format. -/
def trailingPercents (text : List (BitVec 8)) : Nat := (text.rtakeWhile (fun c => c = ascii '%')).length

/-- No NUL among the calls, but for arguments of `%c`. -/
def NulFree (emissions : List Emission) : Prop := ∀ c ∈ emissions, c.char = 0#8 → c.charArgument = true

/-- Printing ends, having read no index of the format beyond `length` and
emitted no NUL of its own. -/
def KprintfSafe (memory : Memory 32) (fmt : BitVec 32) (args : List (BitVec 32)) (length : Nat) : Prop :=
  ∃ fuel final, kprintf memory fmt args fuel = some final ∧ (∀ i ∈ final.reads, i ≤ length) ∧
    NulFree (final.calls.map ConsoleCall.emission)

theorem parse_source (text : List (BitVec 8)) :
    text = sourceText (parse text).1 ++ if (parse text).2 then [ascii '%'] else [] := by
  fun_induction parse text with
  | case1 => rfl
  | case2 => rfl
  | case3 => rfl
  | case4 next rest ih =>
    rw [sourceText, List.flatMap_cons, ← sourceText, List.append_assoc, ← ih]
    rfl
  | case5 c next rest ordinary ih =>
    rw [sourceText, List.flatMap_cons, ← sourceText, List.append_assoc, ← ih]
    rfl

theorem parse_proper (text : List (BitVec 8)) : ∀ token ∈ (parse text).1, token.Proper := by
  fun_induction parse text with
  | case1 => simp
  | case2 => simp
  | case3 c ordinary =>
    intro token member
    cases List.mem_singleton.mp member
    exact ordinary
  | case4 next rest ih =>
    intro token member
    rcases List.mem_cons.mp member with same | later
    · cases same
      trivial
    · exact ih token later
  | case5 c next rest ordinary ih =>
    intro token member
    rcases List.mem_cons.mp member with same | later
    · cases same
      exact ordinary
    · exact ih token later

theorem trailingPercents_le (text : List (BitVec 8)) : trailingPercents text ≤ text.length := by
  rw [trailingPercents, List.rtakeWhile, List.length_reverse]
  exact (List.takeWhile_prefix _).length_le.trans (le_of_eq List.length_reverse)

theorem trailingPercents_cons (c : BitVec 8) (text : List (BitVec 8)) :
    trailingPercents (c :: text) = if trailingPercents text = text.length
      then text.length + (if c = ascii '%' then 1 else 0) else trailingPercents text := by
  simp only [trailingPercents, List.rtakeWhile, List.length_reverse, List.reverse_cons]
  rw [List.takeWhile_append, List.length_reverse]
  split
  · by_cases percent : c = ascii '%'
    · simp [percent]
    · simp [percent]
  · rfl

/-- A percent sign is left over exactly when an odd number of them ends the format. -/
theorem parse_dangling (text : List (BitVec 8)) : (parse text).2 = false ↔ Even (trailingPercents text) := by
  fun_induction parse text with
  | case1 => simp [trailingPercents]
  | case2 => decide
  | case3 c ordinary =>
    rw [trailingPercents_cons, if_neg ordinary]
    simp [trailingPercents]
  | case4 next rest ih =>
    have short := trailingPercents_le rest
    rw [ih, trailingPercents_cons, trailingPercents_cons, List.length_cons, if_pos rfl]
    by_cases full : trailingPercents rest = rest.length
    · rw [if_pos full, full]
      by_cases percent : next = ascii '%'
      · rw [if_pos percent, if_pos rfl, Nat.add_assoc, Nat.even_add]
        simp
      · rw [if_neg percent, if_neg (by omega), Nat.add_zero]
    · rw [if_neg full, if_neg (by omega)]
  | case5 c next rest ordinary ih =>
    rw [ih, trailingPercents_cons c, if_neg ordinary, Nat.add_zero]
    split
    · rename_i full
      rw [full]
    · rfl

theorem plain_nulFree {text : List (BitVec 8)} (nonzero : 0#8 ∉ text) : NulFree (plain text) := by
  intro c member zero
  obtain ⟨char, present, rfl⟩ := List.mem_map.mp member
  exact absurd (zero ▸ present) nonzero

theorem NulFree.append {first second : List Emission} (one : NulFree first) (two : NulFree second) :
    NulFree (first ++ second) := by
  intro c member
  rcases List.mem_append.mp member with front | back
  · exact one c front
  · exact two c back

/-- Only `%c` can print a NUL. -/
theorem Renders.nulFree {memory : Memory 32} {token : Token} {args rest : List (BitVec 32)}
    {emissions : List Emission} (rendered : Renders memory token args rest emissions)
    (nonzero : 0#8 ∉ token.source) : NulFree emissions := by
  cases rendered with
  | literal => exact plain_nulFree nonzero
  | char case =>
    intro c member _
    cases List.mem_singleton.mp member
    rfl
  | null case => exact plain_nulFree (by decide)
  | string case pointer string => exact plain_nulFree string.nonzero
  | signed case => exact plain_nulFree (intText_nonzero _)
  | unsigned case => exact plain_nulFree (uintText_nonzero _ _ (by decide) (by decide))
  | hexLower case => exact plain_nulFree (uintText_nonzero _ _ (by decide) (by decide))
  | hexUpper case => exact plain_nulFree (uintText_nonzero _ _ (by decide) (by decide))
  | percent case => exact plain_nulFree (by decide)
  | other case => exact plain_nulFree nonzero

theorem supplied_argument {memory : Memory 32} {c : BitVec 8} {tokens : List Token} {args : List (BitVec 32)}
    (supplied : Supplied memory (.directive c :: tokens) args) (takes : (specifier c).takesArgument = true) :
    ∃ arg rest, args = arg :: rest ∧ (specifier c = .string → Printable memory arg) ∧
      Supplied memory tokens rest := by
  unfold Supplied at supplied
  rw [if_pos takes] at supplied
  cases args with
  | nil => cases supplied
  | cons arg rest => exact ⟨arg, rest, rfl, supplied⟩

theorem supplied_plain {memory : Memory 32} {c : BitVec 8} {tokens : List Token} {args : List (BitVec 32)}
    (supplied : Supplied memory (.directive c :: tokens) args) (plain : (specifier c).takesArgument = false) :
    Supplied memory tokens args := by
  unfold Supplied at supplied
  rw [plain] at supplied
  exact supplied

/-- Every directive finds its argument. -/
theorem directive_renders {memory : Memory 32} {c : BitVec 8} {tokens : List Token} {args : List (BitVec 32)}
    (supplied : Supplied memory (.directive c :: tokens) args) :
    ∃ rest emissions, Renders memory (.directive c) args rest emissions ∧ Supplied memory tokens rest := by
  have taken := supplied_argument supplied
  have skipped := supplied_plain supplied
  cases case : specifier c with
  | percent =>
    rw [case] at skipped
    exact ⟨args, _, .percent case, skipped rfl⟩
  | other =>
    rw [case] at skipped
    exact ⟨args, _, .other case, skipped rfl⟩
  | char =>
    rw [case] at taken
    obtain ⟨arg, rest, rfl, -, remaining⟩ := taken rfl
    exact ⟨rest, _, .char case, remaining⟩
  | string =>
    rw [case] at taken
    obtain ⟨s, rest, rfl, printable, remaining⟩ := taken rfl
    by_cases null : s = 0#32
    · cases null
      exact ⟨rest, _, .null case, remaining⟩
    · obtain ⟨text, string⟩ := (printable rfl).resolve_left null
      exact ⟨rest, _, .string case null string, remaining⟩
  | signed =>
    rw [case] at taken
    obtain ⟨arg, rest, rfl, -, remaining⟩ := taken rfl
    exact ⟨rest, _, .signed case, remaining⟩
  | unsigned =>
    rw [case] at taken
    obtain ⟨arg, rest, rfl, -, remaining⟩ := taken rfl
    exact ⟨rest, _, .unsigned case, remaining⟩
  | hexLower =>
    rw [case] at taken
    obtain ⟨arg, rest, rfl, -, remaining⟩ := taken rfl
    exact ⟨rest, _, .hexLower case, remaining⟩
  | hexUpper =>
    rw [case] at taken
    obtain ⟨arg, rest, rfl, -, remaining⟩ := taken rfl
    exact ⟨rest, _, .hexUpper case, remaining⟩

theorem supplied_printed {memory : Memory 32} {tokens : List Token} {args : List (BitVec 32)}
    (supplied : Supplied memory tokens args) (nonzero : 0#8 ∉ sourceText tokens) :
    ∃ rest emissions, Printed memory tokens args rest emissions ∧ NulFree emissions := by
  induction tokens generalizing args with
  | nil => exact ⟨args, [], .nil, fun c member => by cases member⟩
  | cons token tokens ih =>
    rw [sourceText, List.flatMap_cons, List.mem_append, not_or] at nonzero
    have rendered : ∃ rest emissions, Renders memory token args rest emissions ∧ Supplied memory tokens rest := by
      cases token with
      | literal c => exact ⟨args, _, .literal, supplied⟩
      | directive c => exact directive_renders supplied
    obtain ⟨middle, first, head, remaining⟩ := rendered
    obtain ⟨rest, others, tail, free⟩ := ih remaining nonzero.2
    exact ⟨rest, first ++ others, .cons head tail, (head.nulFree nonzero.1).append free⟩

/-- The reads so far, and the one at the current position. -/
def PrintState.ReadBy (state next : PrintState) : Prop :=
  state.index ∈ next.reads ∧ ∀ i ∈ state.reads, i ∈ next.reads

theorem vaArg_reads {state next : PrintState} {print : BitVec 32 → List ConsoleCall → Option (List ConsoleCall)}
    (taken : state.vaArg print = some next) : next.reads = state.reads := by
  unfold PrintState.vaArg at taken
  split at taken
  · cases taken
  · obtain ⟨calls, -, rfl⟩ := Option.map_eq_some_iff.mp taken
    rfl

theorem printSpecifier_reads {memory : Memory 32} {fmt : BitVec 32} {c : BitVec 8} {state next : PrintState}
    (printed : printSpecifier memory fmt c state = some next) : ∀ i ∈ state.reads, i ∈ next.reads := by
  intro i member
  have argument : ∀ print, state.vaArg print = some next → i ∈ next.reads := by
    intro print taken
    rw [vaArg_reads taken]
    exact member
  unfold printSpecifier at printed
  cases case : specifier c with
  | percent =>
    rw [case] at printed
    cases printed
    exact member
  | other =>
    rw [case] at printed
    cases printed
    exact List.mem_append_left _ member
  | char =>
    rw [case] at printed
    exact argument _ printed
  | string =>
    rw [case] at printed
    exact argument _ printed
  | signed =>
    rw [case] at printed
    exact argument _ printed
  | unsigned =>
    rw [case] at printed
    exact argument _ printed
  | hexLower =>
    rw [case] at printed
    exact argument _ printed
  | hexUpper =>
    rw [case] at printed
    exact argument _ printed

/-- What a round can do: end the loop, go on, or fault; it reads its position in
the first two cases. -/
theorem kprintfLoop_round (memory : Memory 32) (fmt : BitVec 32) (state : PrintState) :
    (∃ final, state.ReadBy final ∧ ∀ fuel, kprintfLoop memory fmt (fuel + 1) state = some final) ∨
    (∃ next, state.ReadBy next ∧
      ∀ fuel, kprintfLoop memory fmt (fuel + 1) state = kprintfLoop memory fmt fuel next) ∨
    ∀ fuel, kprintfLoop memory fmt (fuel + 1) state = none := by
  by_cases ended : memory (fmt + BitVec.ofNat 32 state.index) = 0#8
  · refine .inl ⟨_, ?_, kprintfLoop_end ended⟩
    exact ⟨by simp [PrintState.deref], fun i member => List.mem_append_left _ member⟩
  by_cases percent : memory (fmt + BitVec.ofNat 32 state.index) = ascii '%'
  · have round := kprintfLoop_percent percent
    cases printed : printSpecifier memory fmt (memory (fmt + BitVec.ofNat 32 (state.index + 1))) state.afterPercent with
    | none =>
      rw [printed] at round
      exact .inr (.inr round)
    | some next =>
      rw [printed] at round
      have kept := printSpecifier_reads printed
      refine .inr (.inl ⟨next.advance, ⟨?_, ?_⟩, round⟩)
      · exact kept state.index (by simp [PrintState.afterPercent])
      · intro i member
        exact kept i (by simp [PrintState.afterPercent, member])
  · refine .inr (.inl ⟨_, ?_, kprintfLoop_literal ended percent⟩)
    exact ⟨by simp, fun i member => by simp [member]⟩

theorem kprintfLoop_mono {memory : Memory 32} {fmt : BitVec 32} {state final : PrintState}
    (finished : kprintfLoop memory fmt fuel state = some final) (extra : Nat) :
    kprintfLoop memory fmt (fuel + extra) state = some final := by
  induction fuel generalizing state with
  | zero => cases finished
  | succ fuel ih =>
    rw [Nat.add_right_comm]
    rcases kprintfLoop_round memory fmt state with ⟨ending, -, round⟩ | ⟨next, -, round⟩ | round
    · rw [round] at finished ⊢
      exact finished
    · rw [round] at finished ⊢
      exact ih finished
    · rw [round] at finished
      cases finished

theorem kprintfLoop_reads {memory : Memory 32} {fmt : BitVec 32} {state final : PrintState}
    (finished : kprintfLoop memory fmt fuel state = some final) : state.ReadBy final := by
  induction fuel generalizing state with
  | zero => cases finished
  | succ fuel ih =>
    rcases kprintfLoop_round memory fmt state with ⟨ending, read, round⟩ | ⟨next, read, round⟩ | round
    · rw [round] at finished
      cases finished
      exact read
    · rw [round] at finished
      obtain ⟨-, kept⟩ := ih finished
      exact ⟨kept _ read.1, fun i member => kept i (read.2 i member)⟩
    · rw [round] at finished
      cases finished

section
variable {memory : Memory 32} {fmt : BitVec 32} {args : List (BitVec 32)} {text : List (BitVec 8)}

/-- The loop up to the end of the last token. -/
theorem kprintf_tokens (format : CString memory fmt text) (supplied : Supplied memory (parse text).1 args) :
    ∃ next rest emissions, NulFree emissions ∧
      Advances ⟨0, args, [], []⟩ next (sourceText (parse text).1).length rest emissions ∧
      ∀ fuel, kprintf memory fmt args (fuel + (parse text).1.length) = kprintfLoop memory fmt fuel next := by
  have nonzero : 0#8 ∉ sourceText (parse text).1 := by
    intro member
    apply format.nonzero
    rw [parse_source text]
    exact List.mem_append_left _ member
  obtain ⟨rest, emissions, printed, free⟩ := supplied_printed supplied nonzero
  have start : CString memory (fmt + BitVec.ofNat 32 (PrintState.mk 0 args [] []).index)
      (sourceText (parse text).1 ++ if (parse text).2 then [ascii '%'] else []) := by
    rw [← parse_source, BitVec.add_zero]
    exact format
  obtain ⟨next, rounds, advanced⟩ := kprintfLoop_tokens start (parse_proper text) printed
  exact ⟨next, rest, emissions, free, advanced, rounds⟩

theorem emitEach_emissions (emissions : List Emission) (calls : List ConsoleCall) :
    ∀ c ∈ (emitEach emissions calls).map ConsoleCall.emission,
      c ∈ calls.map ConsoleCall.emission ∨ c ∈ emissions := by
  induction emissions generalizing calls with
  | nil => exact fun c member => .inl member
  | cons first others ih =>
    intro c member
    rcases ih (emit first calls) c member with early | late
    · simp only [emit, List.map_append, List.mem_append, List.map_cons, List.map_nil, ConsoleCall.emission,
        List.mem_cons, List.not_mem_nil, or_false, or_self] at early
      rcases early with old | same
      · exact .inl old
      · exact .inr (same ▸ List.mem_cons_self)
    · exact .inr (List.mem_cons_of_mem first late)

theorem whole_format_safe (format : CString memory fmt text) (supplied : Supplied memory (parse text).1 args)
    (whole : (parse text).2 = false) : KprintfSafe memory fmt args text.length := by
  obtain ⟨next, rest, emissions, free, advanced, rounds⟩ := kprintf_tokens format supplied
  have source := parse_source text
  rw [whole] at source
  have length : next.index = text.length := by
    rw [advanced.index]
    simpa using congrArg List.length source.symm
  have ended : memory (fmt + BitVec.ofNat 32 next.index) = 0#8 := by
    rw [length, format.stored.read text.length (by simp), List.getElem_concat_length rfl]
  refine ⟨1 + (parse text).1.length, _, (rounds 1).trans (kprintfLoop_end ended 0), ?_, ?_⟩
  · intro i member
    rcases List.mem_append.mp member with early | last
    · rcases advanced.reads i early with none | inside
      · cases none
      · exact length ▸ inside.2.le
    · exact (List.mem_singleton.mp last).trans_le length.le
  · intro c member
    have emitted : c ∈ (emitEach emissions []).map ConsoleCall.emission := advanced.calls ▸ member
    exact free c ((emitEach_emissions emissions [] c emitted).resolve_left (by simp))

/-- A lone percent sign at the end takes the NUL, and the loop goes on behind it. -/
theorem dangling_reads_past (format : CString memory fmt text) (supplied : Supplied memory (parse text).1 args)
    (dangling : (parse text).2 = true) {final : PrintState}
    (finished : kprintf memory fmt args fuel = some final) : text.length + 1 ∈ final.reads := by
  obtain ⟨next, rest, emissions, -, advanced, rounds⟩ := kprintf_tokens format supplied
  have source := parse_source text
  rw [dangling, if_pos rfl] at source
  have length : next.index + 1 = text.length := by
    rw [advanced.index]
    simpa using congrArg List.length source.symm
  have percent : memory (fmt + BitVec.ofNat 32 next.index) = ascii '%' := by
    have bound : next.index < text.length := by omega
    have place : next.index = (sourceText (parse text).1).length := by simpa using advanced.index
    rw [format.stored.read next.index (by simp; omega), List.getElem_append_left bound]
    apply Option.some.inj
    rw [← List.getElem?_eq_getElem bound, source, place, List.getElem?_concat_length]
  have nul : memory (fmt + BitVec.ofNat 32 (next.index + 1)) = 0#8 := by
    rw [length, format.stored.read text.length (by simp), List.getElem_concat_length rfl]
  -- the default case of the switch prints the NUL and steps over it
  have round := kprintfLoop_percent percent fuel
  rw [nul] at round
  have again := kprintfLoop_mono finished ((parse text).1.length + 1)
  rw [Nat.add_comm _ 1, ← Nat.add_assoc] at again
  have behind := kprintfLoop_reads (round.symm.trans ((rounds (fuel + 1)).symm.trans again))
  rw [← length]
  exact behind.1

/-- `kprintf` stays inside its format exactly when the format does not end in an
odd number of percent signs. -/
theorem kprintf_safe_iff (format : CString memory fmt text) (supplied : Supplied memory (parse text).1 args) :
    KprintfSafe memory fmt args text.length ↔ Even (trailingPercents text) := by
  rw [← parse_dangling]
  constructor
  · rintro ⟨fuel, final, finished, inside, -⟩
    by_contra dangling
    have past := dangling_reads_past format supplied (Bool.eq_true_of_not_eq_false dangling) finished
    exact absurd (inside _ past) (Nat.not_succ_le_self text.length)
  · exact whole_format_safe format supplied

end

def greetingFormat : List (BitVec 8) := ['%', 'c', '%', 's', '%', '%'].map ascii
def greetingName : List (BitVec 8) := ['h', 'i'].map ascii

/-- The format at 0x1000 and, behind it, the string for its `%s`. -/
def greetingMemory : Memory 32 := loadBytes 0x1000#32 ((greetingFormat ++ [0#8]) ++ (greetingName ++ [0#8]))

theorem kprintf_safe_iff_greeting : KprintfSafe greetingMemory 0x1000#32 [0#32, 0x1007#32] 6 := by
  have stored : Stored greetingMemory 0x1000#32 ((greetingFormat ++ [0#8]) ++ (greetingName ++ [0#8])) :=
    stored_loadBytes _ _ (by decide)
  rw [stored_append] at stored
  have supplied : Supplied greetingMemory (parse greetingFormat).1 [0#32, 0x1007#32] :=
    ⟨fun _ => .inl rfl, fun _ => .inr ⟨greetingName, stored.2, by decide⟩, trivial⟩
  have format : CString greetingMemory 0x1000#32 greetingFormat := ⟨stored.1, by decide⟩
  exact (kprintf_safe_iff format supplied).mpr (by decide)

def percentFormat : List (BitVec 8) := ['1', '0', '0', '%'].map ascii

def percentMemory : Memory 32 := loadBytes 0x1000#32 (percentFormat ++ [0#8])

/-- Printing "100%" emits a NUL and reads behind the end of the format. -/
theorem percent_reads_past :
    (∃ final, kprintf percentMemory 0x1000#32 [] 6 = some final ∧ 5 ∈ final.reads ∧
      ConsoleCall.vgaPutchar ⟨0#8, false⟩ ∈ final.calls) ∧
    CString percentMemory 0x1000#32 percentFormat ∧
    ¬ KprintfSafe percentMemory 0x1000#32 [] percentFormat.length := by
  have format : CString percentMemory 0x1000#32 percentFormat := ⟨stored_loadBytes _ _ (by decide), by decide⟩
  refine ⟨⟨_, rfl, by decide, by decide⟩, format, ?_⟩
  rintro ⟨fuel, final, finished, inside, -⟩
  have supplied : Supplied percentMemory (parse percentFormat).1 [] := trivial
  have past := dangling_reads_past format supplied (by decide) finished
  exact absurd (inside _ past) (by decide)

end AstraOS.Kernel
