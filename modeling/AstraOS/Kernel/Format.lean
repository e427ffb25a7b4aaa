import AstraOS.Kernel.Kprintf
import Mathlib.Algebra.Ring.Parity

/-! Formats as sequences of tokens, and the loop of `kprintf` as their printer:
the position in the format, the arguments and the output move on together. -/

namespace AstraOS.Kernel
open AstraOS.Foundation

/-- An ordinary character, or a percent sign with the character after it. -/
inductive Token where
  | literal (c : BitVec 8)
  | directive (c : BitVec 8)
deriving DecidableEq

def Token.source : Token → List (BitVec 8)
  | .literal c => [c]
  | .directive c => [ascii '%', c]

/-- The text of a format made of tokens. -/
def sourceText (tokens : List Token) : List (BitVec 8) := tokens.flatMap Token.source

/-- A format read from the left: its tokens, and whether a percent sign with
nothing after it remains. -/
def parse : List (BitVec 8) → List Token × Bool
  | [] => ([], false)
  | [c] => if c = ascii '%' then ([], true) else ([.literal c], false)
  | c :: next :: rest =>
    if c = ascii '%' then (.directive next :: (parse rest).1, (parse rest).2)
    else (.literal c :: (parse (next :: rest)).1, (parse (next :: rest)).2)

/-- A literal is not a percent sign. -/
def Token.Proper : Token → Prop
  | .literal c => c ≠ ascii '%'
  | .directive _ => True

def Specifier.takesArgument : Specifier → Bool
  | .char => true
  | .string => true
  | .signed => true
  | .unsigned => true
  | .hexLower => true
  | .hexUpper => true
  | .percent => false
  | .other => false

/-- A pointer that `%s` can print. -/
def Printable (memory : Memory 32) (s : BitVec 32) : Prop := s = 0#32 ∨ ∃ text, CString memory s text

/-- The arguments hold what the tokens consume, in order. -/
def Supplied (memory : Memory 32) : List Token → List (BitVec 32) → Prop
  | [], _ => True
  | .literal _ :: rest, args => Supplied memory rest args
  | .directive c :: rest, args =>
    if (specifier c).takesArgument then
      match args with
      | [] => False
      | arg :: args => (specifier c = .string → Printable memory arg) ∧ Supplied memory rest args
    else Supplied memory rest args

/-- Characters that are no `%c` argument. -/
def plain (text : List (BitVec 8)) : List Emission := text.map (fun c => ⟨c, false⟩)

/-- What a token prints, with the arguments before and after it. -/
inductive Renders (memory : Memory 32) : Token → List (BitVec 32) → List (BitVec 32) → List Emission → Prop where
  | literal {c args} : Renders memory (.literal c) args args (plain [c])
  | char {c arg args} (case : specifier c = .char) :
      Renders memory (.directive c) (arg :: args) args [⟨arg.setWidth 8, true⟩]
  | null {c args} (case : specifier c = .string) :
      Renders memory (.directive c) (0#32 :: args) args (plain nullText)
  | string {c s args text} (case : specifier c = .string) (pointer : s ≠ 0#32) (string : CString memory s text) :
      Renders memory (.directive c) (s :: args) args (plain text)
  | signed {c arg args} (case : specifier c = .signed) :
      Renders memory (.directive c) (arg :: args) args (plain (intText arg.toInt))
  | unsigned {c arg args} (case : specifier c = .unsigned) :
      Renders memory (.directive c) (arg :: args) args (plain (uintText 10 false arg.toNat))
  | hexLower {c arg args} (case : specifier c = .hexLower) :
      Renders memory (.directive c) (arg :: args) args (plain (uintText 16 false arg.toNat))
  | hexUpper {c arg args} (case : specifier c = .hexUpper) :
      Renders memory (.directive c) (arg :: args) args (plain (uintText 16 true arg.toNat))
  | percent {c args} (case : specifier c = .percent) :
      Renders memory (.directive c) args args (plain [ascii '%'])
  | other {c args} (case : specifier c = .other) :
      Renders memory (.directive c) args args (plain [ascii '%', c])

/-- What a sequence of tokens prints. -/
inductive Printed (memory : Memory 32) : List Token → List (BitVec 32) → List (BitVec 32) → List Emission → Prop where
  | nil {args} : Printed memory [] args args []
  | cons {token tokens args middle rest first others} (head : Renders memory token args middle first)
      (tail : Printed memory tokens middle rest others) :
      Printed memory (token :: tokens) args rest (first ++ others)

def emitEach (emissions : List Emission) (calls : List ConsoleCall) : List ConsoleCall :=
  emissions.foldl (fun calls c => emit c calls) calls

theorem emitAll_plain (text : List (BitVec 8)) (calls : List ConsoleCall) :
    emitAll text calls = emitEach (plain text) calls := by
  rw [emitEach, plain, List.foldl_map]
  rfl

/-- From one state to a later one: `width` characters of the format further,
reading only those, with these emissions made. -/
structure Advances (state next : PrintState) (width : Nat) (args : List (BitVec 32))
    (emissions : List Emission) : Prop where
  index : next.index = state.index + width
  args : next.args = args
  calls : next.calls = emitEach emissions state.calls
  reads : ∀ i ∈ next.reads, i ∈ state.reads ∨ (state.index ≤ i ∧ i < next.index)

theorem Advances.trans {state middle next : PrintState} {args others : List (BitVec 32)}
    {first second : List Emission} (one : Advances state middle m args first)
    (two : Advances middle next n others second) : Advances state next (m + n) others (first ++ second) := by
  have moved := one.index
  have further := two.index
  refine ⟨by omega, two.args, ?_, ?_⟩
  · rw [two.calls, one.calls, emitEach, emitEach, emitEach, List.foldl_append]
  · intro i member
    rcases two.reads i member with old | new
    · rcases one.reads i old with older | newer
      · exact .inl older
      · exact .inr ⟨newer.1, by omega⟩
    · exact .inr ⟨by omega, new.2⟩

/-- A directive with an argument reads nothing more of the format. -/
theorem vaArg_renders {state : PrintState} {print : BitVec 32 → List ConsoleCall → Option (List ConsoleCall)}
    {arg : BitVec 32} {args : List (BitVec 32)} {emissions : List Emission} (supply : state.args = arg :: args)
    (printed : print arg state.calls = some (emitEach emissions state.calls)) :
    ∃ reads, (∀ i ∈ reads, i = state.index) ∧ state.vaArg print = some
      { state with args := args, calls := emitEach emissions state.calls, reads := state.reads ++ reads } := by
  refine ⟨[], by simp, ?_⟩
  rw [PrintState.vaArg, supply, List.append_nil]
  exact congrArg (Option.map _) printed

/-- The `switch` prints a directive and takes its argument; only the last case
reads the format again. -/
theorem printSpecifier_renders {memory : Memory 32} {fmt : BitVec 32} {c : BitVec 8} (state : PrintState)
    {args : List (BitVec 32)} {emissions : List Emission}
    (here : memory (fmt + BitVec.ofNat 32 state.index) = c)
    (rendered : Renders memory (.directive c) state.args args emissions) :
    ∃ reads, (∀ i ∈ reads, i = state.index) ∧ printSpecifier memory fmt c state = some
      { state with args := args, calls := emitEach emissions state.calls, reads := state.reads ++ reads } := by
  unfold printSpecifier
  generalize supply : state.args = before at rendered
  cases rendered with
  | char case =>
    rw [case]
    exact vaArg_renders supply rfl
  | null case =>
    rw [case]
    exact vaArg_renders supply (congrArg some (emitAll_plain nullText _))
  | string case pointer string =>
    rw [case]
    refine vaArg_renders supply ?_
    rw [emitStr_string string pointer, emitAll_plain]
  | signed case =>
    rw [case]
    refine vaArg_renders supply ?_
    rw [emitInt_text, emitAll_plain]
  | unsigned case =>
    rw [case]
    refine vaArg_renders supply ?_
    rw [emitUint_text _ 10#32 false (by decide) (by decide), emitAll_plain]
    rfl
  | hexLower case =>
    rw [case]
    refine vaArg_renders supply ?_
    rw [emitUint_text _ 16#32 false (by decide) (by decide), emitAll_plain]
    rfl
  | hexUpper case =>
    rw [case]
    refine vaArg_renders supply ?_
    rw [emitUint_text _ 16#32 true (by decide) (by decide), emitAll_plain]
    rfl
  | percent case =>
    refine ⟨[], by simp, ?_⟩
    rw [case, List.append_nil, ← supply]
    rfl
  | other case =>
    refine ⟨[state.index], by simp, ?_⟩
    rw [case, ← supply, ← here]
    rfl

section
variable {memory : Memory 32} {fmt : BitVec 32} {state : PrintState}

theorem kprintfLoop_end (ended : memory (fmt + BitVec.ofNat 32 state.index) = 0#8) (fuel : Nat) :
    kprintfLoop memory fmt (fuel + 1) state = some (state.deref memory fmt).2 := if_pos ended

theorem kprintfLoop_literal (continues : memory (fmt + BitVec.ofNat 32 state.index) ≠ 0#8)
    (ordinary : memory (fmt + BitVec.ofNat 32 state.index) ≠ ascii '%') (fuel : Nat) :
    kprintfLoop memory fmt (fuel + 1) state = kprintfLoop memory fmt fuel ⟨state.index + 1, state.args,
      state.reads ++ [state.index] ++ [state.index] ++ [state.index],
      emit ⟨memory (fmt + BitVec.ofNat 32 state.index), false⟩ state.calls⟩ :=
  (if_neg continues).trans (if_pos ordinary)

/-- The state in which the `switch` looks at the character after a percent sign. -/
def PrintState.afterPercent (state : PrintState) : PrintState :=
  ⟨state.index + 1, state.args, state.reads ++ [state.index] ++ [state.index] ++ [state.index + 1], state.calls⟩

theorem kprintfLoop_percent (percent : memory (fmt + BitVec.ofNat 32 state.index) = ascii '%') (fuel : Nat) :
    kprintfLoop memory fmt (fuel + 1) state =
      (printSpecifier memory fmt (memory (fmt + BitVec.ofNat 32 (state.index + 1))) state.afterPercent).bind
        (fun state => kprintfLoop memory fmt fuel state.advance) := by
  have continues : memory (fmt + BitVec.ofNat 32 state.index) ≠ 0#8 := by
    rw [percent]
    decide
  exact (if_neg continues).trans (if_neg (not_not_intro percent))

/-- One round of the loop prints one token. -/
theorem kprintfLoop_token {token : Token} {rest : List (BitVec 8)} {args : List (BitVec 32)}
    {emissions : List Emission}
    (format : CString memory (fmt + BitVec.ofNat 32 state.index) (token.source ++ rest))
    (proper : token.Proper) (rendered : Renders memory token state.args args emissions) :
    ∃ next, (∀ fuel, kprintfLoop memory fmt (fuel + 1) state = kprintfLoop memory fmt fuel next) ∧
      Advances state next token.source.length args emissions := by
  cases token with
  | literal c =>
    obtain ⟨here, nonzero, -⟩ := format.next
    have round := kprintfLoop_literal (here ▸ nonzero) (here ▸ proper)
    rw [here] at round
    refine ⟨_, round, rfl, ?_, ?_, ?_⟩
    · cases rendered
      rfl
    · cases rendered
      rfl
    · intro i member
      simp only [List.append_assoc, List.mem_append, List.mem_singleton, or_self] at member
      rcases member with old | new
      · exact .inl old
      · exact .inr ⟨new.ge, by simp [new]⟩
  | directive c =>
    obtain ⟨here, -, after⟩ := format.next
    have shifted : fmt + BitVec.ofNat 32 (state.index + 1) = fmt + BitVec.ofNat 32 state.index + 1 := by
      rw [BitVec.ofNat_add, BitVec.add_assoc]
      rfl
    have there : memory (fmt + BitVec.ofNat 32 (state.index + 1)) = c := by
      rw [shifted]
      exact after.next.1
    obtain ⟨reads, inside, printed⟩ := printSpecifier_renders state.afterPercent there rendered
    have round := kprintfLoop_percent here
    rw [there, printed] at round
    refine ⟨_, round, rfl, rfl, rfl, ?_⟩
    intro i member
    simp only [PrintState.advance, PrintState.afterPercent, List.append_assoc, List.mem_append,
      List.mem_singleton] at member
    rcases member with old | first | again | second | last
    · exact .inl old
    · exact .inr ⟨first.ge, by simp [first, PrintState.advance, PrintState.afterPercent]⟩
    · exact .inr ⟨again.ge, by simp [again, PrintState.advance, PrintState.afterPercent]⟩
    · exact .inr ⟨by omega, by simp [second, PrintState.advance, PrintState.afterPercent]⟩
    · have same : i = state.index + 1 := inside i last
      exact .inr ⟨by omega, by simp [same, PrintState.advance, PrintState.afterPercent]⟩

/-- The loop prints a sequence of tokens, one round each. -/
theorem kprintfLoop_tokens {tokens : List Token} {rest : List (BitVec 8)} {args : List (BitVec 32)}
    {emissions : List Emission}
    (format : CString memory (fmt + BitVec.ofNat 32 state.index) (sourceText tokens ++ rest))
    (proper : ∀ token ∈ tokens, token.Proper) (printed : Printed memory tokens state.args args emissions) :
    ∃ next, (∀ fuel, kprintfLoop memory fmt (fuel + tokens.length) state = kprintfLoop memory fmt fuel next) ∧
      Advances state next (sourceText tokens).length args emissions := by
  induction tokens generalizing state emissions with
  | nil =>
    cases printed
    exact ⟨state, fun fuel => rfl, rfl, rfl, rfl, fun i member => .inl member⟩
  | cons token tokens ih =>
    cases printed with
    | cons head tail =>
      rw [sourceText, List.flatMap_cons, List.append_assoc] at format
      obtain ⟨middle, round, one⟩ := kprintfLoop_token format (proper token List.mem_cons_self) head
      have remaining : CString memory (fmt + BitVec.ofNat 32 middle.index) (sourceText tokens ++ rest) := by
        rw [one.index, BitVec.ofNat_add, ← BitVec.add_assoc]
        exact format.skip
      obtain ⟨next, rounds, two⟩ := ih remaining
        (fun other member => proper other (List.mem_cons_of_mem token member)) (one.args ▸ tail)
      refine ⟨next, ?_, ?_⟩
      · intro fuel
        rw [List.length_cons, ← Nat.add_assoc, round, rounds]
      · rw [sourceText, List.flatMap_cons, List.length_append]
        exact one.trans two

end

end AstraOS.Kernel
