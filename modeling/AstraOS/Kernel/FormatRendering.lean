import AstraOS.Kernel.Format

/-! What `kprintf` prints, as a function of the pieces of its format. A piece
carries its argument, so a list of pieces fixes both the format and the call. -/

namespace AstraOS.Kernel
open AstraOS.Foundation

/-- The characters that the `switch` of `kprintf` knows. -/
def specifierChars : List (BitVec 8) := ['c', 's', 'd', 'u', 'x', 'X', '%'].map ascii

/-- A piece of a format with the argument it consumes. -/
inductive Piece (memory : Memory 32) where
  | literal (c : BitVec 8) (ordinary : c ≠ ascii '%') (nonzero : c ≠ 0#8)
  | char (arg : BitVec 32)
  | null
  | string (s : BitVec 32) (text : List (BitVec 8)) (pointer : s ≠ 0#32) (string : CString memory s text)
  | signed (arg : BitVec 32)
  | unsigned (arg : BitVec 32)
  | hexLower (arg : BitVec 32)
  | hexUpper (arg : BitVec 32)
  | percent
  | other (c : BitVec 8) (unknown : c ∉ specifierChars) (nonzero : c ≠ 0#8)

variable {memory : Memory 32}

def Piece.token : Piece memory → Token
  | .literal c _ _ => .literal c
  | .char _ => .directive (ascii 'c')
  | .null => .directive (ascii 's')
  | .string _ _ _ _ => .directive (ascii 's')
  | .signed _ => .directive (ascii 'd')
  | .unsigned _ => .directive (ascii 'u')
  | .hexLower _ => .directive (ascii 'x')
  | .hexUpper _ => .directive (ascii 'X')
  | .percent => .directive (ascii '%')
  | .other c _ _ => .directive c

def Piece.source (piece : Piece memory) : List (BitVec 8) := piece.token.source

/-- The argument list of a piece: one argument, or none. -/
def Piece.args : Piece memory → List (BitVec 32)
  | .literal _ _ _ => []
  | .char arg => [arg]
  | .null => [0#32]
  | .string s _ _ _ => [s]
  | .signed arg => [arg]
  | .unsigned arg => [arg]
  | .hexLower arg => [arg]
  | .hexUpper arg => [arg]
  | .percent => []
  | .other _ _ _ => []

def Piece.rendering : Piece memory → List (BitVec 8)
  | .literal c _ _ => [c]
  | .char arg => [arg.setWidth 8]
  | .null => ['(', 'n', 'u', 'l', 'l', ')'].map ascii
  | .string _ text _ _ => text
  | .signed arg => intText arg.toInt
  | .unsigned arg => uintText 10 false arg.toNat
  | .hexLower arg => uintText 16 false arg.toNat
  | .hexUpper arg => uintText 16 true arg.toNat
  | .percent => [ascii '%']
  | .other c _ _ => [ascii '%', c]

def ConsoleCall.vgaChar? : ConsoleCall → Option (BitVec 8)
  | .vgaPutchar c => some c.char
  | .serialPutchar _ => none

def ConsoleCall.serialChar? : ConsoleCall → Option (BitVec 8)
  | .vgaPutchar _ => none
  | .serialPutchar c => some c.char

/-- The characters handed to `vga_putchar`, in order. -/
def vgaText (calls : List ConsoleCall) : List (BitVec 8) := calls.filterMap ConsoleCall.vgaChar?

/-- The characters handed to `serial_putchar`, in order. -/
def serialText (calls : List ConsoleCall) : List (BitVec 8) := calls.filterMap ConsoleCall.serialChar?

/-- A reader that hears each emission once hears a text in order. -/
theorem filterMap_emitEach {hears : ConsoleCall → Option (BitVec 8)}
    (once : ∀ emission, (emit emission []).filterMap hears = [emission.char])
    (emissions : List Emission) (calls : List ConsoleCall) :
    (emitEach emissions calls).filterMap hears = calls.filterMap hears ++ emissions.map Emission.char := by
  induction emissions generalizing calls with
  | nil => simp [emitEach]
  | cons first rest ih =>
    have later := ih (emit first calls)
    have heard : (emit first calls).filterMap hears = calls.filterMap hears ++ [first.char] := by
      rw [← once first, emit, emit, List.filterMap_append, List.nil_append]
    rw [heard] at later
    simpa [emitEach] using later

theorem vgaText_emitEach (emissions : List Emission) (calls : List ConsoleCall) :
    vgaText (emitEach emissions calls) = vgaText calls ++ emissions.map Emission.char :=
  filterMap_emitEach (fun _ => rfl) emissions calls

theorem serialText_emitEach (emissions : List Emission) (calls : List ConsoleCall) :
    serialText (emitEach emissions calls) = serialText calls ++ emissions.map Emission.char :=
  filterMap_emitEach (fun _ => rfl) emissions calls

theorem plain_chars (text : List (BitVec 8)) : (plain text).map Emission.char = text := by
  rw [plain, List.map_map]
  exact List.map_id text

theorem vgaText_emitAll (text : List (BitVec 8)) (calls : List ConsoleCall) :
    vgaText (emitAll text calls) = vgaText calls ++ text := by
  rw [emitAll_plain, vgaText_emitEach, plain_chars]

theorem serialText_emitAll (text : List (BitVec 8)) (calls : List ConsoleCall) :
    serialText (emitAll text calls) = serialText calls ++ text := by
  rw [emitAll_plain, serialText_emitEach, plain_chars]

theorem specifier_other {c : BitVec 8} (unknown : c ∉ specifierChars) : specifier c = .other := by
  simp only [specifierChars, List.map_cons, List.map_nil, List.mem_cons, List.not_mem_nil, or_false, not_or] at unknown
  simp [specifier, unknown]

theorem Piece.proper (piece : Piece memory) : piece.token.Proper := by
  cases piece with
  | literal c ordinary nonzero => exact ordinary
  | _ => trivial

/-- A piece is rendered from its own argument, and the arguments behind it stay. -/
theorem Piece.renders (piece : Piece memory) (rest : List (BitVec 32)) :
    ∃ emissions, Renders memory piece.token (piece.args ++ rest) rest emissions ∧
      emissions.map Emission.char = piece.rendering := by
  cases piece with
  | literal c ordinary nonzero => exact ⟨_, .literal, rfl⟩
  | char arg => exact ⟨_, .char rfl, rfl⟩
  | null => exact ⟨_, .null rfl, plain_chars _⟩
  | string s text pointer string => exact ⟨_, .string rfl pointer string, plain_chars _⟩
  | signed arg => exact ⟨_, .signed rfl, plain_chars _⟩
  | unsigned arg => exact ⟨_, .unsigned rfl, plain_chars _⟩
  | hexLower arg => exact ⟨_, .hexLower rfl, plain_chars _⟩
  | hexUpper arg => exact ⟨_, .hexUpper rfl, plain_chars _⟩
  | percent => exact ⟨_, .percent rfl, rfl⟩
  | other c unknown nonzero => exact ⟨_, .other (specifier_other unknown), rfl⟩

theorem pieces_printed (pieces : List (Piece memory)) (rest : List (BitVec 32)) :
    ∃ emissions, Printed memory (pieces.map Piece.token) (pieces.flatMap Piece.args ++ rest) rest emissions ∧
      emissions.map Emission.char = pieces.flatMap Piece.rendering := by
  induction pieces with
  | nil => exact ⟨[], .nil, rfl⟩
  | cons piece pieces ih =>
    obtain ⟨others, tail, later⟩ := ih
    obtain ⟨first, head, here⟩ := piece.renders (pieces.flatMap Piece.args ++ rest)
    refine ⟨first ++ others, ?_, ?_⟩
    · rw [List.flatMap_cons, List.append_assoc]
      exact .cons head tail
    · rw [List.map_append, here, later, List.flatMap_cons]

theorem pieces_source (pieces : List (Piece memory)) :
    sourceText (pieces.map Piece.token) = pieces.flatMap Piece.source := by
  rw [sourceText, List.flatMap_map]
  rfl

/-- `kprintf` on a format made of pieces, with their arguments in order and any
others behind them: it ends, takes one argument for each piece that has one, and
hands the same text to the screen and to the serial line. -/
theorem kprintf_renders {fmt : BitVec 32} (pieces : List (Piece memory)) (extra : List (BitVec 32))
    (format : CString memory fmt (pieces.flatMap Piece.source)) :
    ∃ fuel final, kprintf memory fmt (pieces.flatMap Piece.args ++ extra) fuel = some final ∧
      final.args = extra ∧
      vgaText final.calls = pieces.flatMap Piece.rendering ∧
      serialText final.calls = pieces.flatMap Piece.rendering := by
  obtain ⟨emissions, printed, chars⟩ := pieces_printed pieces extra
  have proper : ∀ token ∈ pieces.map Piece.token, token.Proper := by
    intro token member
    obtain ⟨piece, -, rfl⟩ := List.mem_map.mp member
    exact piece.proper
  have whole : CString memory
      (fmt + BitVec.ofNat 32 (PrintState.mk 0 (pieces.flatMap Piece.args ++ extra) [] []).index)
      (sourceText (pieces.map Piece.token) ++ []) := by
    rw [pieces_source, List.append_nil, BitVec.add_zero]
    exact format
  obtain ⟨next, rounds, advanced⟩ := kprintfLoop_tokens whole proper printed
  have ended : memory (fmt + BitVec.ofNat 32 next.index) = 0#8 := by
    rw [advanced.index, Nat.zero_add]
    rw [BitVec.add_zero] at whole
    exact whole.skip.ended
  refine ⟨_, _, (rounds 1).trans (kprintfLoop_end ended 0), advanced.args, ?_, ?_⟩
  · rw [← chars]
    exact (congrArg vgaText advanced.calls).trans (vgaText_emitEach emissions [])
  · rw [← chars]
    exact (congrArg serialText advanced.calls).trans (serialText_emitEach emissions [])

def countFormat : List (BitVec 8) := ['n', '=', '%', 'd', '%', '%', 'd', ' ', '%', 's', ' ', '%', 'X'].map ascii

def countMemory : Memory 32 := loadBytes 0x1000#32 (countFormat ++ [0#8])

/-- The pieces of `n=%d%%d %s %X`: its second percent sign escapes the third. -/
def countPieces : List (Piece countMemory) :=
  [.literal (ascii 'n') (by decide) (by decide), .literal (ascii '=') (by decide) (by decide),
    .signed (-7#32), .percent, .literal (ascii 'd') (by decide) (by decide),
    .literal (ascii ' ') (by decide) (by decide), .null, .literal (ascii ' ') (by decide) (by decide),
    .hexUpper 0xBEEF#32]

def countText : List (BitVec 8) :=
  ['n', '=', '-', '7', '%', 'd', ' ', '(', 'n', 'u', 'l', 'l', ')', ' ', 'B', 'E', 'E', 'F'].map ascii

theorem kprintf_renders_count :
    CString countMemory 0x1000#32 (countPieces.flatMap Piece.source) ∧
    ∃ fuel final, kprintf countMemory 0x1000#32 [-7#32, 0#32, 0xBEEF#32] fuel = some final ∧ final.args = [] ∧
      vgaText final.calls = countText ∧ serialText final.calls = countText := by
  have format : CString countMemory 0x1000#32 countFormat := ⟨stored_loadBytes _ _ (by decide), by decide⟩
  have rendered : countPieces.flatMap Piece.rendering = countText := by decide
  rw [← rendered]
  exact ⟨format, kprintf_renders countPieces [] format⟩

end AstraOS.Kernel
