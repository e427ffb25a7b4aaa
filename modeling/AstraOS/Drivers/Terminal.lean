import AstraOS.Drivers.Vga

/-! The purpose of the VGA driver: a terminal of 80 columns and unboundedly many
rows, of which the screen shows the last 25. The driver refines it, with cells
packed the way the adapter reads them. -/

namespace AstraOS.Drivers
open AstraOS.Foundation

/-- The colours of a character and of its ground, as the adapter numbers them. -/
structure Attribute where
  fg : BitVec 4
  bg : BitVec 4
deriving DecidableEq

structure Cell where
  char : BitVec 8
  attr : Attribute
deriving DecidableEq

/-- The ground is in the high nibble. -/
def Attribute.byte (attr : Attribute) : BitVec 8 := attr.bg ++ attr.fg

/-- The character is in the low byte, the attribute in the high one. -/
def Cell.word (cell : Cell) : BitVec 16 := cell.attr.byte ++ cell.char

/-- The adapter's numbers of the colours. -/
def VgaColor.number : VgaColor → BitVec 4
  | black => 0x0#4 | blue => 0x1#4 | green => 0x2#4 | cyan => 0x3#4
  | red => 0x4#4 | magenta => 0x5#4 | brown => 0x6#4 | lightGrey => 0x7#4
  | darkGrey => 0x8#4 | lightBlue => 0x9#4 | lightGreen => 0xA#4 | lightCyan => 0xB#4
  | lightRed => 0xC#4 | lightMagenta => 0xD#4 | yellow => 0xE#4 | white => 0xF#4

/-- The reference terminal. A row has no attribute until it becomes visible. -/
structure Terminal where
  written : Nat → Nat → Option Cell
  shown : Nat → Option Attribute
  row : Nat
  col : Nat
  attr : Attribute

namespace Terminal

/-- The first visible row. -/
def top (terminal : Terminal) : Nat := terminal.row - 24

/-- A cell reads as written, else as a space in the attribute of its row. -/
def cell (terminal : Terminal) (r c : Nat) : Cell :=
  (terminal.written r c).getD ⟨0x20#8, (terminal.shown r).getD terminal.attr⟩

/-- Rows that become visible take the current attribute. -/
def reveal (terminal : Terminal) : Terminal :=
  { terminal with shown := fun r =>
      if r < terminal.top + 25 then some ((terminal.shown r).getD terminal.attr) else terminal.shown r }

def clear (terminal : Terminal) : Terminal :=
  reveal { terminal with written := fun _ _ => none, shown := fun _ => none, row := 0, col := 0 }

def start : Terminal :=
  clear ⟨fun _ _ => none, fun _ => none, 0, 0, ⟨VgaColor.lightGrey.number, VgaColor.black.number⟩⟩

def newline (terminal : Terminal) : Terminal :=
  reveal { terminal with row := terminal.row + 1, col := 0 }

def write (terminal : Terminal) (c : BitVec 8) : Terminal :=
  { terminal with
    written := fun row col => if row = terminal.row ∧ col = terminal.col
      then some ⟨c, terminal.attr⟩ else terminal.written row col
    col := terminal.col + 1 }

def putchar (terminal : Terminal) (c : BitVec 8) : Terminal :=
  if c = 0x0A#8 then terminal.newline
  else if c = 0x0D#8 then { terminal with col := 0 }
  else if terminal.col + 1 = 80 then (terminal.write c).newline
  else terminal.write c

def call (terminal : Terminal) : VgaCall → Terminal
  | .putchar c => terminal.putchar c
  | .puts str => (str.takeWhile (· ≠ 0#8)).foldl putchar terminal
  | .setColor fg bg => { terminal with attr := ⟨fg.number, bg.number⟩ }
  | .clear => terminal.clear

/-- The rows written and shown so far: none below the cursor, and exactly those
down to the bottom of the screen. -/
structure Bounded (terminal : Terminal) : Prop where
  unwritten : ∀ r c, terminal.row < r → terminal.written r c = none
  visible : ∀ r, r < terminal.top + 25 ↔ terminal.shown r ≠ none

theorem bounded_clear (terminal : Terminal) : terminal.clear.Bounded := by
  refine ⟨fun _ _ _ => rfl, ?_⟩
  intro r
  by_cases inside : r < 25
  · simp [clear, reveal, top, inside]
  · simp [clear, reveal, top, inside]

theorem shown_newline (terminal : Terminal) (r : Nat) :
    terminal.newline.shown r = if r < terminal.newline.top + 25
      then some ((terminal.shown r).getD terminal.attr) else terminal.shown r := rfl

theorem top_le_newline (terminal : Terminal) : terminal.top ≤ terminal.newline.top :=
  Nat.sub_le_sub_right (Nat.le_succ _) 24

theorem Bounded.hidden {terminal : Terminal} (held : terminal.Bounded)
    (below : terminal.top + 25 ≤ r) : terminal.shown r = none :=
  not_ne_iff.mp (Nat.not_lt.mpr below ∘ (held.visible r).mpr)

theorem Bounded.newline {terminal : Terminal} (held : terminal.Bounded) : terminal.newline.Bounded := by
  refine ⟨fun r c below => held.unwritten r c (Nat.lt_of_succ_lt below), ?_⟩
  intro r
  rw [shown_newline]
  by_cases inside : r < terminal.newline.top + 25
  · simp [inside]
  · have lower := top_le_newline terminal
    have nothing : terminal.shown r = none := held.hidden (by omega)
    simp [inside, nothing]

theorem Bounded.write {terminal : Terminal} (held : terminal.Bounded) (c : BitVec 8) :
    (terminal.write c).Bounded := by
  refine ⟨?_, held.visible⟩
  intro r col below
  have other : ¬ (r = terminal.row ∧ col = terminal.col) := fun same => below.ne' same.1
  exact (if_neg other).trans (held.unwritten r col below)

/-- A visible row does not depend on the current attribute. -/
theorem Bounded.cell_recolor {terminal : Terminal} (held : terminal.Bounded) (attr : Attribute)
    (c : Nat) (inside : r < terminal.top + 25) : cell { terminal with attr := attr } r c = terminal.cell r c := by
  obtain ⟨given, known⟩ := Option.ne_none_iff_exists'.mp ((held.visible r).mp inside)
  simp [cell, known]

theorem Bounded.cell_newline {terminal : Terminal} (held : terminal.Bounded)
    (inside : r < terminal.top + 25) : terminal.newline.cell r c = terminal.cell r c := by
  obtain ⟨given, known⟩ := Option.ne_none_iff_exists'.mp ((held.visible r).mp inside)
  have kept : terminal.newline.shown r = some given := by
    rw [shown_newline, known]
    exact ite_self _
  simp only [cell, kept, known]
  rfl

theorem Bounded.cell_revealed {terminal : Terminal} (held : terminal.Bounded) (bottom : 24 ≤ terminal.row) :
    terminal.newline.cell (terminal.row + 1) c = ⟨0x20#8, terminal.attr⟩ := by
  have cursor : terminal.top + 24 = terminal.row := Nat.sub_add_cancel bottom
  have shifted : terminal.newline.top = terminal.top + 1 := Nat.sub_add_comm bottom
  have nothing : terminal.shown (terminal.row + 1) = none := held.hidden (by omega)
  have revealed : terminal.newline.shown (terminal.row + 1) = some terminal.attr := by
    rw [shown_newline, nothing, if_pos (by omega)]
    rfl
  have blank : terminal.newline.written (terminal.row + 1) c = none :=
    held.unwritten (terminal.row + 1) c (Nat.lt_succ_self _)
  simp [cell, revealed, blank]

end Terminal

/-- How a shift and an or pack two fields into one number. -/
theorem packed_append (high : BitVec m) (low : BitVec n) :
    low.setWidth (m + n) ||| (high.setWidth (m + n) <<< n) = high ++ low := by
  rw [BitVec.or_comm, BitVec.append_def, BitVec.shiftLeftZeroExtend_eq, BitVec.setWidth'_eq]

theorem makeColor_byte (fg bg : VgaColor) : makeColor fg bg = Attribute.byte ⟨fg.number, bg.number⟩ := by
  have code (color : VgaColor) : color.code = color.number.setWidth 8 := by cases color <;> rfl
  rw [makeColor, code, code]
  exact packed_append bg.number fg.number

theorem makeEntry_word (c : BitVec 8) (attr : Attribute) : makeEntry c attr.byte = Cell.word ⟨c, attr⟩ :=
  packed_append attr.byte c

/-- The screen shows the reference from its first visible row on. -/
structure ShowsRows (vga : Vga) (terminal : Terminal) : Prop where
  cells : ∀ y x, y < 25 → x < 80 → vga.buffer[y * 80 + x]? = some (terminal.cell (terminal.top + y) x).word
  row : vga.row = terminal.row - terminal.top
  row_lt : vga.row < 25
  color : vga.color = terminal.attr.byte

/-- The cursor stands in the same column too. -/
structure Shows (vga : Vga) (terminal : Terminal) : Prop extends ShowsRows vga terminal where
  col : vga.col = terminal.col
  col_lt : vga.col < 80

theorem Shows.clear {vga : Vga} {terminal : Terminal} (color : vga.color = terminal.attr.byte) :
    ∃ after, vgaClear vga = some after ∧ Shows after terminal.clear := by
  obtain ⟨after, cleared, row, col, kept, blank⟩ := vgaClear_effect vga
  refine ⟨after, cleared, ⟨?_, row, by rw [row]; decide, kept.trans color⟩, col, by rw [col]; decide⟩
  intro y x inside column
  rw [blank y x inside column, color, makeEntry_word]
  simp [Terminal.cell, Terminal.clear, Terminal.reveal, Terminal.top, inside]

/-- Both scroll triggers: the screen follows the cursor to the next row. -/
theorem ShowsRows.newline {vga : Vga} {terminal : Terminal} (held : ShowsRows vga terminal)
    (bounded : terminal.Bounded) :
    ∃ after, vgaNewline vga = some after ∧ Shows after terminal.newline := by
  obtain ⟨cells, row, row_lt, color⟩ := held
  by_cases full : vga.row + 1 = 25
  · obtain ⟨after, scrolled, newRow, newCol, kept, moved⟩ :=
      vgaScroll_effect { vga with row := vga.row + 1, col := 0 }
    have bottom : 24 ≤ terminal.row := by
      unfold Terminal.top at row
      omega
    have shifted : terminal.newline.top = terminal.top + 1 := Nat.sub_add_comm bottom
    refine ⟨after, (if_pos full).trans scrolled, ⟨?_, ?_, ?_, kept.trans color⟩, newCol, ?_⟩
    · intro y x inside column
      rw [moved y x column, shifted, Nat.add_right_comm]
      rcases Nat.lt_or_ge y 24 with above | last
      · rw [if_pos above, cells (y + 1) x (Nat.succ_lt_succ above) column, Nat.add_assoc]
        rw [bounded.cell_newline (Nat.add_lt_add_left (Nat.succ_lt_succ above) _)]
      · obtain rfl : y = 24 := by omega
        have cursor : terminal.top + 24 = terminal.row := Nat.sub_add_cancel bottom
        rw [if_neg (Nat.lt_irrefl 24), if_pos rfl, cursor, bounded.cell_revealed bottom, color, makeEntry_word]
    · rw [newRow, shifted]
      show 24 = terminal.row + 1 - (terminal.row - 24 + 1)
      omega
    · rw [newRow]
      decide
    · rw [newCol]
      exact Nat.zero_lt_succ 79
  · have early : terminal.row < 24 := by
      unfold Terminal.top at row
      omega
    have still : terminal.top = 0 := Nat.sub_eq_zero_of_le (Nat.le_of_lt early)
    have stays : terminal.newline.top = 0 := Nat.sub_eq_zero_of_le early
    refine ⟨{ vga with row := vga.row + 1, col := 0 }, if_neg full, ⟨?_, ?_, ?_, color⟩, rfl, Nat.zero_lt_succ 79⟩
    · intro y x inside column
      have old := cells y x inside column
      rw [still, Nat.zero_add] at old
      rw [stays, Nat.zero_add, bounded.cell_newline (by omega)]
      exact old
    · show vga.row + 1 = terminal.row + 1 - terminal.newline.top
      omega
    · show vga.row + 1 < 25
      omega

theorem Shows.write {vga : Vga} {terminal : Terminal} (held : Shows vga terminal) (c : BitVec 8) :
    ∃ buffer, storeAt vga.buffer (vga.row * vgaWidth + vga.col) (makeEntry c vga.color) = some buffer ∧
      ShowsRows { vga with buffer := buffer, col := vga.col + 1 } (terminal.write c) := by
  obtain ⟨⟨cells, row, row_lt, color⟩, col, col_lt⟩ := held
  have inside : vga.row * 80 + vga.col < 2000 := by omega
  obtain ⟨buffer, stored, after⟩ := storeAt_inside vga.buffer (makeEntry c vga.color) inside
  refine ⟨buffer, stored, ?_, row, row_lt, color⟩
  intro y x visible column
  have cursor : terminal.top + vga.row = terminal.row := by
    rw [row]
    exact Nat.add_sub_of_le (Nat.sub_le _ _)
  show buffer[y * 80 + x]? = some ((terminal.write c).cell (terminal.top + y) x).word
  rw [after (y * 80 + x)]
  by_cases same : y = vga.row ∧ x = vga.col
  · obtain ⟨rfl, rfl⟩ := same
    rw [if_pos rfl, cursor, color, makeEntry_word]
    simp [Terminal.cell, Terminal.write, col]
  · have apart : ¬ y * 80 + x = vga.row * 80 + vga.col := by omega
    have other : ¬ (terminal.top + y = terminal.row ∧ x = terminal.col) := by omega
    rw [if_neg apart, cells y x visible column]
    simp [Terminal.cell, Terminal.write, other]

/-- The refinement, with what the reference keeps on its own. -/
structure Refines (vga : Vga) (terminal : Terminal) : Prop extends Shows vga terminal where
  bounded : terminal.Bounded

theorem Refines.clear {vga : Vga} {terminal : Terminal} (color : vga.color = terminal.attr.byte) :
    ∃ after, vgaClear vga = some after ∧ Refines after terminal.clear := by
  obtain ⟨after, cleared, held⟩ := Shows.clear color
  exact ⟨after, cleared, held, terminal.bounded_clear⟩

theorem Refines.putchar {vga : Vga} {terminal : Terminal} (held : Refines vga terminal) (c : BitVec 8) :
    ∃ after, vgaPutchar c vga = some after ∧ Refines after (terminal.putchar c) := by
  obtain ⟨screen, bounded⟩ := held
  unfold vgaPutchar Terminal.putchar
  by_cases newline : c = 0x0A#8
  · obtain ⟨after, moved, shown⟩ := screen.newline bounded
    rw [if_pos newline, if_pos newline]
    exact ⟨after, moved, shown, bounded.newline⟩
  rw [if_neg newline, if_neg newline]
  by_cases carriage : c = 0x0D#8
  · rw [if_pos carriage, if_pos carriage]
    obtain ⟨⟨cells, row, row_lt, color⟩, col, col_lt⟩ := screen
    exact ⟨_, rfl, ⟨⟨cells, row, row_lt, color⟩, rfl, Nat.zero_lt_succ 79⟩, bounded.unwritten, bounded.visible⟩
  rw [if_neg carriage, if_neg carriage]
  obtain ⟨buffer, stored, rows⟩ := screen.write c
  have column : terminal.col = vga.col := screen.col.symm
  rw [stored, column]
  by_cases wraps : vga.col + 1 = 80
  · obtain ⟨after, moved, shown⟩ := rows.newline (bounded.write c)
    rw [if_pos wraps]
    exact ⟨after, (if_pos wraps).trans moved, shown, (bounded.write c).newline⟩
  · rw [if_neg wraps]
    refine ⟨_, if_neg wraps, ⟨rows, congrArg (· + 1) screen.col, ?_⟩, bounded.write c⟩
    exact Nat.lt_of_le_of_ne screen.col_lt wraps

theorem Refines.puts {vga : Vga} {terminal : Terminal} (held : Refines vga terminal)
    (str : List (BitVec 8)) :
    ∃ after, vgaPuts str vga = some after ∧
      Refines after ((str.takeWhile (· ≠ 0#8)).foldl Terminal.putchar terminal) := by
  induction str generalizing vga terminal with
  | nil => exact ⟨vga, rfl, held⟩
  | cons c rest ih =>
    by_cases stop : c = 0#8
    · exact ⟨vga, by simp [vgaPuts, stop], by simpa [stop] using held⟩
    · obtain ⟨middle, written, kept⟩ := held.putchar c
      obtain ⟨after, continued, finished⟩ := ih kept
      exact ⟨after, by simp [vgaPuts, stop, written, continued], by simpa [stop] using finished⟩

theorem Refines.call {vga : Vga} {terminal : Terminal} (held : Refines vga terminal) (call : VgaCall) :
    ∃ after, vgaCall call vga = some after ∧ Refines after (terminal.call call) := by
  cases call with
  | putchar c => exact held.putchar c
  | puts str => exact held.puts str
  | clear => exact Refines.clear held.color
  | setColor fg bg =>
    obtain ⟨⟨⟨cells, row, row_lt, color⟩, col, col_lt⟩, bounded⟩ := held
    refine ⟨_, rfl, ⟨⟨?_, row, row_lt, makeColor_byte fg bg⟩, col, col_lt⟩, bounded.unwritten, bounded.visible⟩
    intro y x inside column
    have kept := bounded.cell_recolor ⟨fg.number, bg.number⟩ x (Nat.add_lt_add_left inside terminal.top)
    exact (cells y x inside column).trans (congrArg (fun cell => some cell.word) kept.symm)

theorem Refines.calls {vga : Vga} {terminal : Terminal} (held : Refines vga terminal)
    (calls : List VgaCall) :
    ∃ after, calls.foldlM (fun vga call => vgaCall call vga) vga = some after ∧
      Refines after (calls.foldl Terminal.call terminal) := by
  induction calls generalizing vga terminal with
  | nil => exact ⟨vga, rfl, held⟩
  | cons call rest ih =>
    obtain ⟨middle, stepped, kept⟩ := held.call call
    obtain ⟨after, finished, shown⟩ := ih kept
    exact ⟨after, by simp [stepped, finished], shown⟩

/-- Every sequence of calls after `vga_init`, from any state of the hardware,
ends without a write outside the text buffer and shows the reference terminal. -/
theorem vga_refines_terminal (vga : Vga) (calls : List VgaCall) :
    ∃ after, vgaCalls vga calls = some after ∧ Shows after (calls.foldl Terminal.call .start) := by
  obtain ⟨cleared, ready, initial⟩ : ∃ cleared, vgaInit vga = some cleared ∧ Refines cleared .start :=
    Refines.clear rfl
  obtain ⟨after, finished, shown⟩ := initial.calls calls
  exact ⟨after, by simp [vgaCalls, ready, finished], shown.toShows⟩

/-- Two letters in yellow on blue, on two rows; the cell between them keeps the
attribute of `vga_init`. -/
theorem vga_refines_terminal_letters :
    ∃ after, vgaCalls ⟨Vector.replicate (25 * 80) 0#16, 7, 3, 0#8⟩
        [.setColor .yellow .blue, .puts [0x41#8, 0x0A#8, 0x42#8, 0#8]] = some after ∧
      after.buffer[0]? = some 0x1E41#16 ∧ after.buffer[1]? = some 0x0720#16 ∧
      after.buffer[80]? = some 0x1E42#16 ∧ after.row = 1 ∧ after.col = 1 := by
  obtain ⟨after, finished, shown⟩ := vga_refines_terminal ⟨Vector.replicate (25 * 80) 0#16, 7, 3, 0#8⟩
    [.setColor .yellow .blue, .puts [0x41#8, 0x0A#8, 0x42#8, 0#8]]
  refine ⟨after, finished, ?_, ?_, ?_, ?_, ?_⟩
  · exact shown.cells 0 0 (by decide) (by decide)
  · exact shown.cells 0 1 (by decide) (by decide)
  · exact shown.cells 1 0 (by decide) (by decide)
  · exact shown.row
  · exact shown.col

end AstraOS.Drivers
