import AstraOS.Foundation.Buffer

/-! The VGA text driver: character cells in row-major order, a cursor, and an
in-place scroll. Every access to the text buffer is checked. -/

namespace AstraOS.Drivers
open AstraOS.Foundation

def vgaWidth : Nat := 80

def vgaHeight : Nat := 25

inductive VgaColor where
  | black | blue | green | cyan | red | magenta | brown | lightGrey
  | darkGrey | lightBlue | lightGreen | lightCyan | lightRed | lightMagenta | yellow | white
deriving DecidableEq

/-- The values of `vga_color_t`. -/
def VgaColor.code : VgaColor → BitVec 8
  | black => 0#8 | blue => 1#8 | green => 2#8 | cyan => 3#8
  | red => 4#8 | magenta => 5#8 | brown => 6#8 | lightGrey => 7#8
  | darkGrey => 8#8 | lightBlue => 9#8 | lightGreen => 10#8 | lightCyan => 11#8
  | lightRed => 12#8 | lightMagenta => 13#8 | yellow => 14#8 | white => 15#8

/-- The memory at 0xB8000 with the driver's static variables. -/
structure Vga where
  buffer : Vector (BitVec 16) (vgaHeight * vgaWidth)
  row : Nat
  col : Nat
  color : BitVec 8

def makeColor (fg bg : VgaColor) : BitVec 8 := fg.code ||| (bg.code <<< 4)

def makeEntry (c color : BitVec 8) : BitVec 16 := c.setWidth 16 ||| (color.setWidth 16 <<< 8)

def vgaScroll (vga : Vga) : Option Vga := do
  let moved ← forRangeM 0 (vgaHeight - 1) (fun y => forRangeM 0 vgaWidth (fun x buffer => do
    let entry ← (buffer : Vector (BitVec 16) (vgaHeight * vgaWidth))[(y + 1) * vgaWidth + x]?
    storeAt buffer (y * vgaWidth + x) entry)) vga.buffer
  let cleared ← forRangeM 0 vgaWidth (fun x buffer =>
    storeAt buffer ((vgaHeight - 1) * vgaWidth + x) (makeEntry 0x20#8 vga.color)) moved
  some { vga with buffer := cleared, row := vgaHeight - 1 }

def vgaClear (vga : Vga) : Option Vga := do
  let cleared ← forRangeM 0 vgaHeight (fun y => forRangeM 0 vgaWidth (fun x buffer =>
    storeAt buffer (y * vgaWidth + x) (makeEntry 0x20#8 vga.color))) vga.buffer
  some { vga with buffer := cleared, row := 0, col := 0 }

def vgaSetColor (fg bg : VgaColor) (vga : Vga) : Vga := { vga with color := makeColor fg bg }

def vgaInit (vga : Vga) : Option Vga := vgaClear (vgaSetColor .lightGrey .black vga)

/-- `if (++vga_row == VGA_HEIGHT) vga_scroll();` with the column at zero. -/
def vgaNewline (vga : Vga) : Option Vga :=
  let vga := { vga with row := vga.row + 1, col := 0 }
  if vga.row = vgaHeight then vgaScroll vga else some vga

def vgaPutchar (c : BitVec 8) (vga : Vga) : Option Vga :=
  if c = 0x0A#8 then vgaNewline vga
  else if c = 0x0D#8 then some { vga with col := 0 }
  else do
    let buffer ← storeAt vga.buffer (vga.row * vgaWidth + vga.col) (makeEntry c vga.color)
    let vga := { vga with buffer := buffer, col := vga.col + 1 }
    if vga.col = vgaWidth then vgaNewline vga else some vga

/-- The list is the string's memory; the loop ends at the first NUL. -/
def vgaPuts : List (BitVec 8) → Vga → Option Vga
  | [], vga => some vga
  | c :: rest, vga => if c ≠ 0#8 then (vgaPutchar c vga).bind (vgaPuts rest) else some vga

inductive VgaCall where
  | putchar (c : BitVec 8)
  | puts (str : List (BitVec 8))
  | setColor (fg bg : VgaColor)
  | clear
deriving DecidableEq

def vgaCall : VgaCall → Vga → Option Vga
  | .putchar c, vga => vgaPutchar c vga
  | .puts str, vga => vgaPuts str vga
  | .setColor fg bg, vga => some (vgaSetColor fg bg vga)
  | .clear, vga => vgaClear vga

/-- `vga_init` and then the calls in order; a fault ends the run. -/
def vgaCalls (vga : Vga) (calls : List VgaCall) : Option Vga :=
  (vgaInit vga).bind (calls.foldlM (fun vga call => vgaCall call vga))

/-- Every row moves up by one and the last becomes blank. -/
theorem vgaScroll_effect (vga : Vga) :
    ∃ after, vgaScroll vga = some after ∧ after.row = 24 ∧ after.col = vga.col ∧ after.color = vga.color ∧
      ∀ y x, x < 80 → after.buffer[y * 80 + x]? =
        if y < 24 then vga.buffer[(y + 1) * 80 + x]?
        else if y = 24 then some (makeEntry 0x20#8 vga.color) else vga.buffer[y * 80 + x]? := by
  obtain ⟨moved, copied, shifted⟩ := forRangeM_copyDown vga.buffer 80 (24 * 80) (by decide) (by decide)
  obtain ⟨cleared, filled, blank⟩ := forRangeM_fill moved (makeEntry 0x20#8 vga.color) (24 * 80) 80 (by decide)
  have flat : forRangeM 0 (vgaHeight - 1) (fun y => forRangeM 0 vgaWidth (fun x buffer => do
      let entry ← (buffer : Vector (BitVec 16) (vgaHeight * vgaWidth))[(y + 1) * vgaWidth + x]?
      storeAt buffer (y * vgaWidth + x) entry)) vga.buffer = some moved := by
    rw [← copied]
    apply forRangeM_rowMajor vgaWidth (vgaHeight - 1)
    intro y x
    rw [Nat.succ_mul, Nat.add_right_comm]
    rfl
  refine ⟨{ vga with buffer := cleared, row := 24 }, ?_, rfl, rfl, rfl, ?_⟩
  · unfold vgaScroll
    rw [flat]
    exact congrArg (Option.map fun cleared => { vga with buffer := cleared, row := 24 }) filled
  · intro y x column
    rw [blank, shifted]
    rcases Nat.lt_trichotomy y 24 with above | last | below
    · rw [if_neg (by omega), if_pos (by omega), if_pos above, Nat.succ_mul, Nat.add_right_comm]
    · rw [if_pos (by omega), if_neg (by omega), if_pos last]
    · rw [if_neg (by omega), if_neg (by omega), if_neg (by omega), if_neg (by omega)]

theorem vgaClear_effect (vga : Vga) :
    ∃ after, vgaClear vga = some after ∧ after.row = 0 ∧ after.col = 0 ∧ after.color = vga.color ∧
      ∀ y x, y < 25 → x < 80 → after.buffer[y * 80 + x]? = some (makeEntry 0x20#8 vga.color) := by
  obtain ⟨cleared, filled, blank⟩ := forRangeM_fill vga.buffer (makeEntry 0x20#8 vga.color) 0 (25 * 80) (by decide)
  have flat : forRangeM 0 vgaHeight (fun y => forRangeM 0 vgaWidth (fun x buffer =>
      storeAt buffer (y * vgaWidth + x) (makeEntry 0x20#8 vga.color))) vga.buffer = some cleared := by
    rw [← filled]
    apply forRangeM_rowMajor vgaWidth vgaHeight
    intro y x
    rw [Nat.zero_add]
  refine ⟨{ vga with buffer := cleared, row := 0, col := 0 }, ?_, rfl, rfl, rfl, ?_⟩
  · unfold vgaClear
    rw [flat]
    rfl
  · intro y x row column
    rw [blank, if_pos (by omega)]

/-- The cursor is on the screen. -/
structure Vga.Inside (vga : Vga) : Prop where
  row : vga.row < vgaHeight
  col : vga.col < vgaWidth

theorem vgaNewline_inside {vga : Vga} (inside : vga.row < vgaHeight) :
    ∃ after, vgaNewline vga = some after ∧ after.Inside := by
  unfold vgaNewline
  by_cases bottom : vga.row + 1 = vgaHeight
  · obtain ⟨after, scrolled, row, col, -, -⟩ := vgaScroll_effect { vga with row := vga.row + 1, col := 0 }
    refine ⟨after, (if_pos bottom).trans scrolled, ?_, ?_⟩
    · rw [row]
      decide
    · rw [col]
      exact show 0 < 80 by decide
  · exact ⟨_, if_neg bottom, lt_of_le_of_ne inside bottom, show 0 < 80 by decide⟩

/-- From a cursor on the screen, a character never faults. -/
theorem Vga.Inside.putchar {vga : Vga} (inside : vga.Inside) (c : BitVec 8) :
    ∃ after, vgaPutchar c vga = some after ∧ after.Inside := by
  have row := inside.row
  have col := inside.col
  unfold vgaPutchar
  by_cases feed : c = 0x0A#8
  · rw [if_pos feed]
    exact vgaNewline_inside row
  by_cases carriage : c = 0x0D#8
  · rw [if_neg feed, if_pos carriage]
    exact ⟨_, rfl, row, show 0 < 80 by decide⟩
  · have cell : vga.row * vgaWidth + vga.col < vgaHeight * vgaWidth := by
      rw [vgaHeight, vgaWidth] at *
      omega
    obtain ⟨buffer, stored, -⟩ := storeAt_inside vga.buffer (makeEntry c vga.color) cell
    rw [if_neg feed, if_neg carriage, stored]
    by_cases full : vga.col + 1 = vgaWidth
    · have advanced : ({ vga with buffer := buffer, col := vga.col + 1 } : Vga).row < vgaHeight := row
      obtain ⟨after, moved, kept⟩ := vgaNewline_inside advanced
      exact ⟨after, (if_pos full).trans moved, kept⟩
    · exact ⟨_, if_neg full, row, lt_of_le_of_ne col full⟩

end AstraOS.Drivers
