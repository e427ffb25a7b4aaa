import AstraOS.Foundation.Loop
import AstraOS.Foundation.WordBitmap
import AstraOS.Memory.Multiboot

/-! The physical memory manager: one bit per 4 KiB frame, set when the frame is
used or reserved. -/

namespace AstraOS.Memory

open Foundation

/-- `PMM_MAX_FRAMES`: 4 GiB of 4 KiB frames. -/
def pmmMaxFrames : Nat := 1048576

/-- `BITMAP_WORDS`. -/
def bitmapWords : Nat := 32768

abbrev Bitmap := WordBitmap 32 bitmapWords

/-- The static variables of the manager. -/
structure Pmm where
  bitmap : Bitmap
  totalFrames : BitVec 32
  freeFrames : BitVec 32

/-- The zero-filled section that holds them at boot. -/
def Pmm.boot : Pmm := ⟨Vector.replicate bitmapWords 0, 0, 0⟩

/-- `bitmap[frame / 32] |= (1u << (frame % 32))`. -/
def bitmapSet (bitmap : Bitmap) (frame : Nat) : Bitmap := bitmap.set frame

/-- `bitmap[frame / 32] &= ~(1u << (frame % 32))`. -/
def bitmapClear (bitmap : Bitmap) (frame : Nat) : Bitmap := bitmap.clear frame

/-- `(bitmap[frame / 32] >> (frame % 32)) & 1u`. -/
def bitmapTest (bitmap : Bitmap) (frame : Nat) : Bool := bitmap.test frame

/-- The loop body that hands one frame over to the allocator. -/
def releaseFrame (frame : Nat) (pmm : Pmm) : Pmm :=
  { bitmap := bitmapClear pmm.bitmap frame
    freeFrames := pmm.freeFrames + 1#32
    totalFrames := pmm.totalFrames + 1#32 }

/-- The loop body that withdraws one frame, if it is free. -/
def reserveFrame (frame : Nat) (pmm : Pmm) : Pmm :=
  if !bitmapTest pmm.bitmap frame then
    { pmm with bitmap := bitmapSet pmm.bitmap frame, freeFrames := pmm.freeFrames - 1#32 }
  else pmm

/-- `for (f = first; f < last && f < PMM_MAX_FRAMES; f++)`. -/
def forFrames (first last : BitVec 32) (body : Nat → Pmm → Pmm) (pmm : Pmm) : Pmm :=
  forRange first.toNat (min last.toNat pmmMaxFrames) body pmm

/-- `(1u << 20) / PMM_FRAME_SIZE`: the frame at 1 MiB. -/
def lowFrames : BitVec 32 := (1#32 <<< 20) / 4096#32

/-- The fallback without a memory map: everything above 1 MiB that
`mem_upper` announces, in 32-bit arithmetic. -/
def releaseUpper (info : MultibootInfo) (pmm : Pmm) : Pmm :=
  let upperBytes := info.memUpper * 1024#32
  forFrames lowFrames ((0x100000#32 + upperBytes) / 4096#32) releaseFrame pmm

/-- `region_len` after the clamp to 4 GiB; the sum wraps modulo 2^64. -/
def regionLen (entry : MmapEntry) : BitVec 64 :=
  if entry.addr + entry.len > 0x100000000#64 then 0x100000000#64 - entry.addr else entry.len

def firstFrame (entry : MmapEntry) : BitVec 32 := (entry.addr / 4096#64).setWidth 32

def numFrames (entry : MmapEntry) : BitVec 32 := (regionLen entry / 4096#64).setWidth 32

/-- One turn of the memory-map walk, with both ways to the next entry. -/
def mmapTurn : BitVec 32 × Pmm → Reading 32 (BitVec 32 × Pmm)
  | (addr, pmm) => do
    let type ← loadType addr
    if type = 1#32 then
      let regionStart ← loadAddr addr
      let len ← loadLen addr
      if regionStart ≥ 0x100000000#64 then
        let size ← loadSize addr
        return (addr + (size + 4#32), pmm)
      else
        let size ← loadSize addr
        let entry : MmapEntry := ⟨size, regionStart, len, type⟩
        return (addr + (size + 4#32),
          forFrames (firstFrame entry) (firstFrame entry + numFrames entry) releaseFrame pmm)
    else
      let size ← loadSize addr
      return (addr + (size + 4#32), pmm)

def mmapStep (memory : Memory 32) (cursor : BitVec 32 × Pmm) : BitVec 32 × Pmm := (mmapTurn cursor).value memory

/-- Steps 1 and 2 of `pmm_init`, with what they read of the map. -/
def pmmInitWalk (fuel : Nat) (info : MultibootInfo) (pmm : Pmm) : Reading 32 (Option Pmm) :=
  let marked := { pmm with
    bitmap := forRange 0 bitmapWords (fun i bitmap => bitmap.setIfInBounds i 0xFFFFFFFF#32) pmm.bitmap }
  if info.flags &&& 1#32 <<< 6 = 0#32 then pure (some (releaseUpper info marked))
  else
    let finish := info.mmapAddr + info.mmapLength
    Option.map Prod.snd <$> Reading.loop (fun cursor => decide (cursor.1 < finish)) mmapTurn fuel
      (info.mmapAddr, marked)

/-- The walk ends only if its addresses ever leave the map, so the result
depends on the fuel it is given. -/
def pmmInitMap (fuel : Nat) (memory : Memory 32) (info : MultibootInfo) (pmm : Pmm) : Option Pmm :=
  (pmmInitWalk fuel info pmm).value memory

/-- Step 3 of `pmm_init`: the first MiB and the kernel image are used. -/
def pmmInitReserve (kernelEndPhys : BitVec 32) (pmm : Pmm) : Pmm :=
  forFrames lowFrames ((kernelEndPhys + 4096#32 - 1#32) / 4096#32) reserveFrame
    (forFrames 0#32 lowFrames reserveFrame pmm)

def pmmInit (fuel : Nat) (memory : Memory 32) (info : MultibootInfo) (kernelEndPhys : BitVec 32)
    (pmm : Pmm) : Option Pmm :=
  (pmmInitMap fuel memory info pmm).map (pmmInitReserve kernelEndPhys)

/-- The three figures that `pmm_init` prints. -/
def pmmSummary (pmm : Pmm) : BitVec 32 × BitVec 32 × BitVec 32 :=
  ((pmm.totalFrames * 4096#32) >>> 20, (pmm.freeFrames * 4096#32) >>> 20, pmm.freeFrames)

/-- The inner loop of `pmm_alloc_frame`: a word of ones is skipped. -/
def allocScanWord (bitmap : Bitmap) (i : Nat) : Option Nat :=
  if bitmap.word i = 0xFFFFFFFF#32 then none
  else ((List.range 32).map (fun bit => i * 32 + bit)).find? (fun frame => !bitmapTest bitmap frame)

def allocScan (bitmap : Bitmap) : Option Nat :=
  (List.range bitmapWords).findSome? (allocScanWord bitmap)

def pmmAllocFrame (pmm : Pmm) : Pmm × BitVec 32 :=
  match allocScan pmm.bitmap with
  | some frame =>
    ({ pmm with bitmap := bitmapSet pmm.bitmap frame, freeFrames := pmm.freeFrames - 1#32 },
      BitVec.ofNat 32 frame * 4096#32)
  | none => (pmm, 0#32)

def pmmFreeFrame (pmm : Pmm) (physAddr : BitVec 32) : Pmm :=
  let frame := physAddr / 4096#32
  if frame.toNat < pmmMaxFrames && bitmapTest pmm.bitmap frame.toNat then
    { pmm with bitmap := bitmapClear pmm.bitmap frame.toNat, freeFrames := pmm.freeFrames + 1#32 }
  else pmm

def pmmFreeFrames (pmm : Pmm) : BitVec 32 := pmm.freeFrames

def pmmTotalFrames (pmm : Pmm) : BitVec 32 := pmm.totalFrames

end AstraOS.Memory
