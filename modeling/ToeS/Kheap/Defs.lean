import ToeS.Basic

/-!
# The kernel heap

Model of `kern/mm/kheap.c`. A block is a 16-byte header (`hole` at 0, `size` at 4, `next` at 8,
`prev` at 12), the payload and a 4-byte footer that points back at the header. The payload handed
out starts at the `next` field, so a live block stores user bytes over its own links. Headers,
footers and links live in byte memory, at any alignment; `heap_t` and the bin heads are kept beside
it, because the bump allocator places them below the heap. `max`, `super` and `ro` of `heap_t` are
read by nothing and left out.
-/

namespace ToeS.Kheap
open Lib

def kheapStart : Nat := 0xD0000000
def kheapEnd : Nat := 0xD0100000
def minAllocSz : Nat := 4
def binCnt : Nat := 9

/-- `sizeof(block_t)`. -/
def blockSz : Nat := 16

/-- `sizeof(footer_t)`. -/
def footerSz : Nat := 4

/-- `BLCK_OVERHEAD`. -/
def blckOverhead : Nat := blockSz + footerSz

/-- `OFFSET`: from a header to the payload handed out. -/
def offset : Nat := 8

/-- `heap_t` with the bins it points to, and the memory the heap lives in. -/
structure Heap where
  mem : Mem
  start : Nat
  end_ : Nat
  bins : Fin binCnt → Nat

namespace Heap

/-! ## Fields of a block -/

def hole (h : Heap) (blck : Nat) : UInt8 := h.mem (u32 blck)
def size (h : Heap) (blck : Nat) : Nat := readWord h.mem (blck + 4)
def next (h : Heap) (blck : Nat) : Nat := readWord h.mem (blck + 8)
def prev (h : Heap) (blck : Nat) : Nat := readWord h.mem (blck + 12)

def setHole (h : Heap) (blck : Nat) (v : UInt8) : Heap := { h with mem := writeByte h.mem blck v }
def setSize (h : Heap) (blck v : Nat) : Heap := { h with mem := writeWord h.mem (blck + 4) v }
def setNext (h : Heap) (blck v : Nat) : Heap := { h with mem := writeWord h.mem (blck + 8) v }
def setPrev (h : Heap) (blck v : Nat) : Heap := { h with mem := writeWord h.mem (blck + 12) v }
def setHead (h : Heap) (bin : Fin binCnt) (v : Nat) : Heap :=
  { h with bins := Function.update h.bins bin v }

/-- `footer_t.header`. -/
def header (h : Heap) (foot : Nat) : Nat := readWord h.mem foot
def setHeader (h : Heap) (foot v : Nat) : Heap := { h with mem := writeWord h.mem foot v }

end Heap

/-- Uses the size of a block to calculate its footer position (C `get_foot`). -/
def getFoot (h : Heap) (blck : Nat) : Nat := u32 (blck + blockSz + h.size blck)

/-- Creates the footer of a block (C `create_foot`). -/
def createFoot (h : Heap) (blck : Nat) : Heap := h.setHeader (getFoot h blck) blck

/-! ## Bins -/

/-- `while (sz >>= 1) index++;`. A 32-bit `sz` is shifted out after 32 rounds. -/
def shiftCount : Nat → Nat → Nat → Nat
  | 0, _, index => index
  | n + 1, sz, index => if sz >>> 1 ≠ 0 then shiftCount n (sz >>> 1) (index + 1) else index

/-- Which bin to look in first for a size (C `get_bin_index`; `get_bin` is the bin there). -/
def getBinIndex (sz : Nat) : Fin binCnt :=
  let sz := if sz < 4 then 4 else sz
  let index := shiftCount 32 sz 0 - 2
  if h : index > binCnt - 1 then ⟨binCnt - 1, by decide⟩
  else ⟨index, by simp only [binCnt] at h ⊢; omega⟩

/-- The loop of `add_block_sorted`: past every block whose size is at most that of `blck`. Returns
`prev` and `temp` as the loop leaves them. -/
def sortedPos (h : Heap) (blck : Nat) : Nat → Nat → Nat → Except Fault (Nat × Nat)
  | 0, _, _ => .error .diverges
  | n + 1, prev, temp =>
    if temp ≠ 0 ∧ h.size temp ≤ h.size blck then sortedPos h blck n temp (h.next temp)
    else .ok (prev, temp)

/-- `blck->next = NULL; blck->prev = NULL;`. -/
def clearLinks (h : Heap) (blck : Nat) : Heap := (h.setNext blck 0).setPrev blck 0

/-- The end of `add_block_sorted`: links `blck` in between `prev` and `temp`. -/
def linkBetween (h : Heap) (bin : Fin binCnt) (blck prev temp : Nat) : Heap :=
  if temp = 0 then
    let h := h.setNext prev blck
    h.setPrev blck prev
  else if prev ≠ 0 then
    let h := h.setNext blck temp
    let h := h.setNext prev blck
    let h := h.setPrev blck prev
    h.setPrev temp blck
  else
    let h := h.setNext blck (h.bins bin)
    let h := h.setPrev (h.bins bin) blck
    h.setHead bin blck

/-- Adds a block to a bin, keeping it sorted (C `add_block_sorted`). -/
def addBlockSorted (h : Heap) (bin : Fin binCnt) (blck : Nat) : Except Fault Heap :=
  let h := clearLinks h blck
  if h.bins bin = 0 then .ok (h.setHead bin blck)
  else do
    let (prev, temp) ← sortedPos h blck chainFuel 0 (h.bins bin)
    return linkBetween h bin blck prev temp

/-- The loop of `remove_block`: from `temp` to `blck`, or to the end of the bin. -/
def findBlock (h : Heap) (blck : Nat) : Nat → Nat → Except Fault Bool
  | 0, _ => .error .diverges
  | n + 1, temp =>
    if temp = 0 then .ok false
    else if temp = blck then .ok true
    else findBlock h blck n (h.next temp)

/-- Takes a block that is not the first of its bin out of the list of links. -/
def unlink (h : Heap) (blck : Nat) : Heap :=
  if h.next blck = 0 then h.setNext (h.prev blck) 0
  else
    let h := h.setNext (h.prev blck) (h.next blck)
    h.setPrev (h.next blck) (h.prev blck)

/-- Removes a block from a bin; a block that is not in it leaves the heap as it was
(C `remove_block`). -/
def removeBlock (h : Heap) (bin : Fin binCnt) (blck : Nat) : Except Fault Heap :=
  if h.bins bin = 0 then .ok h
  else if h.bins bin = blck then
    .ok (clearLinks (h.setHead bin (h.next (h.bins bin))) blck)
  else do
    if ← findBlock h blck chainFuel (h.next (h.bins bin)) then return clearLinks (unlink h blck) blck
    else return h

/-- The loop of `get_first_fit`. -/
def firstFit (h : Heap) (sz : Nat) : Nat → Nat → Except Fault Nat
  | 0, _ => .error .diverges
  | n + 1, temp =>
    if temp = 0 then .ok 0
    else if sz ≤ h.size temp then .ok temp
    else firstFit h sz n (h.next temp)

/-- The first block of a bin that is large enough, or `NULL` (C `get_first_fit`). -/
def getFirstFit (h : Heap) (bin : Fin binCnt) (sz : Nat) : Except Fault Nat :=
  firstFit h sz chainFuel (h.bins bin)

/-- The block the last footer of the heap names (C `get_wilderness`). -/
def getWilderness (h : Heap) : Nat := h.header (sub32 h.end_ footerSz)

/-! ## Allocation and release -/

/-- `kheap_pre_init`; `heads` is what the fresh memory of the bins holds. -/
def kheapPreInit (mem : Mem) (heads : Fin binCnt → Nat) : Heap :=
  { mem := mem, start := kheapStart, end_ := kheapEnd, bins := heads }

/-- Places one initial block in its bin (C `kheap_init`). -/
def kheapInit (h : Heap) : Except Fault Heap :=
  let init := kheapStart
  let h := h.setSize init (kheapEnd - kheapStart - blckOverhead)
  let h := h.setNext init 0
  let h := h.setPrev init 0
  let h := createFoot h init
  addBlockSorted h (getBinIndex (h.size init)) init

/-- The bin loop of `kheap_alloc`, from bin `idx` on: the first bin with a fitting block, and that
block. Past the last bin it reads beyond `kheap->bins`. -/
def searchBins (h : Heap) (sz : Nat) : Nat → Nat → Except Fault (Fin binCnt × Nat)
  | 0, _ => .error .outOfBounds
  | n + 1, idx =>
    if hi : idx < binCnt then do
      let found ← getFirstFit h ⟨idx, hi⟩ sz
      if found ≠ 0 then return (⟨idx, hi⟩, found) else searchBins h sz n (idx + 1)
    else .error .outOfBounds

/-- `kheap_alloc` when `found` is much too large: its end becomes a free block of its own. `found`
is still in its bin here. -/
def splitBlock (h : Heap) (found sz : Nat) : Except Fault Heap := do
  let split := u32 (found + blckOverhead + sz)
  let h := h.setSize split (sub32 (sub32 (h.size found) sz) blckOverhead)
  let h := h.setHole split 1
  let h := createFoot h split
  let h ← addBlockSorted h (getBinIndex (h.size split)) split
  let h := h.setSize found sz
  return createFoot h found

/-- The end of `kheap_alloc`: `found` leaves its bin and is zeroed from its `next` field on. -/
def handOut (h : Heap) (bin : Fin binCnt) (found : Nat) : Except Fault (Nat × Heap) := do
  let h := h.setHole found 0
  let h ← removeBlock h bin found
  let h := { h with mem := memset h.mem (found + offset) 0 (u32 (h.size found + 8)) }
  return (u32 (found + offset), h)

/-- Allocates a block of at least `sz` bytes, splitting a much larger one (C `kheap_alloc`). -/
def kheapAlloc (h : Heap) (sz : Nat) : Except Fault (Nat × Heap) := do
  let (tmp, found) ← searchBins h sz (binCnt + 1) (getBinIndex sz)
  let h ←
    if sub32 (h.size found) sz > blckOverhead + minAllocSz then splitBlock h found sz else pure h
  handOut h tmp found

/-- `kheap_free` when the block before is free: `blck` becomes a part of it. -/
def mergePrev (h : Heap) (blck prev : Nat) : Except Fault (Heap × Nat) :=
  if h.hole prev ≠ 0 then do
    let h ← removeBlock h (getBinIndex (h.size prev)) prev
    let h := h.setSize prev (u32 (h.size prev + (blckOverhead + h.size blck)))
    return (h.setHeader (getFoot h blck) prev, prev)
  else .ok (h, blck)

/-- `kheap_free` when the block behind is free: it becomes a part of `blck`. -/
def mergeNext (h : Heap) (blck next : Nat) : Except Fault Heap :=
  if h.hole next ≠ 0 then do
    let h ← removeBlock h (getBinIndex (h.size next)) next
    let h := h.setSize blck (u32 (h.size blck + (blckOverhead + h.size next)))
    let h := h.setHeader (getFoot h next) 0
    let h := h.setSize next 0
    return h.setHeader (getFoot h blck) blck
  else .ok h

/-- Frees an address that `kheap_alloc` returned, merging the block with its free neighbours; the
first block of the heap is not merged (C `kheap_free`). -/
def kheapFree (h : Heap) (addr : Nat) : Except Fault Heap :=
  let blck := sub32 addr offset
  if blck = h.start then
    let h := h.setHole blck 1
    addBlockSorted h (getBinIndex (h.size blck)) blck
  else do
    let next := u32 (getFoot h blck + footerSz)
    let prev := h.header (sub32 blck footerSz)
    let (h, blck) ← mergePrev h blck prev
    let h ← mergeNext h blck next
    let h := h.setHole blck 1
    addBlockSorted h (getBinIndex (h.size blck)) blck

/-- `kheap_alloc_a` off a page boundary, the small chunk up to the boundary. -/
def carveHead (h : Heap) (wild : Nat) : Except Fault Heap :=
  let extra := sub32 pgSz (wild &&& 0x00000FFF)
  let h := h.setSize wild (sub32 (sub32 extra blckOverhead) 8)
  let h := createFoot h wild
  let h := h.setHole wild 1
  addBlockSorted h (getBinIndex (h.size wild)) wild

/-- `kheap_alloc_a` off a page boundary, the block that is given back and the new wilderness. -/
def carveTail (h : Heap) (wild ret oldSz size : Nat) : Except Fault Heap :=
  let h := h.setSize ret size
  let h := createFoot h ret
  let h := h.setHole ret 0
  let newWild := u32 (ret + size + blckOverhead)
  let h := h.setSize newWild
    (sub32 (sub32 (sub32 oldSz (h.size wild)) (h.size ret)) (2 * blckOverhead))
  let h := h.setHole newWild 1
  let h := createFoot h newWild
  addBlockSorted h (getBinIndex (h.size newWild)) newWild

/-- `kheap_alloc_a` off a page boundary. -/
def carveOff (h : Heap) (wild oldSz size : Nat) : Except Fault (Heap × Nat) := do
  let h ← carveHead h wild
  let ret := u32 (wild + h.size wild + blckOverhead)
  let h ← carveTail h wild ret oldSz size
  return (h, ret)

/-- `kheap_alloc_a` on a page boundary. -/
def carveOn (h : Heap) (wild size : Nat) : Except Fault (Heap × Nat) := do
  let newWild := u32 (wild + size + blckOverhead)
  let h := h.setHole newWild 1
  let h := createFoot h newWild
  let h ← addBlockSorted h (getBinIndex (h.size newWild)) newWild
  let ret := wild
  let h := h.setSize ret size
  let h := h.setHole ret 0
  return (createFoot h ret, ret)

/-- `(((char *) wild + 8) && 0x00000FFF) == 0`: the operator between the address and the mask is the
logical one. -/
def onBoundary (wild : Nat) : Bool :=
  (if u32 (wild + 8) ≠ 0 ∧ 0x00000FFF ≠ 0 then 1 else 0) == 0

/-- Allocates a page-aligned block out of the last block of the heap (C `kheap_alloc_a`). -/
def kheapAllocA (h : Heap) (size : Nat) : Except Fault (Nat × Heap) := do
  let wild := getWilderness h
  let oldSz := h.size wild
  let h := h.setHole wild 1
  let h ← removeBlock h (getBinIndex (h.size wild)) wild
  let (h, ret) ← if ¬ onBoundary wild then carveOff h wild oldSz size else carveOn h wild size
  let h := { h with mem := memset h.mem (ret + offset) 0 (u32 (h.size ret + 8)) }
  return (u32 (ret + offset), h)

end ToeS.Kheap
