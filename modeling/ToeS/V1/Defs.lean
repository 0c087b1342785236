import ToeS.Kheap.Bins

/-!
# The v1 kernel

Model of `v1/os/kheap.c`, `v1/os/llist.c` and of what they use of `v1/os/vmm.c` and `v1/os/pmm.c`.
`node_t` has the layout of `block_t` of the later kernel, and `get_bin_index`, `get_foot`,
`create_foot`, `get_wilderness`, `add_node`, `get_best_fit` and the bin loop of `alloc` do what they do
there, so these are taken from there; `hole` is a word here. The only heap is `kheap`; `super` and `ro`
are read by nothing and left out. An entry of the page directory is absent or holds the table with its
index. `alloc` can come back to itself through `contract`, `free_frame` and `push_frame`.
-/

namespace ToeS.V1
open Lib Kheap

def minHeapSize : Nat := 0x10000
def minWilderness : Nat := 0x2000
def maxWilderness : Nat := 0x1000000

/-- `node->hole`. -/
def hole (h : Heap) (node : Nat) : Nat := readWord h.mem node
@[inherit_doc hole] def setHole (h : Heap) (node v : Nat) : Heap :=
  { h with mem := writeWord h.mem node v }

/-! ## Bins -/

/-- C `add_node`. -/
def addNode (h : Heap) (bin : Fin binCnt) (node : Nat) : Except Fault Heap := addBlockSorted h bin node

/-- C `remove_node`. The links of the node itself stay as they are. -/
def removeNode (h : Heap) (bin : Fin binCnt) (node : Nat) : Except Fault Heap :=
  if h.bins bin = 0 then .ok h
  else if h.bins bin = node then .ok (h.setHead bin (h.next (h.bins bin)))
  else do
    if ← findBlock h node chainFuel (h.next (h.bins bin)) then return unlink h node else return h

/-! ## Taking a block -/

/-- The block that `alloc` finds, and its bin. -/
def search (h : Heap) (size : Nat) : Except Fault (Fin binCnt × Nat) :=
  searchBins h size (binCnt + 1) (getBinIndex size)

/-- `(found->size - size) > 4`. -/
def splits (h : Heap) (found size : Nat) : Bool := sub32 (h.size found) size > 4

/-- `(node_t *) ((char *) found + sizeof(node_t) + sizeof(footer_t)) + size`: the cast binds tighter than
the last `+`, which counts in nodes. -/
def splitAddr (found size : Nat) : Nat := u32 (found + blockSz + footerSz + blockSz * size)

/-- `alloc` when `found` is too large. -/
def splitNode (h : Heap) (found size : Nat) : Except Fault Heap := do
  let split := splitAddr found size
  let h := h.setSize split (sub32 (sub32 (sub32 (h.size found) size) blockSz) footerSz)
  let h := setHole h split 1
  let h := createFoot h split
  let newIdx := getBinIndex (h.size split)
  let h ← addNode h newIdx split
  let h := h.setSize found size
  return createFoot h found

/-- The first part of `alloc`: the block at `found` in the bin `index` is split, marked as used and
removed from its bin. -/
def take (h : Heap) (index : Fin binCnt) (found size : Nat) : Except Fault Heap := do
  let h ← if splits h found size then splitNode h found size else pure h
  let h := setHole h found 0
  removeNode h index found

/-! ## Frames and pages -/

/-- The kernel heap, `max` of its `heap_t`, the tables of `kpaging` by page number with the present bits
of the directory, and the globals of `pmm.c` and `vmm.c`. -/
structure State where
  heap : Heap
  max : Nat
  dir : Nat → Bool
  tables : Nat → Nat
  top : Nat
  bottom : Nat
  placementAddr : Nat
  kheapInit : Bool

/-- C `pop_frame`; the stack grows upwards. -/
def popFrame (s : State) : State × Nat :=
  if s.top = s.bottom then (s, 0xFFFFFFFF)
  else
    let ret := readWord s.heap.mem s.top
    ({ s with top := sub32 s.top 4 }, ret)

/-- The result of `get_page`, as an index into the tables. -/
def getPage (s : State) (address : Nat) : State × Nat :=
  let frame := address >>> 12
  let index := frame / 1024
  if ¬ s.dir index then ({ s with dir := Function.update s.dir index true }, frame) else (s, frame)

/-- C `alloc_frame`. -/
def allocFrame (s : State) (page kern write : Nat) : State :=
  let (s, address) := popFrame s
  let pte := s.tables page ||| 1
  let pte := pte ||| if write ≠ 0 then 2 else 0
  let pte := pte ||| if kern ≠ 0 then 4 else 0
  { s with tables := Function.update s.tables page (pte ||| address) }

section
variable (alloc : State → Nat → Except Fault (State × Nat))

/-- C `kmalloc`, with the `alloc` it calls. -/
def kmalloc (s : State) (size : Nat) : Except Fault (State × Nat) :=
  if s.kheapInit then alloc s size
  else
    let ret := s.placementAddr
    .ok ({ s with placementAddr := u32 (s.placementAddr + size) }, ret)

/-- C `push_frame`. -/
def pushFrame (s : State) (addr : Nat) : Except Fault State := do
  let (s, ptr) ← kmalloc alloc s 4
  return { s with heap := { s.heap with mem := writeWord s.heap.mem ptr addr }, top := ptr }

/-- C `free_frame`. -/
def freeFrame (s : State) (page : Nat) : Except Fault State := do
  let frame := s.tables page &&& 0xFFFFF000
  let s ← pushFrame alloc s frame
  return { s with tables := Function.update s.tables page 0 }

/-- The loop of `contract`. -/
def contractLoop (newSize : Nat) : Nat → Nat → State → Except Fault State
  | 0, _, _ => .error .diverges
  | n + 1, i, s =>
    if newSize < i then do
      let (s, page) := getPage s (u32 (s.heap.start + i))
      let s ← freeFrame alloc s page
      contractLoop newSize n (sub32 i 0x1000) s
    else .ok s

/-- The end of `contract`: the last block shrinks. -/
def shrinkWild (s : State) (sz newSize : Nat) : State :=
  let h := s.heap
  let wild := getWilderness h
  let h := h.setSize wild (sub32 (h.size wild) sz)
  let h := h.setHeader (getFoot h wild) wild
  { s with heap := { h with end_ := u32 (h.start + newSize) } }

/-- C `contract`. -/
def contractWith (s : State) (sz : Nat) : Except Fault State := do
  let oldSize := sub32 s.heap.end_ s.heap.start
  let newSize := sub32 oldSize sz
  let (newSize, sz) :=
    if newSize &&& 0x1000 ≠ 0 then
      let newSize := u32 ((newSize &&& 0x1000) + 0x1000)
      (newSize, sub32 oldSize newSize)
    else (newSize, sz)
  let newSize := if newSize < minHeapSize then minHeapSize else newSize
  let s ← contractLoop alloc newSize chainFuel (sub32 oldSize 0x1000) s
  return shrinkWild s sz newSize

end

/-- The loop of `expand`. -/
def expandLoop (newSize : Nat) : Nat → Nat → State → Except Fault State
  | 0, _, _ => .error .diverges
  | n + 1, i, s =>
    if i < newSize then
      let (s, page) := getPage s (u32 (s.heap.start + i))
      let s := allocFrame s page 1 1
      expandLoop newSize n (u32 (i + 0x1000)) s
    else .ok s

/-- The end of `expand`: the last block grows. -/
def growWild (s : State) (sz newSize : Nat) : State :=
  let h := s.heap
  let wild := getWilderness h
  let h := h.setHeader (getFoot h wild) 0
  let h := h.setSize wild (u32 (h.size wild + sz))
  let h := h.setHeader (getFoot h wild) wild
  { s with heap := { h with end_ := u32 (h.start + newSize) } }

/-- The size of the heap that `expand` makes room for. -/
def grownSize (s : State) (sz : Nat) : Nat :=
  let oldSize := sub32 s.heap.end_ s.heap.start
  let newSize := u32 (oldSize + sz)
  if newSize &&& 0xfffff000 ≠ 0 then u32 ((newSize &&& 0xfffff000) + 0x1000) else newSize

/-- `heap->start + new_size > heap->max` in `expand`. -/
def maxedOut (s : State) (sz : Nat) : Bool := u32 (s.heap.start + grownSize s sz) > s.max

/-- C `expand`, with its result. -/
def expand (s : State) (sz : Nat) : Except Fault (State × Nat) := do
  let oldSize := sub32 s.heap.end_ s.heap.start
  let newSize := grownSize s sz
  let sz := if u32 (oldSize + sz) &&& 0xfffff000 ≠ 0 then sub32 newSize oldSize else sz
  if u32 (s.heap.start + newSize) > s.max then return (s, 0)
  let s ← expandLoop newSize chainFuel oldSize s
  return (growWild s sz newSize, 1)

/-! ## Allocation and release -/

/-- The end of `alloc`. -/
def handOut (s : State) (found : Nat) : State × Nat :=
  ({ s with heap := (s.heap.setPrev found 0).setNext found 0 }, u32 (found + 8))

/-- C `alloc`, where `alloc` is the `alloc` it can come back to. -/
def allocWith (alloc : State → Nat → Except Fault (State × Nat)) (s : State) (size : Nat) :
    Except Fault (State × Nat) := do
  let (index, found) ← search s.heap size
  let h ← take s.heap index found size
  let s := { s with heap := h }
  let wild := getWilderness s.heap
  if s.heap.size wild < minWilderness then
    let (s, success) ← expand s 0x1000
    if success = 0 then return (s, 0)
    return handOut s found
  else if s.heap.size wild > maxWilderness then
    let s ← contractWith alloc s 0x1000
    return handOut s found
  else return handOut s found

/-- `alloc` for at most `n` calls inside each other. -/
def allocDepth : Nat → State → Nat → Except Fault (State × Nat)
  | 0 => fun _ _ => .error .diverges
  | n + 1 => allocWith (allocDepth n)

/-- C `alloc`. -/
def alloc (s : State) (size : Nat) : Except Fault (State × Nat) := allocDepth chainFuel s size

/-- C `contract`. -/
def contract (s : State) (sz : Nat) : Except Fault State := contractWith alloc s sz

/-- `free` when the block before is free. -/
def mergePrev (h : Heap) (head prev : Nat) : Except Fault (Heap × Nat) :=
  if hole h prev ≠ 0 then do
    let h ← removeNode h (getBinIndex (h.size prev)) prev
    let h := h.setSize prev (u32 (h.size prev + (footerSz + blockSz + h.size head)))
    return (h.setHeader (getFoot h head) prev, prev)
  else .ok (h, head)

/-- `free` when the block behind is free. The footer of `head` is not counted. -/
def mergeNext (h : Heap) (head next : Nat) : Except Fault Heap :=
  if hole h next ≠ 0 then do
    let h ← removeNode h (getBinIndex (h.size next)) next
    let h := h.setSize head (u32 (h.size head + (blockSz + h.size next)))
    let h := h.setHeader (getFoot h next) 0
    let h := h.setSize next 0
    let h := setHole h next 0
    return h.setHeader (getFoot h head) head
  else .ok h

/-- C `free`. -/
def free (h : Heap) (p : Nat) : Except Fault Heap :=
  let head := sub32 p offset
  if head = h.start then
    let h := setHole h head 1
    addNode h (getBinIndex (h.size head)) head
  else do
    let next := u32 (getFoot h head + footerSz)
    let prev := h.header (sub32 head footerSz)
    let (h, head) ← mergePrev h head prev
    let h ← mergeNext h head next
    let h := setHole h head 1
    addNode h (getBinIndex (h.size head)) head

/-- C `init_heap`, on bins with the heads `h.bins`. -/
def initHeap (h : Heap) (start stop : Nat) : Except Fault Heap := do
  let initRegion := start
  let h := setHole h initRegion 1
  let h := h.setSize initRegion (0x1000000 - blockSz - footerSz)
  let h := createFoot h initRegion
  let h ← addNode h (getBinIndex (h.size initRegion)) initRegion
  return { h with start := start, end_ := stop }

end ToeS.V1
