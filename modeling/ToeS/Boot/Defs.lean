import ToeS.Vmm.Walk

/-!
# Boot

Model of the placement allocator of `kern/mm/kmalloc.c` and of the memory side of boot: `bs_init`, the
allocations of `kheap_pre_init`, and `vmm_init`. Before the kernel heap is initialised `kmalloc` moves
`alloc_ptr`, which starts at the end of the kernel. `handed` remembers what it handed out.

The frames that `pmm_init` marks as used are the bits the bitset starts with. The fault handler that
`vmm_init` registers is left out, and so is the block that `kheap_init` writes: it is the state the
model of the heap starts from.
-/

namespace ToeS.Boot
open Lib Frames Vmm

/-- `KERN_OFFSET`. -/
def kernOffset : Nat := 0xC0000000

/-- `V2P`. -/
def v2p (x : Nat) : Nat := sub32 x kernOffset

/-- `P2V`. -/
def p2v (x : Nat) : Nat := u32 (x + kernOffset)

def kheapStart : Nat := 0xD0000000
def kheapEnd : Nat := 0xD0100000

/-- `PG_ROUND_UP`. A page-aligned address moves to the next page. -/
def pgRoundUp (x : Nat) : Nat := u32 ((x &&& 0xfffff000) + 0x1000)

/-- `alloc_ptr`, and the memory handed out so far by address and size. -/
structure Bump where
  allocPtr : Nat
  handed : List (Nat × Nat)

/-- The branch of `kmalloc_helper` without a kernel heap: the address, what goes to `paddr`, and the
next state. -/
def kmallocHelper (b : Bump) (sz : Nat) (aligned : Bool) : Nat × Nat × Bump :=
  let allocPtr := if aligned then pgRoundUp b.allocPtr else b.allocPtr
  (allocPtr, v2p allocPtr, ⟨u32 (allocPtr + sz), (allocPtr, sz) :: b.handed⟩)

/-- C `kmalloc`. -/
def kmalloc (b : Bump) (sz : Nat) : Bump := (kmallocHelper b sz false).2.2

/-- C `kmalloc_ap`. -/
def kmallocAp (b : Bump) (sz : Nat) : Nat × Nat × Bump := kmallocHelper b sz true

/-- `sizeof(bs_t)`, `sizeof(heap_t)`, `sizeof(bin_t)` and `BIN_CNT`. -/
def bsSz : Nat := 8
@[inherit_doc bsSz] def heapSz : Nat := 52
@[inherit_doc bsSz] def binSz : Nat := 4
@[inherit_doc bsSz] def binCnt : Nat := 9

/-- The allocations of `bs_init`. -/
def bsInit (b : Bump) (sz : Nat) : Bump := kmalloc (kmalloc b bsSz) (4 * bsWords sz)

/-- The allocations of `kheap_pre_init`. -/
def kheapPreInit (b : Bump) : Bump :=
  (List.range binCnt).foldl (fun b _ => kmalloc b binSz) (kmalloc b heapSz)

/-- The first loop of `vmm_init`, from `vaddr` on: as long as `vaddr` is at most a page behind what
was handed out so far. -/
def kernLoop : Nat → Nat → State Bump → Except Fault (State Bump)
  | 0, _, _ => .error .diverges
  | n + 1, vaddr, s =>
    if vaddr ≤ u32 (s.heap.allocPtr + 0x1000) then do
      let (_, s) ← s.mapAt kmallocAp vaddr s.kernDir (v2p vaddr)
      kernLoop n (u32 (vaddr + pgSz)) s
    else .ok s

/-- The body of the second loop of `vmm_init`, for the page `i` of the kernel heap. -/
def heapPage (s : State Bump) (i : Nat) : Except Fault (State Bump) := do
  let (_, s) ← s.mapAt kmallocAp (kheapStart + i * pgSz) s.kernDir 0
  return s

/-- Rounds of the second loop: `KHEAP_END` belongs to it. -/
def heapPages : Nat := (kheapEnd - kheapStart) / pgSz + 1

/-- C `vmm_init`. -/
def vmmInit (s : State Bump) : Except Fault (State Bump) := do
  let (kernDir, s) := s.newPgDir kmallocAp
  let s := { s with kernDir := kernDir }
  let s := { s with frames := (setFrame s.frames 0).2 }
  let s := { s with heap := kheapPreInit s.heap }
  let s ← kernLoop chainFuel (p2v 0) s
  let s ← exec heapPage s (List.range heapPages)
  return s.switchPageDirectory s.kernDir

/-- What boot is given: the address of the end of the kernel, the number of frames that the multiboot
information tells, the bits that `pmm_init` leaves in the bitset, and the memory, in which nothing is
known. -/
structure Machine where
  kernEnd : Nat
  frameCnt : Nat
  bits : Vector (BitVec 32) (bsWords frameCnt)
  dirs : Nat → PgDir
  tabs : Nat → Fin 1024 → Page
  ram : Mem
  cr3 : Nat

namespace Machine

/-- The bitset after `pmm_init`. -/
def frames (m : Machine) : BitSet := ⟨bsWords m.frameCnt, m.bits⟩

/-- The state in which `vmm_init` starts. -/
def start (m : Machine) : State Bump where
  heap := bsInit ⟨m.kernEnd, []⟩ m.frameCnt
  log := []
  frames := m.frames
  dirs := m.dirs
  tabs := m.tabs
  ram := m.ram
  kernDir := 0
  currentDir := 0
  cr3 := m.cr3

/-- The memory side of boot. -/
def boot (m : Machine) : Except Fault (State Bump) := vmmInit m.start

end Machine

end ToeS.Boot
