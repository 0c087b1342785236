import ToeS.Lib.Run
import ToeS.Vmm.Page

/-!
# Page directories

Model of the page directories of `kern/mm/vmm.c`: `get_page`, `map_page` and `unmap_page` at an entry,
`get_physical`, `switch_page_directory` and `copy_pg_dir`, and beside them what the processor does
with the same memory, the two-level walk from `cr3`.

Tables and directories are known by their virtual address; `NULL` is 0. They live in the memory that
`kmalloc_ap` hands out, which is a parameter: it takes the state of the heap and a size and returns
an address, what it stores through `paddr`, and the next state. `log` remembers what was handed out,
and is how a physical address is traced to the table or directory behind it. All other physical
memory is the bytes of `ram`. What `kprintf` writes is left out.
-/

namespace ToeS.Vmm
open Lib Frames

/-- `PD_IDX`. -/
def pdIdx (va : Nat) : Fin 1024 := ⟨va / 4194304 % 1024, Nat.mod_lt _ (by decide)⟩

/-- `PT_IDX`. -/
def ptIdx (va : Nat) : Fin 1024 := ⟨va / 4096 % 1024, Nat.mod_lt _ (by decide)⟩

/-- `IDX2PG`. -/
def idx2pg (d t : Fin 1024) : Nat := d.val * 4194304 + t.val * 4096

def pdeP : Nat := 0x1
def pdeW : Nat := 0x2
def pdeU : Nat := 0x4

/-- `pg_dir_t`. -/
structure PgDir where
  physTabs : Fin 1024 → Nat
  tables : Fin 1024 → Nat
  phys : Nat

/-- What `memset` leaves. -/
def PgDir.zero : PgDir := ⟨fun _ => 0, fun _ => 0, 0⟩

/-- What a piece of memory was allocated for. -/
inductive Obj where
  | pgTab
  | pgDir
  deriving DecidableEq

/-- `sizeof`. -/
def Obj.size : Obj → Nat
  | pgTab => 4096
  | pgDir => 8196

/-- Memory that was handed out: its virtual address and the physical address behind it. -/
structure Region where
  obj : Obj
  addr : Nat
  phys : Nat
  deriving DecidableEq

/-- The physical address `x` lies in the region. -/
def Region.Has (r : Region) (x : Nat) : Prop := r.phys ≤ x ∧ x < r.phys + r.obj.size

instance (r : Region) (x : Nat) : Decidable (r.Has x) := inferInstanceAs (Decidable (_ ∧ _))

/-- The frame bitset, the directories and tables in memory, and the globals. -/
structure State (σ : Type) where
  heap : σ
  log : List Region
  frames : BitSet
  dirs : Nat → PgDir
  tabs : Nat → Fin 1024 → Page
  ram : Mem
  kernDir : Nat
  currentDir : Nat
  cr3 : Nat

/-- A `page_t *`: the table and the index in it. -/
abbrev PagePtr := Nat × Fin 1024

variable {σ : Type}

namespace State

/-- The entry behind a pointer. -/
def page (s : State σ) (pg : PagePtr) : Page := s.tabs pg.1 pg.2

def setPage (s : State σ) (pg : PagePtr) (v : Page) : State σ :=
  { s with tabs := Function.update s.tabs pg.1 (Function.update (s.tabs pg.1) pg.2 v) }

def setTab (s : State σ) (tab : Nat) (v : Fin 1024 → Page) : State σ :=
  { s with tabs := Function.update s.tabs tab v }

def setDir (s : State σ) (dir : Nat) (v : PgDir) : State σ :=
  { s with dirs := Function.update s.dirs dir v }

/-- Stores the two fields of a directory at one index. -/
def setEntry (s : State σ) (dir : Nat) (i : Fin 1024) (table physTab : Nat) : State σ :=
  let d := s.dirs dir
  s.setDir dir { d with tables := Function.update d.tables i table,
                        physTabs := Function.update d.physTabs i physTab }

/-! ## Physical memory and the processor -/

end State

/-- The 32-bit word of a page entry. -/
def Page.encode (pg : Page) : Nat :=
  pg.present.toNat + 2 * pg.rw.toNat + 4 * pg.usr.toNat + 4096 * pg.addr

/-- The word with the index `i` of a directory. -/
def PgDir.word (d : PgDir) (i : Nat) : Nat :=
  if i < 1024 then d.physTabs (Fin.ofNat _ i)
  else if i < 2048 then d.tables (Fin.ofNat _ (i - 1024))
  else d.phys

namespace State

/-- The word with the index `i` of a region. -/
def word (s : State σ) (r : Region) (i : Nat) : Nat :=
  match r.obj with
  | .pgTab => (s.tabs r.addr (Fin.ofNat _ i)).encode
  | .pgDir => (s.dirs r.addr).word i

/-- The aligned word at the physical address `x`. -/
def physWord (s : State σ) (x : Nat) : Nat :=
  match s.log.find? (fun r => r.Has x) with
  | some r => s.word r ((x - r.phys) / 4)
  | none => readWord s.ram x

/-- The byte at the physical address `x`. -/
def physByte (s : State σ) (x : Nat) : UInt8 :=
  .ofNat (s.physWord (x - x % 4) / 256 ^ (x % 4))

/-- The walk of the processor from the directory at the physical address `cr3`, or a page fault. -/
def cpuWalk (s : State σ) (cr3 va : Nat) : Option Nat :=
  let pde := s.physWord (cr3 + 4 * pdIdx va)
  if pde &&& pdeP = 0 then none
  else
    let pte := s.physWord ((pde &&& 0xfffff000) + 4 * ptIdx va)
    if pte &&& 1 = 0 then none
    else some ((pte &&& 0xfffff000) + va % 4096)

/-! ## The functions of `vmm.c` -/

/-- The physical address of `virt` as the tables have it (C `get_physical`). -/
def getPhysical (s : State σ) (virt pd : Nat) : Nat :=
  let pd := if pd = 0 then s.currentDir else pd
  let offset := virt % pgSz
  if (s.dirs pd).tables (pdIdx virt) ≠ 0 then
    let page := s.tabs ((s.dirs pd).tables (pdIdx virt)) (ptIdx virt)
    page.addr * pgSz + offset
  else 0

/-- C `map_page`. -/
def mapPage (s : State σ) (pg : PagePtr) (usr write addr : Nat) : State σ :=
  let (frames, v) := Vmm.mapPage s.frames (s.page pg) usr write addr
  { s with frames := frames }.setPage pg v

/-- C `unmap_page`. -/
def unmapPage (s : State σ) (pg : PagePtr) : State σ :=
  let (frames, v) := Vmm.unmapPage s.frames (s.page pg)
  { s with frames := frames }.setPage pg v

/-- C `switch_page_directory`. -/
def switchPageDirectory (s : State σ) (dir : Nat) : State σ :=
  { s with currentDir := dir, cr3 := (s.dirs dir).phys }

/-- Copies `n` bytes from `src` to `dst` through the mappings (C `memcpy`). -/
def memcpy (s : State σ) (src dst : Nat) : Nat → Except Fault (State σ)
  | 0 => .ok s
  | n + 1 => do
    let s ← memcpy s src dst n
    match s.cpuWalk s.cr3 (u32 (src + n)), s.cpuWalk s.cr3 (u32 (dst + n)) with
    | some a, some b =>
      if ∃ r ∈ s.log, r.Has b then throw .clobbered
      return { s with ram := writeByte s.ram b (s.physByte a) }
    | _, _ => throw .pageFault

variable (kmallocAp : σ → Nat → Nat × Nat × σ)

/-- `kmalloc_ap(sizeof(..), &phys)`, remembered in the log. -/
def alloc (s : State σ) (obj : Obj) : Region × State σ :=
  let (addr, phys, heap) := kmallocAp s.heap obj.size
  let r := ⟨obj, addr, phys⟩
  (r, { s with heap := heap, log := r :: s.log })

/-- The entry for `addr` in `pgDir`; a missing table is allocated when `create` is set
(C `get_page`). -/
def getPage (s : State σ) (addr create pgDir : Nat) : Option PagePtr × State σ :=
  if (s.dirs pgDir).tables (pdIdx addr) ≠ 0 then
    (some ((s.dirs pgDir).tables (pdIdx addr), ptIdx addr), s)
  else if create ≠ 0 then
    let (r, s) := s.alloc kmallocAp .pgTab
    let s := s.setTab r.addr fun _ => Page.zero
    let s := s.setEntry pgDir (pdIdx addr) r.addr (r.phys ||| pdeP ||| pdeW ||| pdeU)
    (some (r.addr, ptIdx addr), s)
  else (none, s)

/-- The first lines of `vmm_init` and of `copy_pg_dir`: an empty directory that knows its physical
address. -/
def newPgDir (s : State σ) : Nat × State σ :=
  let (r, s) := s.alloc kmallocAp .pgDir
  (r.addr, s.setDir r.addr { PgDir.zero with phys := r.phys })

/-- Where `copy_pg_dir` maps the frame it copies to. -/
def scratch : Nat := 0xE0000000

/-- `map_page` of what `get_page` returned; a write through `NULL` faults. -/
def mapAt (s : State σ) (addr dir frame : Nat) : Except Fault (PagePtr × State σ) :=
  match s.getPage kmallocAp addr 1 dir with
  | (some page, s) => .ok (page, s.mapPage page 1 1 frame)
  | (none, _) => .error .pageFault

/-- The body of the loop of `copy_pg_dir` for the page `p` of the table with the index `i`. -/
def copyPage (new : Nat) (i p : Fin 1024) (s : State σ) : Except Fault (State σ) := do
  let pgAddr := idx2pg i p
  let (frame, frames) := getFrame s.frames
  let s := { s with frames := frames }
  let (page, s) ← s.mapAt kmallocAp scratch s.currentDir frame
  let s := s.switchPageDirectory s.currentDir
  let s ← s.memcpy pgAddr scratch pgSz
  let s := s.unmapPage page
  let (_, s) ← s.mapAt kmallocAp pgAddr new frame
  return s.switchPageDirectory s.currentDir

/-- The loop over the pages of one table of `dir`. -/
def copyTab (dir new : Nat) (s : State σ) (i : Fin 1024) : Except Fault (State σ) :=
  let table := (s.dirs dir).tables i
  if table ≠ 0 then
    exec (fun s p => if (s.tabs table p).addr ≠ 0 then copyPage kmallocAp new i p s else .ok s)
      s (List.finRange 1024)
  else .ok s

/-- The body of the loop over the kernel's tables, which are shared. -/
def shareTab (new : Nat) (s : State σ) (i : Fin 1024) : Except Fault (State σ) :=
  let table := (s.dirs s.kernDir).tables i
  if table ≠ 0 then .ok (s.setEntry new i table ((s.dirs s.kernDir).physTabs i)) else .ok s

/-- A new directory with copies of the pages below `0xC0000000` and the tables of the kernel above
(C `copy_pg_dir`). -/
def copyPgDir (s : State σ) (dir : Nat) : Except Fault (Nat × State σ) := do
  let (new, s) := s.newPgDir kmallocAp
  let s ← exec (copyTab kmallocAp dir new) s ((List.finRange 1024).take 768)
  let s ← exec (shareTab new) s ((List.finRange 1024).drop 768)
  return (new, s)

end State

end ToeS.Vmm
