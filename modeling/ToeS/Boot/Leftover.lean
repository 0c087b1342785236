import ToeS.Boot.MapWalk
import ToeS.Boot.Mapping
import ToeS.Boot.Taken
import ToeS.Kheap.Twin

/-!
# Boot and the RAM it finds

`pmm_init` and `vmm_init` with all the memory that they take over unwritten: the words of the bitset,
which `bs_init` does not clear, the heads of the bins, which `kheap_pre_init` does not set, the pages of
directories and tables, which are cleared, and the frames of the kernel heap. All of it is read from one
physical memory, so that two boots can be compared that differ in it.

The heap lives in flat memory, which holds what the frames of its pages hold. That is the right picture
as long as every page has a frame of its own.
-/

namespace ToeS.Leftover
open Lib Frames Vmm Boot

/-- What the boot loader passes on: the address of the end of the kernel, the multiboot information and
the directory that the processor uses. -/
structure Loader where
  kernEnd : Nat
  mb : Multiboot
  cr3 : Nat

/-- The kernel's view of physical memory before `vmm_init`. -/
def virt (ram : Mem) : Mem := fun x => ram (v2p x)

/-- The page entry in a word. -/
def pageOf (w : Nat) : Page := ⟨w.testBit 0, w.testBit 1, w.testBit 2, Fin.ofNat _ (w / 4096)⟩

/-- The directory in the memory at `a`. -/
def dirAt (m : Mem) (a : Nat) : PgDir where
  physTabs i := readWord m (a + 4 * i)
  tables i := readWord m (a + 4096 + 4 * i)
  phys := readWord m (a + 8192)

/-- The table in the memory at `a`. -/
def tabAt (m : Mem) (a : Nat) (i : Fin 1024) : Page := pageOf (readWord m (a + 4 * i))

section
variable (ld : Loader) (ram : Mem)

/-- The words that `bs_init` allocates, as it leaves them. -/
def leftBits : Vector (BitVec 32) (bsWords ld.mb.frameCnt) :=
  .ofFn fun i => .ofNat 32 (readWord (virt ram) ((kmalloc ⟨ld.kernEnd, []⟩ bsSz).allocPtr + 4 * i))

/-- The allocator when `kheap_pre_init` is called. -/
def bumpBins : Bump := (kmallocAp (bsInit ⟨ld.kernEnd, []⟩ ld.mb.frameCnt) Obj.pgDir.size).2.2

/-- The bins that `kheap_pre_init` allocates, as it leaves them. -/
def leftHeads (i : Fin Kheap.binCnt) : Nat :=
  let b := (List.range i).foldl (fun b _ => kmalloc b binSz) (kmalloc (bumpBins ld) heapSz)
  readWord (virt ram) b.allocPtr

/-- The state in which `vmm_init` starts. -/
def start (frames : BitSet) : State Bump where
  heap := bsInit ⟨ld.kernEnd, []⟩ ld.mb.frameCnt
  log := []
  frames := frames
  dirs := dirAt (virt ram)
  tabs := tabAt (virt ram)
  ram := ram
  kernDir := 0
  currentDir := 0
  cr3 := ld.cr3

/-- The memory at the addresses of the kernel heap: that of the frames behind them. -/
def heapMem (s : State Bump) : Mem := fun x => s.physByte (s.getPhysical x s.kernDir)

/-- The frame bitset and the kernel heap, and what the calls have returned so far. -/
structure Sys where
  frames : BitSet
  heap : Kheap.Sys
  out : List Nat

/-- `pmm_init` and `vmm_init`. -/
def boot : Except Fault Sys := do
  let frames ← pmmInit (virt ram) ld.mb (leftBits ld ram)
  let s ← vmmInit (start ld ram frames)
  let h ← Kheap.kheapInit (Kheap.kheapPreInit (heapMem s) (leftHeads ld ram))
  return ⟨s.frames, ⟨h, []⟩, []⟩

inductive Call where
  | getFrame
  | setFrame (addr : Nat)
  | kheapAlloc (sz : Nat)
  | kheapFree (p : Nat)

/-- One call. -/
def step (s : Sys) : Call → Except Fault Sys
  | .getFrame =>
    let (addr, frames) := getFrame s.frames
    .ok { s with frames := frames, out := s.out ++ [addr] }
  | .setFrame addr =>
    let (success, frames) := setFrame s.frames addr
    .ok { s with frames := frames, out := s.out ++ [success] }
  | .kheapAlloc sz => do
    let (p, h) ← Kheap.kheapAlloc s.heap.heap sz
    return { s with heap := ⟨h, p :: s.heap.live⟩, out := s.out ++ [p] }
  | .kheapFree p => do
    let h ← Kheap.kheapFree s.heap.heap p
    return { s with heap := ⟨h, s.heap.live.erase p⟩ }

/-- What the calls return after boot. -/
def results (calls : List Call) : Except Fault (List Nat) := do
  let s ← boot ld ram
  let s ← exec step s calls
  return s.out

end

/-! ## `vmm_init` twice -/

/-- The allocators, the frames and the kernel's directory with its tables are equal. -/
structure Same (s s' : State Bump) : Prop where
  heap : s'.heap = s.heap
  log : s'.log = s.log
  frames : s'.frames = s.frames
  kernDir : s'.kernDir = s.kernDir
  dir : s'.dirs s.kernDir = s.dirs s.kernDir
  tab : ∀ i, (s.dirs s.kernDir).tables i ≠ 0 →
    s'.tabs ((s.dirs s.kernDir).tables i) = s.tabs ((s.dirs s.kernDir).tables i)

section
variable {s s' t t' : State Bump}

/-- Mapping a page of a table that is the same. -/
lemma Same.mapPage {pg : PagePtr} (S : Same s s') (hpg : s'.tabs pg.1 = s.tabs pg.1) (usr write a : Nat) :
    Same (s.mapPage pg usr write a) (s'.mapPage pg usr write a) := by
  have hpage : s'.page pg = s.page pg := congrFun hpg pg.2
  have htabs : ∀ T, s'.tabs T = s.tabs T →
      (s'.mapPage pg usr write a).tabs T = (s.mapPage pg usr write a).tabs T := by
    intro T hT
    simp only [State.mapPage, State.setPage, hpage, S.frames, hpg, Function.update_apply, hT]
  refine ⟨S.heap, S.log, ?_, S.kernDir, S.dir, fun i hi => htabs _ (S.tab i hi)⟩
  simp only [State.mapPage, State.setPage, hpage, S.frames]

/-- The state with a new, empty table `r` in the kernel's directory. -/
def addTab (s : State Bump) (r : Region) (heap : Bump) (i : Fin 1024) : State Bump :=
  ({ s with heap := heap, log := r :: s.log }.setTab r.addr fun _ => Page.zero).setEntry s.kernDir i
    r.addr (r.phys ||| pdeP ||| pdeW ||| pdeU)

/-- A new table is empty. -/
lemma addTab_tabs {r : Region} {heap : Bump} {i : Fin 1024} {T : Nat} :
    (addTab s r heap i).tabs T = if T = r.addr then fun _ => Page.zero else s.tabs T :=
  Function.update_apply ..

/-- A new table is entered in the kernel's directory. -/
lemma addTab_dir {r : Region} {heap : Bump} {i : Fin 1024} :
    (addTab s r heap i).dirs s.kernDir =
      { s.dirs s.kernDir with
        tables := Function.update (s.dirs s.kernDir).tables i r.addr
        physTabs := Function.update (s.dirs s.kernDir).physTabs i
          (r.phys ||| pdeP ||| pdeW ||| pdeU) } :=
  Function.update_self ..

/-- The same table added to two states leaves them the same. -/
lemma Same.addTab (S : Same s s') (r : Region) (heap : Bump) (i : Fin 1024) :
    Same (addTab s r heap i) (addTab s' r heap i) := by
  have hdir' : (Leftover.addTab s' r heap i).dirs s.kernDir =
      (Leftover.addTab s r heap i).dirs s.kernDir := by
    have h := @addTab_dir s' r heap i
    rw [S.kernDir, S.dir] at h
    rw [h, addTab_dir]
  refine ⟨rfl, congrArg (r :: ·) S.log, S.frames, S.kernDir, hdir', fun j hj => ?_⟩
  have hj : ((Leftover.addTab s r heap i).dirs s.kernDir).tables j ≠ 0 := hj
  show (Leftover.addTab s' r heap i).tabs (((Leftover.addTab s r heap i).dirs s.kernDir).tables j) =
    (Leftover.addTab s r heap i).tabs (((Leftover.addTab s r heap i).dirs s.kernDir).tables j)
  rw [addTab_dir] at hj ⊢
  rw [addTab_tabs, addTab_tabs]
  split
  · rfl
  · rename_i hne
    simp only [Function.update_apply] at hj hne ⊢
    split at hne
    · exact absurd rfl hne
    · rename_i hji
      rw [if_neg hji] at hj ⊢
      exact S.tab j hj

/-- A table that is missing in both is made in both, and cleared. -/
lemma Same.getPage (S : Same s s') (va : Nat) :
    ∃ pg t t', s.getPage kmallocAp va 1 s.kernDir = (some pg, t) ∧
      s'.getPage kmallocAp va 1 s'.kernDir = (some pg, t') ∧ Same t t' ∧ t.kernDir = s.kernDir ∧
      t'.tabs pg.1 = t.tabs pg.1 := by
  have hdir : s'.dirs s'.kernDir = s.dirs s.kernDir := S.kernDir ▸ S.dir
  by_cases h : (s.dirs s.kernDir).tables (pdIdx va) ≠ 0
  · refine ⟨_, s, s', by rw [State.getPage, if_pos h], ?_, S, rfl, S.tab _ h⟩
    rw [State.getPage, hdir, if_pos h]
  · obtain ⟨addr, phys, heap, hk⟩ : ∃ addr phys heap,
        kmallocAp s.heap Obj.pgTab.size = (addr, phys, heap) := ⟨_, _, _, rfl⟩
    have hnew : ∀ u : State Bump, u.heap = s.heap → u.dirs u.kernDir = s.dirs s.kernDir →
        u.getPage kmallocAp va 1 u.kernDir =
          (some (addr, ptIdx va), Leftover.addTab u ⟨.pgTab, addr, phys⟩ heap (pdIdx va)) := by
      intro u hu hd
      simp only [State.getPage, hd, if_neg h, if_pos (by decide : (1 : Nat) ≠ 0), State.alloc, hu, hk]
      rfl
    refine ⟨_, _, _, hnew s rfl rfl, hnew s' S.heap hdir, S.addTab _ _ _, rfl, ?_⟩
    rw [addTab_tabs, addTab_tabs, if_pos rfl, if_pos rfl]

/-- A round of either loop of `vmm_init`. -/
lemma Same.mapAt (S : Same s s') (va a : Nat) :
    ∃ pg t t', s.mapAt kmallocAp va s.kernDir a = .ok (pg, t) ∧
      s'.mapAt kmallocAp va s'.kernDir a = .ok (pg, t') ∧ Same t t' := by
  obtain ⟨pg, t, t', h, h', S', -, htab⟩ := S.getPage va
  exact ⟨pg, _, _, by rw [State.mapAt, h], by rw [State.mapAt, h'], S'.mapPage htab 1 1 a⟩

/-- The loop over the kernel's pages does the same in both. -/
lemma Same.kernLoop {n vaddr : Nat} (S : Same s s') :
    Both Same (kernLoop n vaddr s) (kernLoop n vaddr s') := by
  induction n generalizing vaddr s s' with
  | zero => exact .error _
  | succ n ih =>
    rw [Boot.kernLoop, Boot.kernLoop, S.heap]
    split
    · obtain ⟨pg, t, t', h, h', S'⟩ := S.mapAt vaddr (v2p vaddr)
      rw [h, h']
      exact ih S'
    · exact .ok S

/-- Mapping a page of the heap does the same in both. -/
lemma Same.heapPage {i : Nat} (S : Same s s') : Both Same (heapPage s i) (heapPage s' i) := by
  obtain ⟨pg, t, t', h, h', S'⟩ := S.mapAt (kheapStart + i * pgSz) 0
  rw [Boot.heapPage, Boot.heapPage, h, h']
  exact .ok S'

/-- The kernel's directory is cleared. -/
lemma same_newPgDir (h : s'.heap = s.heap) (hl : s'.log = s.log) (hf : s'.frames = s.frames) :
    (s'.newPgDir kmallocAp).1 = (s.newPgDir kmallocAp).1 ∧
      Same { (s.newPgDir kmallocAp).2 with kernDir := (s.newPgDir kmallocAp).1 }
        { (s'.newPgDir kmallocAp).2 with kernDir := (s.newPgDir kmallocAp).1 } := by
  obtain ⟨addr, phys, heap, hk⟩ : ∃ addr phys heap,
      kmallocAp s.heap Obj.pgDir.size = (addr, phys, heap) := ⟨_, _, _, rfl⟩
  have hnew : ∀ u : State Bump, u.heap = s.heap → u.newPgDir kmallocAp =
      (addr, { u with heap := heap, log := ⟨.pgDir, addr, phys⟩ :: u.log }.setDir addr
        { PgDir.zero with phys := phys }) := by
    intro u hu
    simp only [State.newPgDir, State.alloc, hu, hk]
  rw [hnew s rfl, hnew s' h]
  have hzero : ∀ u : State Bump, ({ u with heap := heap, log := ⟨.pgDir, addr, phys⟩ :: u.log }.setDir
      addr { PgDir.zero with phys := phys }).dirs addr = { PgDir.zero with phys := phys } :=
    fun u => Function.update_self ..
  refine ⟨rfl, rfl, congrArg (List.cons (⟨.pgDir, addr, phys⟩ : Region)) hl, hf, rfl,
    (hzero s').trans (hzero s).symm, fun i hi => ?_⟩
  exact (hi (congrFun (congrArg PgDir.tables (hzero s)) i)).elim

/-- `vmm_init` does the same, whatever it finds in the memory of its directory and tables. -/
lemma vmmInit_same {ld : Loader} {ram ram' : Mem} {frames : BitSet} :
    Both Same (vmmInit (start ld ram frames)) (vmmInit (start ld ram' frames)) := by
  obtain ⟨hdir, S⟩ := @same_newPgDir (start ld ram frames) (start ld ram' frames) rfl rfl rfl
  obtain ⟨d, s, hs⟩ : ∃ d s, (start ld ram frames).newPgDir kmallocAp = (d, s) := ⟨_, _, rfl⟩
  obtain ⟨d', s', hs'⟩ : ∃ d s, (start ld ram' frames).newPgDir kmallocAp = (d, s) := ⟨_, _, rfl⟩
  rw [vmmInit, vmmInit, hs, hs']
  rw [hs, hs'] at hdir S
  obtain rfl : d' = d := hdir
  generalize chainFuel = fuel
  have S' : Same
      { s with kernDir := d', frames := (setFrame s.frames 0).2, heap := kheapPreInit s.heap }
      { s' with kernDir := d', frames := (setFrame s'.frames 0).2, heap := kheapPreInit s'.heap } :=
    ⟨congrArg kheapPreInit S.heap, S.log, congrArg (fun f => (setFrame f 0).2) S.frames, rfl, S.dir,
      S.tab⟩
  have hkern := @Same.kernLoop _ _ fuel (p2v 0) S'
  refine Both.bind hkern fun t t' _ _ S => ?_
  have hexec : Both Same (exec heapPage t (List.range heapPages))
      (exec heapPage t' (List.range heapPages)) :=
    exec_both_all (fun s s' _ S => Same.heapPage S) S
  refine hexec.bind fun u u' _ _ S => .ok ?_
  exact ⟨S.heap, S.log, S.frames, S.kernDir, S.dir, S.tab⟩

end

/-! ## What is left over -/

/-- The machine that the loader leaves behind, with the bits as `bs_init` leaves them. -/
def machine (ld : Loader) (ram : Mem) : Machine where
  kernEnd := ld.kernEnd
  frameCnt := ld.mb.frameCnt
  bits := leftBits ld ram
  dirs := dirAt (virt ram)
  tabs := tabAt (virt ram)
  ram := ram
  cr3 := ld.cr3

/-- The bytes of the memory map. -/
def InMap (mb : Multiboot) : Nat → Prop :=
  Bytes (p2v mb.mmapAddr) (p2v mb.mmapAddr + mb.mmapLength)

/-- Two memories with the same kernel image, and all that is below it, and the same memory map. -/
structure Agree (ld : Loader) (ram ram' : Mem) : Prop where
  image : ∀ x < v2p ld.kernEnd, ram' x = ram x
  map : ∀ x, InMap ld.mb x → virt ram' x = virt ram x

/-- The frame `f` is not marked by `pmm_init`, whose walk meets the entries `es`. -/
def Unmarked (ram : Mem) (es : List Nat) (f : Nat) : Prop :=
  ∀ a ∈ es, ¬ (readMemmap (virt ram) a).Steps f

/-- The walk over the memory map stays inside, meeting the entries `es`; the kernel and what boot
allocates behind it, up to the frame `lastFrame`, lie below the kernel heap and in the bitset; and there
are free frames for the pages of the kernel heap. -/
structure Fits (ld : Loader) (ram : Mem) (es : List Nat) : Prop where
  map : Entries (InMap ld.mb) (virt ram) (u32 (p2v ld.mb.mmapAddr + ld.mb.mmapLength))
    (p2v ld.mb.mmapAddr) es
  kern : kernOffset ≤ ld.kernEnd
  low : (machine ld ram).lastFrame < 65536
  covered : (machine ld ram).lastFrame < bsGetSize (machine ld ram).frames
  room : ∃ F : Finset Nat, heapPages + 1 ≤ F.card ∧ ∀ f ∈ F, f < 1048576 ∧
    (machine ld ram).lastFrame < f ∧ f < bsGetSize (machine ld ram).frames ∧
      get (machine ld ram).frames f = false ∧ Unmarked ram es f

/-- The bits that `pmm_init` does not write are equal in both memories, and the heads of the bins are
null. -/
structure Cleared (ld : Loader) (ram ram' : Mem) (es : List Nat) : Prop where
  bits : ∀ f < bsGetSize (machine ld ram).frames, Unmarked ram es f →
    get (machine ld ram').frames f = get (machine ld ram).frames f
  heads : ∀ i, leftHeads ld ram i = 0 ∧ leftHeads ld ram' i = 0

section
variable {ld : Loader} {ram ram' : Mem} {es : List Nat}

/-- The bits decide about a bitset. -/
lemma eq_of_get {bs bs' : BitSet} (hsz : bs'.sz = bs.sz)
    (h : ∀ f < bs.sz * 32, get bs' f = get bs f) : bs' = bs := by
  obtain ⟨n, bits⟩ := bs
  obtain ⟨n', bits'⟩ := bs'
  obtain rfl : n' = n := hsz
  congr 1
  refine Vector.ext fun i hi => BitVec.eq_of_getLsbD_eq fun j hj => ?_
  have hf := h (i * 32 + j) (by show _ < n' * 32; omega)
  have hdiv : (i * 32 + j) / 32 = i := by omega
  have hmod : (i * 32 + j) % 32 = j := by omega
  rw [get_eq (by show _ < n'; omega), get_eq (by show _ < n'; omega)] at hf
  simpa only [hdiv, hmod] using hf

/-- `pmm_init` returns the same bitset in both memories. -/
lemma pmmInit_same (hA : Agree ld ram ram') (hF : Fits ld ram es) (hC : Cleared ld ram ram' es) :
    ∃ bits : Vector (BitVec 32) (bsWords ld.mb.frameCnt),
      pmmInit (virt ram) ld.mb (leftBits ld ram) = .ok ⟨_, bits⟩ ∧
      pmmInit (virt ram') ld.mb (leftBits ld ram') = .ok ⟨_, bits⟩ := by
  have hlen := entries_length (u32_lt _) (min_le_left ..) hF.map.1
  have hs := bsWords_lt ld.mb.frameCnt
  obtain ⟨bs, hrun, hsz, hget⟩ := hF.map.mmapLoop hlen ⟨_, leftBits ld ram⟩
  obtain ⟨bs', hrun', hsz', hget'⟩ := (hF.map.congr hA.map).mmapLoop hlen ⟨_, leftBits ld ram'⟩
  have hsteps : ∀ a ∈ es, ∀ f,
      (readMemmap (virt ram') a).Steps f ↔ (readMemmap (virt ram) a).Steps f :=
    fun a ha => ((hF.map.2 a ha).congr hA.map).2.2
  have heq : bs' = bs := by
    refine eq_of_get (hsz'.trans hsz.symm) fun f hf => ?_
    have hf : f < bsGetSize (machine ld ram).frames := by
      rw [hsz] at hf
      exact hf.trans_eq (u32_eq hs).symm
    rw [Bool.eq_iff_iff, hget, hget']
    by_cases hu : Unmarked ram es f
    · have hbit := hC.bits f hf hu
      have hnone : ∀ a ∈ es, ¬ (readMemmap (virt ram') a).Steps f := fun a ha =>
        mt (hsteps a ha f).mp (hu a ha)
      refine or_congr (Bool.eq_iff_iff.mp hbit) (iff_of_false ?_ ?_)
      · rintro ⟨-, a, ha, h⟩
        exact hnone a ha h
      · rintro ⟨-, a, ha, h⟩
        exact hu a ha h
    · unfold Unmarked at hu
      push Not at hu
      obtain ⟨a, ha, h⟩ := hu
      exact iff_of_true (.inr ⟨hf, a, ha, (hsteps a ha f).mpr h⟩) (.inr ⟨hf, a, ha, h⟩)
  subst heq
  obtain ⟨n, bits⟩ := bs'
  obtain rfl : n = bsWords ld.mb.frameCnt := hsz
  exact ⟨bits, hrun, hrun'⟩

/-- `pmm_init` and `vmm_init` return, with the same frames and the same blocks in the heap. -/
lemma boot_same (hA : Agree ld ram ram') (hF : Fits ld ram es) (hC : Cleared ld ram ram' es) :
    ∃ frames s s', boot ld ram = .ok ⟨frames, s, []⟩ ∧ boot ld ram' = .ok ⟨frames, s', []⟩ ∧
      Kheap.Twin s s' := by
  obtain ⟨bits, hpmm, hpmm'⟩ := pmmInit_same hA hF hC
  have hstart : ({ machine ld ram with bits := bits } : Machine).boot =
      vmmInit (start ld ram ⟨_, bits⟩) := rfl
  obtain ⟨-, t, hboot, -⟩ := boot_spec (m := { machine ld ram with bits := bits }) hF.kern hF.low
    hF.covered
  rw [hstart] at hboot
  have hboth : Both Same (vmmInit (start ld ram ⟨_, bits⟩)) (vmmInit (start ld ram' ⟨_, bits⟩)) :=
    vmmInit_same
  obtain ⟨t', hboot', S⟩ := hboth.of_ok hboot
  generalize t.switchPageDirectory t.kernDir = u at hboot S
  have hheads : leftHeads ld ram = fun _ => 0 := funext fun i => (hC.heads i).1
  have hheads' : leftHeads ld ram' = fun _ => 0 := funext fun i => (hC.heads i).2
  obtain ⟨s, s', hk, hk', T, -⟩ := Kheap.boot_twin (heapMem u) (heapMem t')
  obtain ⟨h, hinit, hs⟩ := bind_ok.mp hk
  obtain ⟨h', hinit', hs'⟩ := bind_ok.mp hk'
  cases hs
  cases hs'
  refine ⟨u.frames, _, _, ?_, ?_, T⟩
  · rw [boot, hpmm, ok_bind, hboot, ok_bind, hheads, hinit]
    rfl
  · rw [boot, hpmm', ok_bind, hboot', ok_bind, hheads', hinit', ← S.frames]
    rfl

/-! ## The calls -/

/-- Allocations that some free block is large enough for, and releases of live pointers. -/
def Legal (s : Sys) : Call → Prop
  | .kheapAlloc sz => Kheap.Legal s.heap (.alloc sz)
  | .kheapFree p => Kheap.Legal s.heap (.free p)
  | _ => True

/-- No release looks behind the heap. -/
def Enclosed (s : Sys) : Call → Prop
  | .kheapFree p => Kheap.Enclosed s.heap.heap p
  | _ => True

/-- After boot the byte behind the heap is null. -/
def QuietEnd (ld : Loader) (ram : Mem) : Prop :=
  ∀ s, boot ld ram = .ok s → s.heap.heap.mem Kheap.kheapEnd = 0

/-- Two systems that have returned the same so far, and do so from now on. `quiet` says that the byte
behind the heap is null in both. -/
structure Twin (quiet : Prop) (s s' : Sys) : Prop where
  frames : s'.frames = s.frames
  out : s'.out = s.out
  heap : Kheap.Twin s.heap s'.heap
  end_ : quiet → s.heap.heap.mem Kheap.kheapEnd = 0 ∧ s'.heap.heap.mem Kheap.kheapEnd = 0

/-- Calls that are legal in one of two machines return in both, with related results. -/
lemma Twin.step {quiet : Prop} {s s' : Sys} {c : Call} (T : Twin quiet s s') (hl : Legal s c)
    (hq : quiet ∨ Enclosed s c) :
    ∃ t t', step s c = .ok t ∧ step s' c = .ok t' ∧ Twin quiet t t' := by
  obtain ⟨hframes, hout, hheap, hend⟩ := T
  cases c with
  | getFrame =>
    refine ⟨_, _, rfl, rfl, ?_, ?_, hheap, hend⟩
    · rw [hframes]
    · rw [hframes, hout]
  | setFrame addr =>
    refine ⟨_, _, rfl, rfl, ?_, ?_, hheap, hend⟩
    · rw [hframes]
    · rw [hframes, hout]
  | kheapAlloc sz =>
    obtain ⟨p, h, h', hrun, hrun', T, he, he'⟩ := hheap.alloc hl
    refine ⟨⟨s.frames, ⟨h, p :: s.heap.live⟩, s.out ++ [p]⟩,
      ⟨s'.frames, ⟨h', p :: s'.heap.live⟩, s'.out ++ [p]⟩, ?_, ?_, hframes, by rw [hout], T,
      fun hq => ⟨he.trans (hend hq).1, he'.trans (hend hq).2⟩⟩
    · rw [Leftover.step, hrun]
      rfl
    · rw [Leftover.step, hrun']
      rfl
  | kheapFree p =>
    obtain ⟨h, h', hrun, hrun', T, he, he'⟩ := hheap.free hl (hq.symm.imp id hend)
    refine ⟨⟨s.frames, ⟨h, s.heap.live.erase p⟩, s.out⟩,
      ⟨s'.frames, ⟨h', s'.heap.live.erase p⟩, s'.out⟩, ?_, ?_, hframes, hout, T,
      fun hq => ⟨he.trans (hend hq).1, he'.trans (hend hq).2⟩⟩
    · rw [Leftover.step, hrun]
      rfl
    · rw [Leftover.step, hrun']
      rfl

/-- Two machines whose memories agree on the kernel image and the memory map, in the bits that
`pmm_init` does not write and in the null heads of the bins, return the same, whatever else their
memories hold, for every legal sequence of calls of which no release looks behind the heap, or finds
nothing there. -/
theorem results_eq {calls : List Call} (hA : Agree ld ram ram') (hF : Fits ld ram es)
    (hC : Cleared ld ram ram' es)
    (hl : ∀ s, boot ld ram = .ok s → LegalRun step Legal s calls)
    (hq : QuietEnd ld ram ∧ QuietEnd ld ram' ∨
      ∀ s, boot ld ram = .ok s → LegalRun step Enclosed s calls) :
    ∃ out, results ld ram calls = .ok out ∧ results ld ram' calls = .ok out := by
  obtain ⟨frames, s, s', hboot, hboot', hheap⟩ := boot_same hA hF hC
  obtain ⟨quiet, hquiet⟩ : ∃ quiet, quiet = (QuietEnd ld ram ∧ QuietEnd ld ram') := ⟨_, rfl⟩
  have T : Twin quiet ⟨frames, s, []⟩ ⟨frames, s', []⟩ := by
    refine ⟨rfl, rfl, hheap, fun h => ?_⟩
    rw [hquiet] at h
    exact ⟨h.1 _ hboot, h.2 _ hboot'⟩
  have hlegal : LegalRun step (fun s c => Legal s c ∧ (quiet ∨ Enclosed s c)) ⟨frames, s, []⟩ calls := by
    refine (hl _ hboot).and ?_
    rcases hq with h | h
    · exact .of_forall fun _ _ => .inl (hquiet ▸ h)
    · exact (h _ hboot).imp fun s c hc => .inr hc
  obtain ⟨t, hrun, -⟩ := exec_inv (I := fun s => ∃ s', Twin quiet s s')
    (J := fun s => ∃ s', Twin quiet s s')
    (fun s c ⟨s', T⟩ ⟨hl, hq⟩ =>
      have ⟨t, t', ht, _, T'⟩ := T.step hl hq
      ⟨t, ht, t', T'⟩)
    (fun _ h => h) ⟨_, T⟩ hlegal
  have hboth : Both (Twin quiet) (exec step ⟨frames, s, []⟩ calls)
      (exec step ⟨frames, s', []⟩ calls) := by
    refine exec_both (fun s s' c T ⟨hl, hq⟩ => ?_) T hlegal
    obtain ⟨t, t', ht, ht', T'⟩ := T.step hl hq
    rw [ht, ht']
    exact .ok T'
  obtain ⟨t', hrun', T'⟩ := hboth.of_ok hrun
  refine ⟨t.out, ?_, ?_⟩
  · rw [results, hboot, ok_bind, hrun]
    rfl
  · rw [results, hboot', ok_bind, hrun', ← T'.out]
    rfl

end

/-! ## The first frame after boot -/

/-- Where enough frames are free, and none of those that the first loop of `vmm_init` maps by address,
the first call of `get_frame` after boot returns one of them. -/
lemma boot_getFrame {m : Machine} (hend : kernOffset ≤ m.kernEnd) (hk : m.lastFrame < 65536)
    (hin : m.lastFrame < bsGetSize m.frames)
    (hres : ∀ f, 1 ≤ f → f ≤ m.lastFrame → get m.frames f = true)
    (hfree : heapPages + 2 ≤ m.freeAbove) :
    ∃ s idx, m.boot = .ok s ∧ (getFrame s.frames).1 = idx * 4096 ∧ idx < bsGetSize m.frames ∧
      get m.frames idx = false := by
  obtain ⟨s₀, t, hboot, K, -, hsz, T⟩ := boot_taken hend hk hin
  have hs₀ : s₀.frames.sz * 32 < 4294967296 := hsz ▸ bsWords_lt m.frameCnt
  obtain ⟨-, hcnt⟩ := kern_backed K hk (by omega) hres
  have hframes : (t.switchPageDirectory t.kernDir).frames = t.frames := rfl
  -- a frame that is still free
  obtain ⟨k, hk, hks, hkf⟩ : ∃ k < 1048576, k < bsGetSize t.frames ∧ get t.frames k = false := by
    refine freeCnt_pos ?_
    have := T.free
    omega
  obtain ⟨hlt, hclr, hbelow, hget⟩ := getFrame_clear (T.sz ▸ hs₀) ⟨k, hks, hkf⟩
  have hidx : bsFirstClr t.frames < 1048576 := by
    by_contra h
    rw [hbelow k (by omega)] at hkf
    cases hkf
  refine ⟨_, bsFirstClr t.frames, hboot, ?_, ?_, ?_⟩
  · rw [hframes, hget]
    exact u32_eq (by omega)
  · rw [bsGetSize, T.sz, hsz] at hlt
    exact hlt
  · by_contra h
    have hkept : get s₀.frames (bsFirstClr t.frames) = true :=
      (K.bits _).mpr (.inl (page0_kept (Bool.not_eq_false _ ▸ h)))
    rw [T.kept _ hkept] at hclr
    cases hclr

/-! ## A small machine -/

/-- A kernel that ends at `0xC0110000`, on 16 MiB with an empty memory map. -/
def small : Loader := ⟨0xC0110000, ⟨0, 16384, 0, 0⟩, 0⟩

/-- Ones in the words of the bitset, but for those of the `n`-th 1024 frames. -/
def onesBut (n : Nat) : Mem := fun x =>
  if 0x110008 ≤ x ∧ x < 0x11020C ∧ (x - 0x110008) / 128 ≠ n then 0xFF else 0

section
variable {ram : Mem} {n : Nat}

/-- The bitset of the small machine has 129 words. -/
lemma small_words : bsWords small.mb.frameCnt = 129 := by decide

/-- These are 4128 frames. -/
lemma small_size : bsGetSize (machine small ram).frames = 4128 := by
  show u32 (bsWords small.mb.frameCnt * 32) = 4128
  decide

/-- Boot uses the frames up to 278. -/
lemma small_lastFrame : (machine small ram).lastFrame = 278 := by
  have hstop : (machine small ram).firstStop = 278 := by
    show (0xC0110000 + bsSz + 4 * bsWords small.mb.frameCnt - kernOffset) / 4096 + 6 = 278
    decide
  rw [Machine.lastFrame, hstop]

/-- The words of the bitset lie behind the kernel. -/
lemma small_bits_at : (kmalloc ⟨small.kernEnd, []⟩ bsSz).allocPtr = 0xC0110008 := by decide

/-- A bit is one of the memory that the machine starts with. -/
lemma small_get {f : Nat} (hf : f < 4128) :
    get (machine small ram).frames f =
      (BitVec.ofNat 32 (readWord (virt ram) (0xC0110008 + 4 * (f / 32)))).getLsbD (f % 32) := by
  have hlt : f / 32 < bsWords small.mb.frameCnt := by
    rw [small_words]
    omega
  rw [Frames.get]
  show (((leftBits small ram)[f / 32]?).getD 0#32).getLsbD (f % 32) = _
  rw [leftBits, Vector.getElem?_ofFn, dif_pos hlt, Option.getD_some, small_bits_at]

/-- Where `kheap_pre_init` puts the bins. -/
lemma small_head_at (i : Fin Kheap.binCnt) :
    ((List.range i).foldl (fun b _ => kmalloc b binSz) (kmalloc (bumpBins small) heapSz)).allocPtr =
      0xC0113038 + 4 * i := by
  revert i
  decide

/-- Their heads are what the memory holds there. -/
lemma small_heads (i : Fin Kheap.binCnt) :
    leftHeads small ram i = readWord (virt ram) (0xC0113038 + 4 * i) := by
  rw [leftHeads, small_head_at]

/-- The kernel's view of the lower 1 GiB. -/
lemma virt_at {p : Nat} (hp : p < 0x40000000) : virt ram (u32 (0xC0000000 + p)) = ram p := by
  have hv : v2p (u32 (0xC0000000 + p)) = p := by
    rw [u32_eq (by omega), v2p]
    unfold sub32 kernOffset
    omega
  rw [virt, hv]

/-- Four equal bytes make a word. -/
lemma virt_word {p b : Nat} (hp : p + 4 ≤ 0x40000000) (h : ∀ k < 4, (ram (p + k)).toNat = b) :
    readWord (virt ram) (0xC0000000 + p) = 0x01010101 * b := by
  have hbyte : ∀ k < 4, (virt ram (u32 (0xC0000000 + p + k))).toNat = b := by
    intro k hk
    rw [Nat.add_assoc, virt_at (by omega), h k hk]
  have h0 := hbyte 0 (by decide)
  rw [Nat.add_zero] at h0
  rw [readWord, h0, hbyte 1 (by decide), hbyte 2 (by decide), hbyte 3 (by decide)]
  omega

/-- All frames but 1024 are in use in this bitset. -/
lemma onesBut_get {f : Nat} (hf : f < 4128) :
    get (machine small (onesBut n)).frames f = decide (f / 1024 ≠ n) := by
  have hw : readWord (virt (onesBut n)) (0xC0110008 + 4 * (f / 32)) =
      0x01010101 * if f / 1024 ≠ n then 0xFF else 0 := by
    have hat : 0xC0110008 + 4 * (f / 32) = 0xC0000000 + (0x110008 + 4 * (f / 32)) := by omega
    rw [hat]
    refine virt_word (by omega) fun k hk => ?_
    have hblock : (0x110008 + 4 * (f / 32) + k - 0x110008) / 128 = f / 1024 := by omega
    have hin : 0x110008 ≤ 0x110008 + 4 * (f / 32) + k ∧ 0x110008 + 4 * (f / 32) + k < 0x11020C := by
      omega
    rw [onesBut, hblock]
    by_cases hn : f / 1024 ≠ n
    · rw [if_pos ⟨hin.1, hin.2, hn⟩, if_pos hn]
      rfl
    · rw [if_neg fun h => hn h.2.2, if_neg hn]
      rfl
  rw [small_get hf, hw]
  by_cases hn : f / 1024 ≠ n
  · rw [if_pos hn, decide_eq_true hn]
    have : BitVec.ofNat 32 (0x01010101 * 0xFF) = BitVec.allOnes 32 := by decide
    rw [this, BitVec.getLsbD_allOnes]
    exact decide_eq_true (by omega)
  · rw [if_neg hn, decide_eq_false hn]
    exact BitVec.getLsbD_zero

/-- The heads of the bins are `NULL` in this memory. -/
lemma onesBut_heads (i : Fin Kheap.binCnt) : leftHeads small (onesBut n) i = 0 := by
  have hi : (i : Nat) < 9 := i.isLt
  rw [small_heads]
  have hat : 0xC0113038 + 4 * (i : Nat) = 0xC0000000 + (0x113038 + 4 * i) := by omega
  rw [hat]
  refine (virt_word (b := 0) (by omega) fun k hk => ?_).trans (Nat.mul_zero _)
  rw [onesBut, if_neg (by omega)]
  rfl

/-- There is nothing that `pmm_init` marks. -/
lemma small_pmmInit : pmmInit (virt ram) small.mb (leftBits small ram) = .ok ⟨_, leftBits small ram⟩ :=
  @mmapLoop_nil _ _ _ 4294967295 _ rfl

/-- The first frame after boot is one of the 1024 whose bits are clear. -/
lemma onesBut_getFrame (h1 : 1 ≤ n) (h2 : n ≤ 2) :
    ∃ idx, results small (onesBut n) [.getFrame] = .ok [idx * 4096] ∧ idx / 1024 = n := by
  have hres : ∀ f, 1 ≤ f → f ≤ (machine small (onesBut n)).lastFrame →
      get (machine small (onesBut n)).frames f = true := by
    intro f _ hf
    rw [small_lastFrame] at hf
    rw [onesBut_get (by omega)]
    exact decide_eq_true (by omega)
  have hfree : heapPages + 2 ≤ (machine small (onesBut n)).freeAbove := by
    have hsub : Finset.Ico (1024 * n) (1024 * n + 1024) ⊆ (Finset.range 1048576).filter fun k =>
        (machine small (onesBut n)).lastFrame < k ∧
          k < bsGetSize (machine small (onesBut n)).frames ∧
          get (machine small (onesBut n)).frames k = false := by
      intro k hk
      rw [Finset.mem_Ico] at hk
      rw [Finset.mem_filter, Finset.mem_range, small_lastFrame, small_size, onesBut_get (by omega)]
      exact ⟨by omega, by omega, by omega, decide_eq_false (by omega)⟩
    have := Finset.card_le_card hsub
    rw [Nat.card_Ico, Nat.add_sub_cancel_left] at this
    exact le_trans (by decide) this
  have hl : (machine small (onesBut n)).lastFrame = 278 := small_lastFrame
  have hend : kernOffset ≤ (machine small (onesBut n)).kernEnd := by
    show kernOffset ≤ 0xC0110000
    decide
  obtain ⟨s, idx, hboot, hget, hlt, hclr⟩ := boot_getFrame hend (by omega)
    (by rw [hl, small_size]; decide) hres hfree
  have hpmm : pmmInit (virt (onesBut n)) small.mb (leftBits small (onesBut n)) =
      .ok ⟨_, leftBits small (onesBut n)⟩ := small_pmmInit
  have hstart : (machine small (onesBut n)).boot =
    vmmInit (start small (onesBut n) ⟨_, leftBits small (onesBut n)⟩) := rfl
  rw [hstart] at hboot
  have hheads : leftHeads small (onesBut n) = fun _ => 0 := funext onesBut_heads
  obtain ⟨sh, -, hk, -⟩ := Kheap.boot_twin (heapMem s) (heapMem s)
  obtain ⟨h, hinit, -⟩ := bind_ok.mp hk
  refine ⟨idx, ?_, ?_⟩
  · rw [results, boot, hpmm, ok_bind, hboot, ok_bind, hheads, hinit, ← hget]
    rfl
  · rw [small_size] at hlt
    rw [onesBut_get hlt] at hclr
    by_contra h
    rw [decide_eq_true h] at hclr
    cases hclr

/-- Two memories that agree on the kernel and the memory map, but not in the words of the bitset: the
first frame after boot is not the same. -/
theorem getFrame_leftover :
    Agree small (onesBut 1) (onesBut 2) ∧
      ∃ a b, results small (onesBut 1) [.getFrame] = .ok [a] ∧
        results small (onesBut 2) [.getFrame] = .ok [b] ∧ a ≠ b := by
  have himage : ∀ n x, x < v2p small.kernEnd → onesBut n x = 0 := by
    intro n x hx
    have hx : x < 0x110000 := hx
    rw [onesBut, if_neg (by omega)]
  refine ⟨⟨fun x hx => (himage 2 x hx).trans (himage 1 x hx).symm, ?_⟩, ?_⟩
  · rintro x ⟨hlo, hhi⟩
    exact absurd hhi (Nat.not_lt.mpr hlo)
  · obtain ⟨i, hi, hi1⟩ := onesBut_getFrame (n := 1) (by decide) (by decide)
    obtain ⟨j, hj, hj2⟩ := onesBut_getFrame (n := 2) (by decide) (by decide)
    exact ⟨_, _, hi, hj, by omega⟩

/-- The heap after boot is an initialised one. -/
lemma boot_heap {ld : Loader} {s : Sys} (hheads : ∀ i, leftHeads ld ram i = 0)
    (h : boot ld ram = .ok s) : ∃ m, Kheap.boot m = .ok s.heap := by
  obtain ⟨frames, -, h⟩ := bind_ok.mp h
  obtain ⟨t, -, h⟩ := bind_ok.mp h
  obtain ⟨heap, hinit, h⟩ := bind_ok.mp h
  cases h
  have hnull : leftHeads ld ram = fun _ => 0 := funext hheads
  rw [hnull] at hinit
  refine ⟨heapMem t, ?_⟩
  rw [Kheap.boot, hinit]
  rfl

/-- Ones from 4 MiB on. -/
def onesAbove : Mem := fun x => if x < 0x400000 then onesBut 0 x else 0xFF

/-- The two memories agree on the first 4 MiB. -/
lemma onesAbove_word {p : Nat} (hp : p + 4 ≤ 0x400000) :
    readWord (virt onesAbove) (0xC0000000 + p) = readWord (virt (onesBut 0)) (0xC0000000 + p) := by
  refine readWord_congr fun x hx => ?_
  obtain ⟨k, hk, rfl⟩ := List.mem_map.mp hx
  have hk := List.mem_range.mp hk
  rw [Nat.add_assoc, virt_at (by omega), virt_at (by omega), onesAbove, if_pos (by omega)]

/-- With the same bytes there the two machines have the same bitset. -/
lemma onesAbove_get {f : Nat} (hf : f < 4128) :
    get (machine small onesAbove).frames f = get (machine small (onesBut 0)).frames f := by
  have hat : 0xC0110008 + 4 * (f / 32) = 0xC0000000 + (0x110008 + 4 * (f / 32)) := by omega
  rw [small_get hf, small_get hf, hat, onesAbove_word (by omega)]

/-- The heads of the bins are `NULL` in the other memory, too. -/
lemma onesAbove_heads (i : Fin Kheap.binCnt) : leftHeads small onesAbove i = 0 := by
  have hi : (i : Nat) < 9 := i.isLt
  have hat : 0xC0113038 + 4 * (i : Nat) = 0xC0000000 + (0x113038 + 4 * i) := by omega
  rw [← @onesBut_heads 0 i, small_heads, small_heads, hat, onesAbove_word (by omega)]

/-- The two memories agree on what counts. -/
lemma agree_small : Agree small (onesBut 0) onesAbove := by
  constructor
  · intro x hx
    have hx : x < 0x110000 := hx
    rw [onesAbove, if_pos (by omega)]
  · rintro x ⟨hlo, hhi⟩
    exact absurd hhi (Nat.not_lt.mpr hlo)

/-- The memory map of the small machine has no entries. -/
lemma small_map : Entries (InMap small.mb) (virt ram)
    (u32 (p2v small.mb.mmapAddr + small.mb.mmapLength)) (p2v small.mb.mmapAddr) [] := by
  refine ⟨?_, fun a ha => absurd ha List.not_mem_nil⟩
  show min (u32 (p2v 0 + 0)) (p2v 0) = u32 (p2v 0 + 0)
  decide

/-- Boot has the frames it needs. -/
lemma fits_small : Fits small (onesBut 0) [] where
  map := small_map
  kern := by decide
  low := by
    rw [small_lastFrame]
    decide
  covered := by
    rw [small_lastFrame, small_size]
    decide
  room := by
    refine ⟨Finset.Ioo 278 600, by rw [Nat.card_Ioo]; decide, fun f hf => ?_⟩
    rw [Finset.mem_Ioo] at hf
    rw [small_lastFrame, small_size, onesBut_get (by omega)]
    exact ⟨by omega, hf.1, by omega, decide_eq_false (by omega),
      fun a ha => absurd ha List.not_mem_nil⟩

/-- Three calls that return the same on both machines. -/
theorem results_eq_small :
    ∃ out, results small (onesBut 0) [.getFrame, .setFrame 0x1000, .kheapAlloc 100] = .ok out ∧
      results small onesAbove [.getFrame, .setFrame 0x1000, .kheapAlloc 100] = .ok out := by
  refine @results_eq small (onesBut 0) onesAbove [] _ agree_small fits_small
    ⟨fun f hf _ => onesAbove_get (small_size ▸ hf), fun i => ⟨onesBut_heads i, onesAbove_heads i⟩⟩
    (fun s hs => ?_) (.inr fun s _ => ?_)
  · obtain ⟨m, hm⟩ := boot_heap onesBut_heads hs
    obtain ⟨s₀, -, -, hboot, hl, -⟩ := Kheap.boot_alloc m 100 (by decide)
    obtain rfl : s₀ = s.heap := by
      rw [hboot] at hm
      exact Except.ok.inj hm
    refine ⟨trivial, fun s' hs' => ⟨trivial, fun s'' hs'' => ⟨?_, fun _ _ => trivial⟩⟩⟩
    cases hs'
    cases hs''
    exact hl
  · exact ⟨trivial, fun _ _ => ⟨trivial, fun _ _ => ⟨trivial, fun _ _ => trivial⟩⟩⟩

end

end ToeS.Leftover
