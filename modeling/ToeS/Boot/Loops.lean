import ToeS.Boot.Space

/-!
# The loops of `vmm_init`

What the address space looks like between the rounds of the two loops. The bound of the first loop
moves: its first round allocates a table, and every further 1024 pages allocate another one, each of
which takes two pages of the placement allocator, since `PG_ROUND_UP` always advances. `lastFrame` is
where the loop catches up.
-/

namespace ToeS.Boot
open Lib Frames Vmm

/-! ## Before the loops -/

/-- Where the first loop would stop with one table, in pages from the kernel offset: `kern_dir`,
`heap_t`, the bins, the table and the slack take six pages from the one in which `vmm_init` finds
`alloc_ptr`. -/
def Machine.firstStop (m : Machine) : Nat :=
  (m.kernEnd + bsSz + 4 * bsWords m.frameCnt - kernOffset) / 4096 + 6

/-- The frame that the last round of the first loop maps. -/
def Machine.lastFrame (m : Machine) : Nat := m.firstStop + 2 * ((m.firstStop - 2) / 1022)

/-- `kmalloc` hands out what is apart from the rest. -/
lemma Bump.Ok.kmalloc {b : Bump} (h : b.Ok) (sz : Nat) (hk : kernOffset ≤ b.allocPtr)
    (hb : b.allocPtr + sz < 4294967296) :
    (Boot.kmalloc b sz).Ok ∧ (Boot.kmalloc b sz).allocPtr = b.allocPtr + sz := by
  rw [kmalloc_eq hb]
  exact ⟨h.cons hk (le_refl _), rfl⟩

/-- The allocations of the bins are apart from the rest. -/
lemma kmallocs_spec {b : Bump} {n : Nat} (h : b.Ok) (hk : kernOffset ≤ b.allocPtr)
    (hb : b.allocPtr + 4 * n < 4294967296) :
    ((List.range n).foldl (fun b _ => kmalloc b binSz) b).Ok ∧
      ((List.range n).foldl (fun b _ => kmalloc b binSz) b).allocPtr = b.allocPtr + 4 * n := by
  induction n with
  | zero => exact ⟨h, rfl⟩
  | succ n ih =>
    obtain ⟨hok, hptr⟩ := ih (by omega)
    rw [List.range_succ, List.foldl_append, List.foldl_cons, List.foldl_nil]
    obtain ⟨hok', hptr'⟩ := hok.kmalloc 4 (by omega) (by omega)
    exact ⟨hok', hptr'.trans (by omega)⟩

/-- Those of `kheap_pre_init` are, too, and take 88 bytes. -/
lemma kheapPreInit_spec {b : Bump} (h : b.Ok) (hk : kernOffset ≤ b.allocPtr)
    (hb : b.allocPtr + 88 < 4294967296) :
    (kheapPreInit b).Ok ∧ (kheapPreInit b).allocPtr = b.allocPtr + 88 := by
  obtain ⟨hok, hptr⟩ := h.kmalloc heapSz hk (by unfold heapSz; omega)
  have hptr : (kmalloc b heapSz).allocPtr = b.allocPtr + 52 := hptr
  obtain ⟨hok', hptr'⟩ := kmallocs_spec (n := binCnt) hok (by omega) (by unfold binCnt; omega)
  exact ⟨hok', by rw [kheapPreInit, hptr', hptr, binCnt]⟩

section
variable {m : Machine}

/-- What `vmm_init` finds. -/
lemma Machine.start_heap (hend : kernOffset ≤ m.kernEnd) (hk : m.lastFrame < 65536) :
    m.start.heap.Ok ∧ m.start.heap.allocPtr = m.kernEnd + bsSz + 4 * bsWords m.frameCnt := by
  have hstop : m.firstStop < 65536 := by
    unfold Machine.lastFrame at hk
    omega
  have hb : m.kernEnd + bsSz + 4 * bsWords m.frameCnt < 4294967296 := by
    unfold Machine.firstStop kernOffset at hstop
    omega
  have h0 : Bump.Ok ⟨m.kernEnd, []⟩ := fun r hr => nomatch hr
  obtain ⟨hok, hptr⟩ := h0.kmalloc bsSz hend (by show m.kernEnd + _ < _; omega)
  have hptr : (kmalloc ⟨m.kernEnd, []⟩ bsSz).allocPtr = m.kernEnd + bsSz := hptr
  obtain ⟨hok', hptr'⟩ := hok.kmalloc (4 * bsWords m.frameCnt) (by omega) (by omega)
  exact ⟨hok', by rw [← hptr, ← hptr']; rfl⟩

/-- The state in which `vmm_init` enters the first loop: `kern_dir` is there and empty. -/
structure Entered (m : Machine) (s : State Bump) : Prop where
  wf : Wf s
  ptr : s.heap.allocPtr = kernOffset + 4096 * (m.firstStop - 5) + 8284
  tabs : ∀ i, ¬ HasTab s i
  frames : s.frames = (setFrame m.frames 0).2

/-- `vmm_init` up to its loops. -/
def entry (m : Machine) : State Bump :=
  let (kernDir, s) := m.start.newPgDir kmallocAp
  let s := { s with kernDir := kernDir }
  let s := { s with frames := (setFrame s.frames 0).2 }
  { s with heap := kheapPreInit s.heap }

/-- `vmm_init` is two loops and a switch. -/
lemma Machine.boot_eq (m : Machine) : m.boot = (do
    let s ← kernLoop chainFuel (p2v 0) (entry m)
    let s ← exec heapPage s (List.range heapPages)
    return s.switchPageDirectory s.kernDir) := rfl

/-- What the loops begin with. -/
lemma entry_spec (hend : kernOffset ≤ m.kernEnd) (hk : m.lastFrame < 65536) :
    Entered m (entry m) := by
  have hstop : m.firstStop < 65536 := by
    unfold Machine.lastFrame at hk
    omega
  obtain ⟨hok, hptr⟩ := m.start_heap hend hk
  have hx : m.start.heap.allocPtr / 4096 = m.firstStop - 6 + 786432 := by
    rw [hptr]
    unfold Machine.firstStop kernOffset at *
    omega
  have hge : kernOffset ≤ m.start.heap.allocPtr := by
    rw [hptr]
    omega
  have hfs : 6 ≤ m.firstStop := Nat.le_add_left ..
  obtain ⟨d, hd⟩ : ∃ d, d = kernOffset + 4096 * (m.firstStop - 5) := ⟨_, rfl⟩
  have hround : m.start.heap.allocPtr / 4096 * 4096 + 4096 = d := by
    rw [hx, hd, kernOffset]
    omega
  have hmalloc : kmallocAp m.start.heap 8196 =
      (d, v2p d, ⟨d + 8196, (d, 8196) :: m.start.heap.handed⟩) := by
    rw [kmallocAp_eq (by unfold kernOffset at *; omega), hround]
  have hentry : ∃ s, entry m = s ∧ s.heap = kheapPreInit ⟨d + 8196, (d, 8196) :: m.start.heap.handed⟩ ∧
      s.log = [⟨.pgDir, d, v2p d⟩] ∧ s.kernDir = d ∧ s.frames = (setFrame m.frames 0).2 ∧
      s.dirs d = { PgDir.zero with phys := v2p d } := by
    have halloc : m.start.alloc kmallocAp .pgDir = (⟨.pgDir, d, v2p d⟩,
        { m.start with heap := ⟨d + 8196, (d, 8196) :: m.start.heap.handed⟩,
                       log := [⟨.pgDir, d, v2p d⟩] }) := by
      simp only [State.alloc, Obj.size, hmalloc]
      rfl
    refine ⟨_, rfl, ?_⟩
    rw [entry, State.newPgDir, halloc]
    exact ⟨rfl, rfl, rfl, rfl, Function.update_self ..⟩
  obtain ⟨s, hs, hheap, hlog, hkern, hframes, hdir⟩ := hentry
  have hdlo : kernOffset ≤ d := by omega
  obtain ⟨hok', hptr'⟩ := kheapPreInit_spec (b := ⟨d + 8196, (d, 8196) :: m.start.heap.handed⟩)
    (hok.cons hge (by omega)) (by show _ ≤ d + 8196; omega)
    (by show d + 8196 + 88 < _; unfold kernOffset at *; omega)
  have hptr' : s.heap.allocPtr = d + 8284 := by rw [hheap, hptr']
  have hmem : ∀ {r}, r ∈ s.log → r = ⟨.pgDir, d, v2p d⟩ := fun hr => by
    rwa [hlog, List.mem_singleton] at hr
  have hzero : ∀ i, (s.dirs s.kernDir).tables i = 0 := fun i => by rw [hkern, hdir]; rfl
  have hself : (⟨.pgDir, d, v2p d⟩ : Region) ∈ s.log := hlog ▸ List.mem_singleton_self _
  rw [hs]
  refine ⟨⟨⟨_, hself, rfl, hkern.symm⟩, ⟨?_, ?_⟩, ?_, ?_, fun i j hi => (hi (hzero i)).elim, ?_⟩, ?_,
    fun i hi => hi (hzero i), hframes⟩
  · intro r hr _
    rw [hmem hr]
    show (s.dirs d).phys = _
    rw [hdir]
  · rintro a ⟨r, hr, -, rfl⟩ i
    rw [hmem hr]
    show Agrees _ ((s.dirs d).tables i) ((s.dirs d).physTabs i)
    rw [hdir]
    exact .inl ⟨rfl, rfl⟩
  · intro r hr
    rw [hmem hr, hptr']
    exact ⟨hdlo, by show d % 4096 = 0; rw [← hround]; omega,
      v2p_eq hdlo (by unfold kernOffset at *; omega), by show d + 8196 ≤ _; omega⟩
  · rw [hlog]
    exact List.pairwise_singleton _ _
  · rw [hheap]
    exact hok'
  · rw [hptr', hd]

end

/-! ## The first loop -/

/-- The number of the page at the kernel offset. -/
def kernPage : Nat := 786432

/-- The number of the first page of the kernel heap. -/
def heapBase : Nat := 851968

/-- After the first loop has mapped the pages below `kernPage + v`: page 0 was given the entry `pg`,
which left the bitset `f`, and the other ones the frames of their physical addresses. -/
structure KernInv (m : Machine) (f : BitSet) (pg : Page) (s : State Bump) (v : Nat) : Prop where
  wf : Wf s
  ptr : s.heap.allocPtr = kernOffset + 4096 * (m.firstStop - 1) + 8192 * ((v - 1) / 1024)
  tabs : ∀ i : Fin 1024, HasTab s i ↔ 768 ≤ i.val ∧ i.val ≤ 768 + (v - 1) / 1024
  zero : pte s kernPage = pg
  ident : ∀ j, 1 ≤ j → j < v →
    (pte s (kernPage + j)).present = true ∧ (pte s (kernPage + j)).addr.val = j
  rest : ∀ p < 1048576, ¬ (kernPage ≤ p ∧ p < kernPage + v) → pte s p = Page.zero
  sz : s.frames.sz = f.sz
  bits : ∀ k, get s.frames k = true ↔ get f k = true ∨ 1 ≤ k ∧ k < v

section
variable {m : Machine} {f : BitSet} {pg : Page} {s : State Bump} {v : Nat}

/-- The pages of the kernel have the indices from 768 on. -/
lemma pdIdx_kern (hv : v < 65536) : (pdIdx ((kernPage + v) * 4096)).val = 768 + v / 1024 := by
  simp only [pdIdx, kernPage]
  omega

/-- The first round maps page 0 to any frame. -/
lemma Entered.first (E : Entered m s) (hk : m.lastFrame < 65536) :
    ∃ p s', s.mapAt kmallocAp (kernPage * 4096) s.kernDir 0 = .ok (p, s') ∧
      s'.kernDir = s.kernDir ∧
      KernInv m (Vmm.mapPage (setFrame m.frames 0).2 Page.zero 1 1 0).1
        (Vmm.mapPage (setFrame m.frames 0).2 Page.zero 1 1 0).2 s' 1 := by
  have hstop : 6 ≤ m.firstStop := Nat.le_add_left ..
  have hstop' : m.firstStop < 65536 := by
    unfold Machine.lastFrame at hk
    omega
  have hptr := E.ptr
  have hidx : (pdIdx (kernPage * 4096)).val = 768 := pdIdx_kern (v := 0) (by decide)
  obtain ⟨p, s', hrun, M⟩ := mapAt_spec (a := 0) E.wf (q := kernPage) (by decide)
    (by unfold kernOffset at hptr; omega)
  have hzero : ∀ q, pte s q = Page.zero := fun q => pte_of_not_tab (E.tabs _)
  have hframes := M.frames
  rw [hzero, E.frames] at hframes
  refine ⟨p, s', hrun, M.kernDir, M.wf, ?_, fun i => ?_, ?_, fun j h₁ h₂ => by omega,
    fun q hq hne => ?_, by rw [hframes], fun k => ?_⟩
  · rw [M.heap, if_neg (E.tabs _), hptr, kernOffset]
    omega
  · rw [M.hasTab, or_iff_right (E.tabs i), Fin.ext_iff, hidx]
    omega
  · rw [M.pte _ (by decide), if_pos rfl, hzero, E.frames]
  · rw [M.pte q hq, if_neg (by omega), hzero]
  · rw [hframes]
    exact ⟨.inl, fun h => h.resolve_right (by omega)⟩

/-- A later round maps its page to the frame of its physical address. -/
lemma KernInv.step (K : KernInv m f pg s v) (hv : 1 ≤ v) (hvl : v ≤ m.lastFrame)
    (hk : m.lastFrame < 65536) (hin : m.lastFrame < bsGetSize f) :
    ∃ p s', s.mapAt kmallocAp ((kernPage + v) * 4096) s.kernDir (v * 4096) = .ok (p, s') ∧
      s'.kernDir = s.kernDir ∧ KernInv m f pg s' (v + 1) := by
  have hstop : 6 ≤ m.firstStop := Nat.le_add_left ..
  have hstop' : m.firstStop ≤ m.lastFrame := Nat.le_add_right ..
  have hptr := K.ptr
  have hidx := pdIdx_kern (v := v) (by omega)
  have hq : kernPage + v < 1048576 := by unfold kernPage; omega
  obtain ⟨p, s', hrun, M⟩ := mapAt_spec (a := v * 4096) K.wf hq
    (by unfold kernOffset at hptr; omega)
  have hzero : pte s (kernPage + v) = Page.zero := K.rest _ hq (by omega)
  have hsize : bsGetSize s.frames = bsGetSize f := by rw [bsGetSize, K.sz, bsGetSize]
  have hmap : Vmm.mapPage s.frames (pte s (kernPage + v)) 1 1 (v * 4096) = (bsSet s.frames v,
      { (Page.zero).attr 1 1 with addr := Fin.ofNat _ v }) := by
    rw [hzero]
    exact mapPage_at rfl (by omega) (by omega)
  have hframes := M.frames
  have hpte := M.pte
  rw [hmap] at hframes hpte
  have hhas : HasTab s (pdIdx ((kernPage + v) * 4096)) ↔ v / 1024 ≤ (v - 1) / 1024 := by
    rw [K.tabs, hidx]
    omega
  refine ⟨p, s', hrun, M.kernDir, M.wf, ?_, fun i => ?_, ?_, fun j h₁ h₂ => ?_, fun q hq hne => ?_,
    by rw [hframes, sz_set, K.sz], fun k => ?_⟩
  · rw [M.heap, hptr]
    by_cases h : v / 1024 ≤ (v - 1) / 1024
    · rw [if_pos (hhas.mpr h)]
      omega
    · rw [if_neg (fun h' => h (hhas.mp h')), kernOffset]
      omega
  · rw [M.hasTab, K.tabs, Fin.ext_iff, hidx]
    omega
  · rw [hpte _ (by decide), if_neg (by omega), K.zero]
  · rw [hpte _ (by unfold kernPage at *; omega)]
    by_cases hj : j = v
    · rw [if_pos (by omega)]
      exact ⟨rfl, hj ▸ ofNat_val (by omega)⟩
    · rw [if_neg (by omega)]
      exact K.ident j h₁ (by omega)
  · rw [hpte q hq, if_neg (by omega)]
    exact K.rest q hq (by omega)
  · rw [hframes, get_set (by omega), Bool.or_eq_true, decide_eq_true_iff, K.bits, or_assoc]
    exact or_congr_right (by omega)

/-- Where the moving bound of the first loop is met. -/
lemma Machine.lastFrame_bound (hv : 1 ≤ v) (hvl : v ≤ m.lastFrame + 1) :
    v ≤ m.firstStop + 2 * ((v - 1) / 1024) ↔ v ≤ m.lastFrame := by
  have hstop : 6 ≤ m.firstStop := Nat.le_add_left ..
  unfold Machine.lastFrame at hvl ⊢
  omega

/-- The first loop ends, behind the page `lastFrame`. -/
lemma KernInv.loop {n : Nat} (K : KernInv m f pg s v) (hv : 1 ≤ v) (hvl : v ≤ m.lastFrame + 1)
    (hk : m.lastFrame < 65536) (hin : m.lastFrame < bsGetSize f) (hn : m.lastFrame + 1 < n + v) :
    ∃ s', kernLoop n ((kernPage + v) * 4096) s = .ok s' ∧ s'.kernDir = s.kernDir ∧
      KernInv m f pg s' (m.lastFrame + 1) := by
  have hstop' : m.firstStop ≤ m.lastFrame := Nat.le_add_right ..
  have hstop : 6 ≤ m.firstStop := Nat.le_add_left ..
  have hptr := K.ptr
  induction n generalizing s v with
  | zero => omega
  | succ n ih =>
    have hbound : (kernPage + v) * 4096 ≤ u32 (s.heap.allocPtr + 0x1000) ↔ v ≤ m.lastFrame := by
      rw [← Machine.lastFrame_bound hv hvl, u32_eq (by unfold kernOffset at hptr; omega), hptr]
      unfold kernPage kernOffset
      omega
    rw [kernLoop]
    by_cases h : v ≤ m.lastFrame
    · have hv2p : v2p ((kernPage + v) * 4096) = v * 4096 := by
        have := v2p_eq (x := (kernPage + v) * 4096) (by unfold kernOffset kernPage; omega)
          (by unfold kernPage; omega)
        unfold kernOffset kernPage at *
        omega
      have hnext : u32 ((kernPage + v) * 4096 + pgSz) = (kernPage + (v + 1)) * 4096 := by
        rw [pgSz_eq, u32_eq (by unfold kernPage; omega)]
        omega
      obtain ⟨p, s₁, hrun, hd, K₁⟩ := K.step hv h hk hin
      obtain ⟨s', hrun', hd', K'⟩ := ih K₁ (by omega) (by omega) (by omega) K₁.ptr
      refine ⟨s', ?_, hd'.trans hd, K'⟩
      rw [if_pos (hbound.mpr h), hv2p, hrun, hnext]
      exact hrun'
    · have hv : v = m.lastFrame + 1 := by omega
      exact ⟨s, by rw [if_neg (mt hbound.mp h)], rfl, hv ▸ K⟩

end

/-! ## The second loop -/

/-- The frames that `get_frame` can still hand out. -/
def freeCnt (bs : BitSet) : Nat :=
  ((Finset.range 1048576).filter fun k => k < bsGetSize bs ∧ get bs k = false).card

/-- Present pages have frames of their own, which are marked as used. -/
structure Backed (s : State Bump) : Prop where
  unique : ∀ p < 1048576, ∀ q < 1048576, (pte s p).present = true → (pte s q).present = true →
    (pte s p).addr = (pte s q).addr → p = q
  marked : ∀ p < 1048576, (pte s p).present = true →
    (pte s p).addr.val < bsGetSize s.frames ∧ get s.frames (pte s p).addr.val = true

/-- After the second loop has mapped `i` pages of the kernel heap, from the state `s₀`. -/
structure HeapInv (s₀ s : State Bump) (i : Nat) : Prop where
  wf : Wf s
  ptr : s.heap.allocPtr = if i = 0 then s₀.heap.allocPtr else s₀.heap.allocPtr + 8192
  tabs : ∀ j : Fin 1024, HasTab s j ↔ HasTab s₀ j ∨ i ≠ 0 ∧ j.val = 832
  old : ∀ p < 1048576, ¬ (heapBase ≤ p ∧ p < heapBase + i) → pte s p = pte s₀ p
  backed : Backed s₀ → heapPages ≤ freeCnt s₀.frames → s₀.frames.sz * 32 < 4294967296 →
    Backed s ∧ heapPages ≤ freeCnt s.frames + i ∧ s.frames.sz * 32 < 4294967296

section
variable {s s' s₀ : State Bump} {bs : BitSet} {q idx i : Nat}

/-- Where a frame is counted there is one. -/
lemma freeCnt_pos (h : 0 < freeCnt bs) : ∃ k < 1048576, k < bsGetSize bs ∧ get bs k = false := by
  obtain ⟨k, hk⟩ := Finset.card_pos.mp h
  rw [Finset.mem_filter, Finset.mem_range] at hk
  exact ⟨k, hk.1, hk.2⟩

/-- Marking one frame takes one free frame at most. -/
lemma freeCnt_set (h : idx < bsGetSize bs) : freeCnt bs ≤ freeCnt (bsSet bs idx) + 1 := by
  have hset : ((Finset.range 1048576).filter fun k =>
      k < bsGetSize (bsSet bs idx) ∧ get (bsSet bs idx) k = false) =
      ((Finset.range 1048576).filter fun k => k < bsGetSize bs ∧ get bs k = false).erase idx := by
    ext k
    simp only [Finset.mem_filter, Finset.mem_erase, bsGetSize_set, get_set h, Bool.or_eq_false_iff,
      decide_eq_false_iff_not]
    constructor
    · rintro ⟨hr, hs, hg, hne⟩
      exact ⟨hne, hr, hs, hg⟩
    · rintro ⟨hne, hr, hs, hg⟩
      exact ⟨hr, hs, hg, hne⟩
  have := Finset.pred_card_le_card_erase (a := idx)
    (s := (Finset.range 1048576).filter fun k => k < bsGetSize bs ∧ get bs k = false)
  unfold freeCnt
  rw [hset]
  omega

/-- While there is a free frame, mapping a page to any frame keeps the frames apart. -/
lemma mapStep_backed (M : MapStep s q 0 s') (h0 : (pte s q).addr = 0) (hq : q < 1048576)
    (hs : s.frames.sz * 32 < 4294967296) (B : Backed s) (hfree : 0 < freeCnt s.frames) :
    Backed s' ∧ freeCnt s.frames ≤ freeCnt s'.frames + 1 := by
  obtain ⟨k, hk, hks, hkf⟩ := freeCnt_pos hfree
  rcases mapPage_any 1 1 h0 hs with ⟨-, hfull⟩ | ⟨idx, hlt, hclr, hbelow, hm⟩
  · rw [hfull k hks] at hkf
    cases hkf
  have hidx : idx < 1048576 := by
    by_contra h
    rw [hbelow k (by omega)] at hkf
    cases hkf
  have hm := hm hidx
  have hframes : s'.frames = bsSet s.frames idx := by rw [M.frames, hm]
  have hnew : pte s' q = { (pte s q).attr 1 1 with addr := Fin.ofNat _ idx } := by
    rw [M.pte q hq, if_pos rfl, hm]
  have hold : ∀ p < 1048576, p ≠ q → pte s' p = pte s p := fun p hp hne => by
    rw [M.pte p hp, if_neg hne]
  -- a frame that backs a page is marked, and the new one is not
  have hother : ∀ p < 1048576, (pte s p).present = true → (pte s p).addr.val ≠ idx := by
    intro p hp hpr e
    have := (B.marked p hp hpr).2
    rw [e, hclr] at this
    cases this
  have haddr : (pte s' q).addr.val = idx := by
    rw [hnew]
    exact ofNat_val hidx
  refine ⟨⟨fun p hp r hr hpp hrp e => ?_, fun p hp hpp => ?_⟩, by rw [hframes]; exact freeCnt_set hlt⟩
  · by_cases hpq : p = q
    · by_cases hrq : r = q
      · rw [hpq, hrq]
      · rw [hold r hr hrq] at hrp e
        have := congrArg Fin.val e
        rw [hpq, haddr] at this
        exact (hother r hr hrp this.symm).elim
    · rw [hold p hp hpq] at hpp e
      by_cases hrq : r = q
      · have := congrArg Fin.val e
        rw [hrq, haddr] at this
        exact (hother p hp hpp this).elim
      · rw [hold r hr hrq] at hrp e
        exact B.unique p hp r hr hpp hrp e
  · rw [hframes, bsGetSize_set, get_set hlt]
    by_cases hpq : p = q
    · rw [hpq, haddr]
      exact ⟨hlt, by simp⟩
    · rw [hold p hp hpq] at hpp ⊢
      obtain ⟨h₁, h₂⟩ := B.marked p hp hpp
      exact ⟨h₁, by rw [h₂, Bool.true_or]⟩

/-- No page of the heap is mapped yet. -/
lemma HeapInv.refl (W : Wf s) : HeapInv s s 0 where
  wf := W
  ptr := (if_pos rfl).symm
  tabs := fun _ => ⟨.inl, fun h => h.resolve_right fun h => h.1 rfl⟩
  old := fun _ _ _ => rfl
  backed := fun B hf hs => ⟨B, Nat.le_add_right_of_le hf, hs⟩

/-- A round of the second loop. -/
lemma HeapInv.step (H : HeapInv s₀ s i) (hi : i < heapPages) (hal : s₀.heap.allocPtr % 4096 = 0)
    (hroom : s₀.heap.allocPtr + 16384 < 4294967296) (hno : ∀ j : Fin 1024, HasTab s₀ j → j.val < 832)
    (hzero : ∀ p < 1048576, heapBase ≤ p → pte s₀ p = Page.zero) :
    ∃ s', heapPage s i = .ok s' ∧ HeapInv s₀ s' (i + 1) := by
  have hi' : i < 257 := hi
  have hq : heapBase + i < 1048576 := by unfold heapBase; omega
  have hva : kheapStart + i * pgSz = (heapBase + i) * 4096 := by
    unfold kheapStart heapBase
    rw [pgSz_eq]
    omega
  have hidx : (pdIdx ((heapBase + i) * 4096)).val = 832 := by
    simp only [pdIdx, heapBase]
    omega
  have hptr := H.ptr
  obtain ⟨p, s', hrun, M⟩ := mapAt_spec (a := 0) H.wf hq (by split at hptr <;> omega)
  have hz : pte s (heapBase + i) = Page.zero := by
    rw [H.old _ hq (by omega), hzero _ hq (by omega)]
  have hhas : HasTab s (pdIdx ((heapBase + i) * 4096)) ↔ i ≠ 0 := by
    rw [H.tabs, hidx, and_iff_left rfl]
    exact or_iff_right fun h => absurd (hno _ h) (by rw [hidx]; decide)
  refine ⟨s', by rw [heapPage, hva, hrun]; rfl, M.wf, ?_, fun j => ?_, fun p hp hne => ?_,
    fun B hf hs => ?_⟩
  · rw [M.heap, hptr]
    by_cases h0 : i = 0
    · rw [if_neg (fun h => hhas.mp h h0), if_pos h0, if_neg (by omega)]
      omega
    · rw [if_pos (hhas.mpr h0), if_neg h0, if_neg (by omega)]
  · rw [M.hasTab, H.tabs, Fin.ext_iff, hidx, or_assoc]
    exact or_congr_right (by omega)
  · rw [M.pte p hp, if_neg (by omega), H.old p hp (by omega)]
  · obtain ⟨B', hf', hs'⟩ := H.backed B hf hs
    obtain ⟨B'', hf''⟩ := mapStep_backed M (by rw [hz]; rfl) hq hs' B' (by omega)
    exact ⟨B'', by omega, by rw [M.frames, mapPage_sz]; exact hs'⟩

/-- The second loop ends. -/
lemma HeapInv.loop {n : Nat} (H : HeapInv s₀ s i) (hn : i + n = heapPages)
    (hal : s₀.heap.allocPtr % 4096 = 0) (hroom : s₀.heap.allocPtr + 16384 < 4294967296)
    (hno : ∀ j : Fin 1024, HasTab s₀ j → j.val < 832)
    (hzero : ∀ p < 1048576, heapBase ≤ p → pte s₀ p = Page.zero) :
    ∃ s', exec heapPage s (List.range' i n) = .ok s' ∧ HeapInv s₀ s' heapPages := by
  induction n generalizing s i with
  | zero => exact ⟨s, rfl, hn ▸ H⟩
  | succ n ih =>
    obtain ⟨s₁, h₁, H₁⟩ := H.step (by omega) hal hroom hno hzero
    obtain ⟨s', h', H'⟩ := ih H₁ (by omega)
    exact ⟨s', by rw [List.range'_succ, exec_cons h₁, h'], H'⟩

end

/-! ## The whole of `vmm_init` -/

/-- What page 0 gets, and the bitset after it. -/
def page0 (m : Machine) : BitSet × Page := Vmm.mapPage (setFrame m.frames 0).2 Page.zero 1 1 0

section
variable {m : Machine}

/-- The first page leaves the size of the bitset. -/
lemma page0_size : bsGetSize (page0 m).1 = bsGetSize m.frames := by
  unfold page0 bsGetSize
  rw [mapPage_sz, setFrame_sz]

/-- The first loop returns. -/
lemma kernLoop_spec (hend : kernOffset ≤ m.kernEnd) (hk : m.lastFrame < 65536)
    (hin : m.lastFrame < bsGetSize m.frames) :
    ∃ s₀, kernLoop chainFuel (p2v 0) (entry m) = .ok s₀ ∧
      KernInv m (page0 m).1 (page0 m).2 s₀ (m.lastFrame + 1) := by
  have hstop : 6 ≤ m.firstStop := Nat.le_add_left ..
  have hstop' : m.firstStop ≤ m.lastFrame := Nat.le_add_right ..
  have E := entry_spec hend hk
  obtain ⟨p, t, hfirst, hd, K₁⟩ := E.first hk
  obtain ⟨n, hn⟩ : ∃ n, chainFuel = n + 1 := ⟨4294967295, rfl⟩
  obtain ⟨s₀, hloop, -, K⟩ := K₁.loop (n := n) (le_refl _) (by omega) hk
    (page0_size.symm ▸ hin) (by unfold chainFuel at hn; omega)
  refine ⟨s₀, ?_, K⟩
  have hptr := E.ptr
  have hle : p2v 0 ≤ u32 ((entry m).heap.allocPtr + 0x1000) := by
    rw [u32_eq (by unfold kernOffset at hptr; omega), hptr]
    unfold p2v kernOffset u32
    omega
  rw [hn, kernLoop, if_pos hle]
  have hv2p : v2p (p2v 0) = 0 := rfl
  have hp : p2v 0 = kernPage * 4096 := rfl
  have hnext : u32 (kernPage * 4096 + pgSz) = (kernPage + 1) * 4096 := rfl
  rw [hv2p, hp, hfirst, hnext]
  exact hloop

/-- `vmm_init` returns, and its two loops have done their work. -/
lemma boot_run (hend : kernOffset ≤ m.kernEnd) (hk : m.lastFrame < 65536)
    (hin : m.lastFrame < bsGetSize m.frames) :
    ∃ s₀ s₁, m.boot = .ok (s₁.switchPageDirectory s₁.kernDir) ∧
      KernInv m (page0 m).1 (page0 m).2 s₀ (m.lastFrame + 1) ∧ HeapInv s₀ s₁ heapPages ∧
      exec heapPage s₀ (List.range heapPages) = .ok s₁ := by
  have hstop : 6 ≤ m.firstStop := Nat.le_add_left ..
  have hstop' : m.firstStop ≤ m.lastFrame := Nat.le_add_right ..
  obtain ⟨s₀, hkl, K⟩ := kernLoop_spec hend hk hin
  have hptr := K.ptr
  have hno : ∀ j : Fin 1024, HasTab s₀ j → j.val < 832 := fun j hj => by
    have := (K.tabs j).mp hj
    omega
  obtain ⟨s₁, hexec, H⟩ := (HeapInv.refl K.wf).loop (n := heapPages) (Nat.zero_add _)
    (by unfold kernOffset at hptr; omega) (by unfold kernOffset at hptr; omega) hno
    fun p hp hge => K.rest p hp (by unfold heapBase kernPage at *; omega)
  rw [← List.range_eq_range'] at hexec
  refine ⟨s₀, s₁, ?_, K, H, hexec⟩
  rw [m.boot_eq, hkl]
  show (exec heapPage s₀ (List.range heapPages) >>= _) = _
  rw [hexec]
  rfl

/-- `vmm_init` returns, with the kernel and the heap mapped. -/
theorem boot_spec (hend : kernOffset ≤ m.kernEnd) (hk : m.lastFrame < 65536)
    (hin : m.lastFrame < bsGetSize m.frames) :
    ∃ s₀ s₁, m.boot = .ok (s₁.switchPageDirectory s₁.kernDir) ∧
      KernInv m (page0 m).1 (page0 m).2 s₀ (m.lastFrame + 1) ∧ HeapInv s₀ s₁ heapPages := by
  obtain ⟨s₀, s₁, hboot, K, H, -⟩ := boot_run hend hk hin
  exact ⟨s₀, s₁, hboot, K, H⟩

end

end ToeS.Boot
