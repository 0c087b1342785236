import ToeS.V1.Inv
import ToeS.V1.Pmm

/-!
# Paging in the v1 kernel

Model of `init_paging` (`v1/os/vmm.c`), which maps the kernel to itself and gives the initial heap its
frames. `heap_t` and its bins are in memory here, because the loop that allocates the bins makes eleven
of them for an array of nine.

A page of the heap is backed by what `pop_frame` returns, whatever that is. The frame stack stands on
frames that are free as far as `init_pmm` knows; it is mapped to itself as a part of the kernel, and these
frames are on the stack as well, at the bottom of it.
-/

namespace ToeS.V1
open Lib Kheap
open Boot (readMemmap)

/-- `KHEAP_START`, `KHEAP_INIT_SIZE` and `KHEAP_MAX`. -/
def kheapStart : Nat := 0xC0000000
@[inherit_doc kheapStart] def kheapInitSize : Nat := 0x1000000
@[inherit_doc kheapStart] def kheapMax : Nat := 0xCFFFF000

/-- `sizeof(heap_t)` and `sizeof(bin_t)`. -/
def heapSz : Nat := 52
@[inherit_doc heapSz] def binSz : Nat := 8

/-- `&heap->bins[k]`. -/
def binSlot (heap k : Nat) : Nat := u32 (heap + 16 + 4 * k)

/-- C `page_round`. -/
def pageRound (s : State) : State :=
  { s with placementAddr := u32 ((s.placementAddr &&& 0xFFFFF000) + 0x1000) }

/-- `kheap->bins[k] = (bin_t *) kmalloc(sizeof(bin_t))`. -/
def newBin (heap : Nat) (s : State) (k : Nat) : Except Fault State := do
  let (s, bin) ← kmalloc alloc s binSz
  return { s with heap := { s.heap with mem := writeWord s.heap.mem (binSlot heap k) bin } }

/-- The `while` loop of `init_paging`, with `addr` at its end. -/
def identityLoop : Nat → Nat → State → Except Fault (State × Nat)
  | 0, _, _ => .error .diverges
  | n + 1, addr, s =>
    if addr ≤ s.placementAddr then
      let (s, page) := getPage s addr
      let s := { s with tables := Function.update s.tables page (addr ||| 3) }
      identityLoop n (u32 (addr + 0x1000)) s
    else .ok (s, addr)

/-- The loop that gives the heap its frames. -/
def backLoop : Nat → Nat → State → Except Fault State
  | 0, _, _ => .error .diverges
  | n + 1, i, s =>
    if i < kheapStart + kheapInitSize then
      let (s, page) := getPage s i
      backLoop n (u32 (i + 0x1000)) (allocFrame s page 0 0)
    else .ok s

/-- `init_paging` up to `switch_page_directory`, with `kheap`. -/
def mapKernel (s : State) : Except Fault (State × Nat) := do
  let (s, heap) ← kmalloc alloc s heapSz
  let s ← (List.range 11).foldlM (newBin heap) s
  let s := pageRound s
  let s := { s with dir := fun _ => false }
  let (s, addr) ← identityLoop chainFuel 0 s
  let index := (addr >>> 12) / 1024
  let s := { s with dir := fun i => if i ≤ index then true else s.dir i }
  let s ← backLoop chainFuel kheapStart s
  return (s, heap)

/-- The heads of the bins, as they are in memory. -/
def loadBins (m : Mem) (heap : Nat) : Fin binCnt → Nat := fun k =>
  readWord m (readWord m (binSlot heap k))

/-- C `init_paging`. -/
def initPaging (s : State) : Except Fault State := do
  let (s, heap) ← mapKernel s
  let h ← initHeap { s.heap with bins := loadBins s.heap.mem heap } kheapStart
    (kheapStart + kheapInitSize)
  return { s with heap := h, max := kheapMax, kheapInit := true }

/-- The walk of the processor. An entry of the directory that is there holds the table with its index. -/
def translate (s : State) (v : Nat) : Option Nat :=
  if s.dir (v / 0x400000) = true ∧ s.tables (v / 0x1000) % 2 = 1 then
    some (s.tables (v / 0x1000) / 0x1000 * 0x1000 + v % 0x1000)
  else none

/-- The frame stack holds `fs`, the top last, and the placement allocator is behind it. -/
structure Stock (s : State) (fs : List Nat) : Prop where
  init : s.kheapInit = false
  top : s.top + 4 = s.bottom + 4 * fs.length
  slot : ∀ k < fs.length, readWord s.heap.mem (s.bottom + 4 * k) = fs.getD k 0
  below : s.bottom + 4 * fs.length ≤ s.placementAddr
  nonempty : fs ≠ []
  aligned : ∀ f ∈ fs, f % 0x1000 = 0 ∧ f < 0xFFFFF000

/-- The end of what is mapped to itself, when `init_paging` starts to allocate at `p`. -/
def identityEnd (p : Nat) : Nat := 0x1000 * ((p + 140) / 0x1000 + 2)

section
variable {s : State} {fs : List Nat} {a c i n p k : Nat}

/-- `get_page` makes the table present and finds the entry. -/
lemma getPage_eq (s : State) (a : Nat) :
    getPage s a = ({ s with dir := Function.update s.dir (a / 0x400000) true }, a / 0x1000) := by
  have hframe : a >>> 12 = a / 4096 := Nat.shiftRight_eq_div_pow a 12
  have hindex : a / 4096 / 1024 = a / 0x400000 := Nat.div_div_eq_div_mul ..
  rw [getPage, hframe, hindex]
  split
  · rfl
  · rename_i h
    rw [show Function.update s.dir (a / 0x400000) true = s.dir from
      Function.update_eq_self_iff.mpr (by simpa using h)]

/-! ## The loops -/

/-- Flags are added to the address of a frame. -/
lemma page_or {f m : Nat} (hf : f % 4096 = 0) (hm : m < 4096) : f ||| m = f + m := by
  obtain ⟨q, rfl⟩ : ∃ q, f = 2 ^ 12 * q := ⟨_, (Nat.mul_div_cancel' (by omega)).symm⟩
  exact (Nat.two_pow_add_eq_or_of_lt hm q).symm

/-- The `while` loop maps each page from `4096 * i` on to itself, up to the placement address. -/
lemma identityLoop_spec (hp : s.placementAddr + 8192 ≤ 4294967296)
    (hi : i + c = s.placementAddr / 4096 + 1) (hn : c < n) :
    ∃ d t, identityLoop n (4096 * i) s =
        .ok ({ s with dir := d, tables := t }, 4096 * (i + c)) ∧
      (∀ j, s.dir j = true → d j = true) ∧ (∀ k, i ≤ k → k < i + c → d (k / 1024) = true) ∧
      ∀ k, t k = if i ≤ k ∧ k < i + c then 4096 * k + 3 else s.tables k := by
  induction c generalizing s i n with
  | zero =>
    obtain ⟨n, rfl⟩ := Nat.exists_eq_add_one.mpr hn
    refine ⟨s.dir, s.tables, by rw [identityLoop, if_neg (by omega)]; rfl, fun _ hj => hj, by omega,
      fun k => by rw [if_neg (by omega)]⟩
  | succ c ih =>
    obtain ⟨n, rfl⟩ := Nat.exists_eq_add_one.mpr (Nat.zero_lt_of_lt hn)
    obtain ⟨d, t, hr, hmono, hd, ht⟩ := ih (i := i + 1) (n := n)
      (s := { s with dir := Function.update s.dir (4096 * i / 0x400000) true,
                     tables := Function.update s.tables i (4096 * i + 3) }) hp
      (by show _ = s.placementAddr / 4096 + 1; omega) (by omega)
    dsimp only at hmono ht
    have hupd : ∀ j, s.dir j = true ∨ j = i / 1024 →
        Function.update s.dir (4096 * i / 0x400000) true j = true := by
      intro j hj
      rw [Function.update_apply]
      split
      · rfl
      · exact hj.resolve_right (by omega)
    refine ⟨d, t, ?_, fun j hj => hmono j (hupd j (.inl hj)), fun k hk hk' => ?_, fun k => ?_⟩
    · rw [identityLoop, if_pos (by omega), getPage_eq]
      simp only
      rw [page_or (by omega) (by omega), show 4096 * i / 0x1000 = i by omega,
        u32_eq (by omega), show 4096 * i + 0x1000 = 4096 * (i + 1) by omega, hr,
        show i + 1 + c = i + (c + 1) by omega]
    · by_cases hki : k = i
      · rw [hki]
        exact hmono _ (hupd _ (.inr rfl))
      · exact hd k (by omega) (by omega)
    · rw [ht, Function.update_apply]
      by_cases hki : k = i
      · rw [if_neg (by omega), if_pos hki, if_pos (by omega), hki]
      · rw [if_neg hki]
        exact if_congr (by omega) rfl rfl

/-- A frame of the list by its index. -/
lemma getD_mem (hk : k < fs.length) : fs.getD k 0 ∈ fs := by
  rw [List.getD_eq_getElem?_getD, List.getElem?_eq_getElem hk]
  exact List.getElem_mem hk

/-- Different indices have different frames. -/
lemma getD_inj {j : Nat} (hnd : fs.Nodup) (hj : j < fs.length) (hk : k < fs.length)
    (h : fs.getD j 0 = fs.getD k 0) : j = k := by
  rw [List.getD_eq_getElem?_getD, List.getD_eq_getElem?_getD, List.getElem?_eq_getElem hj,
    List.getElem?_eq_getElem hk] at h
  exact (hnd.getElem_inj_iff).mp h

/-- The stack is at height `h`: the frames above have been popped. -/
structure Popped (s : State) (fs : List Nat) (h : Nat) : Prop where
  pos : 0 < h
  le : h ≤ fs.length
  top : s.top + 4 = s.bottom + 4 * h
  fits : s.bottom + 4 * fs.length ≤ 4294967296
  slot : ∀ k < fs.length, readWord s.heap.mem (s.bottom + 4 * k) = fs.getD k 0
  aligned : ∀ f ∈ fs, f % 4096 = 0

/-- The `j`-th entry that `alloc_frame` makes from there. -/
def backing (fs : List Nat) (h j : Nat) : Nat :=
  if j + 1 < h then fs.getD (h - 1 - j) 0 + 1 else 0xFFFFFFFF

/-- Popping a frame goes on with the one below it. -/
lemma backing_succ {h j : Nat} (hh : 0 < h) :
    backing fs (if 1 < h then h - 1 else h) j = backing fs h (j + 1) := by
  unfold backing
  split_ifs with h₁
  all_goals first | omega | rfl | skip
  rw [show h - 1 - 1 - j = h - 1 - (j + 1) by omega]

/-- `alloc_frame` for a page that is not there. -/
lemma Popped.allocFrame {h : Nat} (P : Popped s fs h) (hpte : s.tables k = 0) :
    ∃ u, V1.allocFrame s k 0 0 = { s with top := u,
                                          tables := Function.update s.tables k (backing fs h 0) } ∧
      Popped { s with top := u } fs (if 1 < h then h - 1 else h) := by
  have htop := P.top
  have hle := P.le
  have hfits := P.fits
  have hpos := P.pos
  by_cases hh : 1 < h
  · have hne : s.top ≠ s.bottom := by omega
    have hs : s.top = s.bottom + 4 * (h - 1) := by omega
    have hmem : fs.getD (h - 1) 0 ∈ fs := getD_mem (by omega)
    refine ⟨sub32 s.top 4, ?_, ?_⟩
    · rw [V1.allocFrame, popFrame_eq hne]
      simp only [hpte, backing, if_pos (show 0 + 1 < h by omega), Nat.sub_zero]
      rw [hs, P.slot _ (by omega)]
      have hor : ((0 ||| 1 ||| if (0 : Nat) ≠ 0 then 2 else 0) ||| if (0 : Nat) ≠ 0 then 4 else 0) |||
          fs.getD (h - 1) 0 = fs.getD (h - 1) 0 + 1 := by
        rw [if_neg (by decide), if_neg (by decide), Nat.or_comm]
        exact page_or (P.aligned _ hmem) (by decide)
      rw [hor]
    · rw [if_pos hh]
      refine ⟨by omega, by omega, ?_, hfits, P.slot, P.aligned⟩
      show sub32 s.top 4 + 4 = s.bottom + 4 * (h - 1)
      rw [sub32_eq (by omega) (by omega)]
      omega
  · have heq : s.top = s.bottom := by omega
    refine ⟨s.top, ?_, ?_⟩
    · rw [V1.allocFrame, popFrame, if_pos heq]
      simp only [hpte, backing, if_neg (show ¬ 0 + 1 < h by omega)]
      rfl
    · rw [if_neg hh]
      exact P

/-- The loop over the `c` pages of the heap from `i` on. -/
lemma backLoop_spec {h : Nat} (P : Popped s fs h) (hi : i + 4096 * c = kheapStart + kheapInitSize)
    (hal : i % 4096 = 0) (hn : c < n) (hpte : ∀ j < c, s.tables (i / 4096 + j) = 0) :
    ∃ d t u, backLoop n i s = .ok { s with dir := d, tables := t, top := u } ∧
      (∀ j, s.dir j = true → d j = true) ∧ (∀ j < c, d ((i / 4096 + j) / 1024) = true) ∧
      (∀ j < c, t (i / 4096 + j) = backing fs h j) ∧
      ∀ k, k < i / 4096 ∨ i / 4096 + c ≤ k → t k = s.tables k := by
  have hend : kheapStart + kheapInitSize = 0xC1000000 := rfl
  induction c generalizing s i n h with
  | zero =>
    obtain ⟨n, rfl⟩ := Nat.exists_eq_add_one.mpr hn
    exact ⟨s.dir, s.tables, s.top, by rw [backLoop, if_neg (by omega)], fun _ hj => hj, nofun, nofun,
      fun _ _ => rfl⟩
  | succ c ih =>
    obtain ⟨n, rfl⟩ := Nat.exists_eq_add_one.mpr (Nat.zero_lt_of_lt hn)
    have hmod : i / 4096 / 1024 = i / 0x400000 := Nat.div_div_eq_div_mul ..
    have hnext : (i + 4096) / 4096 = i / 4096 + 1 := by omega
    -- the directory entry, then the frame
    obtain ⟨s₁, hs₁⟩ : ∃ s₁ : State, s₁ =
      { s with dir := Function.update s.dir (i / 0x400000) true } := ⟨_, rfl⟩
    have P₁ : Popped s₁ fs h := by
      rw [hs₁]
      exact ⟨P.pos, P.le, P.top, P.fits, P.slot, P.aligned⟩
    obtain ⟨u₁, halloc, P₂⟩ := P₁.allocFrame (k := i / 4096) (by rw [hs₁]; exact hpte 0 (by omega))
    obtain ⟨s₂, hs₂⟩ : ∃ s₂ : State, s₂ = { s₁ with
      top := u₁, tables := Function.update s₁.tables (i / 4096) (backing fs h 0) } := ⟨_, rfl⟩
    have htab : s₂.tables = Function.update s.tables (i / 4096) (backing fs h 0) := by rw [hs₂, hs₁]
    obtain ⟨d, t, u, hr, hmono, hd, hnew, hold⟩ := ih (s := s₂) (i := i + 4096) (n := n)
      (h := if 1 < h then h - 1 else h)
      (by rw [hs₂]; exact ⟨P₂.pos, P₂.le, P₂.top, P₂.fits, P₂.slot, P₂.aligned⟩)
      (by omega) (by omega) (by omega) fun j hj => by
        rw [htab, Function.update_of_ne (by omega), hnext, Nat.add_assoc, Nat.add_comm 1]
        exact hpte (j + 1) (by omega)
    have hdir : ∀ j, s.dir j = true ∨ j = i / 4096 / 1024 → d j = true := by
      intro j hj
      refine hmono j ?_
      rw [hs₂, hs₁]
      show Function.update s.dir (i / 0x400000) true j = true
      rw [Function.update_apply]
      split
      · rfl
      · exact hj.resolve_right (by omega)
    rw [hnext] at hd hnew hold
    refine ⟨d, t, u, ?_, fun j hj => hdir j (.inl hj), fun j hj => ?_, fun j hj => ?_, fun k hk => ?_⟩
    · rw [backLoop, if_pos (by omega), getPage_eq]
      simp only
      rw [← hs₁, show i / 0x1000 = i / 4096 from rfl, halloc, ← hs₂, u32_eq (by omega), hr, hs₂, hs₁]
    · cases j with
      | zero => exact hdir _ (.inr rfl)
      | succ j =>
        rw [show i / 4096 + (j + 1) = i / 4096 + 1 + j by omega]
        exact hd j (by omega)
    · cases j with
      | zero =>
        rw [hold _ (by omega), htab]
        exact Function.update_self ..
      | succ j =>
        rw [show i / 4096 + (j + 1) = i / 4096 + 1 + j by omega, hnew j (by omega), backing_succ P.pos]
    · rw [hold k (by omega), htab, Function.update_of_ne (by omega)]

/-- The loop over the bins. -/
lemma newBins_spec (hk : s.kheapInit = false) (hp : s.placementAddr = p + 52)
    (hfit : p + 52 + 8 * n < 4294967296) :
    ∃ m, (List.range n).foldlM (newBin p) s = .ok { s with
        heap := { s.heap with mem := m }, placementAddr := p + 52 + 8 * n } ∧
      (∀ k < n, readWord m (p + 16 + 4 * k) = p + 52 + 8 * k) ∧
      ∀ a, a + 4 ≤ p + 16 ∨ p + 16 + 4 * n ≤ a → a + 4 ≤ 4294967296 →
        readWord m a = readWord s.heap.mem a := by
  induction n with
  | zero => exact ⟨s.heap.mem, by rw [← hp]; rfl, nofun, fun _ _ _ => rfl⟩
  | succ n ih =>
    obtain ⟨m, hr, hnew, hold⟩ := ih (by omega)
    have hslot : binSlot p n = p + 16 + 4 * n := u32_eq (by omega)
    refine ⟨writeWord m (p + 16 + 4 * n) (p + 52 + 8 * n), ?_, fun k hkn => ?_, fun a ha hlt => ?_⟩
    · rw [List.range_succ, List.foldlM_append, hr, ok_bind, List.foldlM_cons, newBin, kmalloc,
        if_neg (by simp [hk]), hslot]
      simp only [binSz, u32_eq (show p + 52 + 8 * n + 8 < 4294967296 by omega)]
      rfl
    · by_cases hkn' : k = n
      · rw [hkn', readWord_writeWord (by omega) (by omega)]
      · rw [readWord_writeWord_ne (by omega) (by omega) (by omega), hnew k (by omega)]
    · rw [readWord_writeWord_ne (by omega) (by omega) (by omega), hold a (by omega) hlt]

/-! ## The kernel and the heap are mapped -/

/-- `init_paging` up to the switch, from a frame stack `fs` on. -/
lemma mapKernel_spec (S : Stock s fs) (hz : ∀ k, s.tables k = 0)
    (hfit : identityEnd s.placementAddr ≤ kheapStart) :
    ∃ s', mapKernel s = .ok (s', s.placementAddr) ∧
      (∀ k, s'.tables k = if 4096 * k < identityEnd s.placementAddr then 4096 * k + 3
        else if kheapStart / 4096 ≤ k ∧ k < kheapStart / 4096 + 4096 then
          backing fs fs.length (k - kheapStart / 4096) else 0) ∧
      (∀ k, s'.tables k ≠ 0 → s'.dir (k / 1024) = true) ∧
      (∀ k < 11, readWord s'.heap.mem (s.placementAddr + 16 + 4 * k) =
        s.placementAddr + 52 + 8 * k) ∧
      ∀ a, s.placementAddr + 60 ≤ a → a + 4 ≤ 4294967296 →
        readWord s'.heap.mem a = readWord s.heap.mem a := by
  obtain ⟨p, hp⟩ : ∃ p, p = s.placementAddr := ⟨_, rfl⟩
  rw [← hp] at hfit ⊢
  unfold identityEnd at hfit ⊢
  have hstart : kheapStart = 0xC0000000 := rfl
  have hbelow := S.below
  have htop := S.top
  -- `heap_t` and the bins
  obtain ⟨m, hbins, hslots, hmem⟩ := newBins_spec (n := 11) (p := p)
    (s := { s with placementAddr := p + 52 }) S.init rfl (by omega)
  dsimp only at hbins hmem
  obtain ⟨q, hq⟩ : ∃ q, q = 4096 * ((p + 140) / 4096 + 1) := ⟨_, rfl⟩
  have hround : u32 (((p + 52 + 8 * 11) &&& 0xFFFFF000) + 0x1000) = q := by
    rw [and_frame (by omega), u32_eq (by omega)]
    omega
  -- the pages of the kernel
  obtain ⟨s₁, hs₁⟩ : ∃ s₁ : State, s₁ = { s with
    heap := { s.heap with mem := m }, placementAddr := q, dir := fun _ => false } := ⟨_, rfl⟩
  obtain ⟨d₁, t₁, hid, -, hd₁, ht₁⟩ := identityLoop_spec (s := s₁) (i := 0) (c := q / 4096 + 1)
    (n := chainFuel) (by rw [hs₁]; show q + 8192 ≤ _; omega) (by rw [hs₁]; exact Nat.zero_add _)
    (by show _ < 4294967296; omega)
  rw [Nat.mul_zero, Nat.zero_add] at hid
  -- the pages of the heap
  obtain ⟨s₂, hs₂⟩ : ∃ s₂ : State, s₂ = { s₁ with
      dir := fun i => if i ≤ (4096 * (q / 4096 + 1)) >>> 12 / 1024 then true else d₁ i,
      tables := t₁ } := ⟨_, rfl⟩
  have htab : s₂.tables = t₁ := by rw [hs₂]
  have P : Popped s₂ fs fs.length := by
    rw [hs₂, hs₁]
    refine ⟨List.length_pos_iff.mpr S.nonempty, le_rfl, S.top, by show s.bottom + _ ≤ _; omega,
      fun k hk => ?_, fun f hf => (S.aligned f hf).1⟩
    rw [← S.slot k hk]
    exact hmem (s.bottom + 4 * k) (.inl (by omega)) (by omega)
  obtain ⟨d, t, u, hback, hmono, hd, hnew, hold⟩ := backLoop_spec (s := s₂) (i := kheapStart)
    (c := 4096) (n := chainFuel) P rfl rfl (by decide) fun j hj => by
      rw [htab, ht₁, if_neg (by omega), hs₁]
      exact hz _
  refine ⟨{ s₂ with dir := d, tables := t, top := u }, ?_, fun k => ?_, fun k hk => ?_,
    fun k hk => ?_, fun a ha hlt => ?_⟩
  · rw [mapKernel, kmalloc, if_neg (by simp [S.init]), ← hp]
    simp only [ok_bind, heapSz, u32_eq (show p + 52 < 4294967296 by omega), hbins, pageRound, hround]
    rw [← hs₁, hid]
    simp only [ok_bind]
    rw [← hs₂, hback]
    rfl
  · show t k = _
    by_cases hlow : 4096 * k < 4096 * ((p + 140) / 4096 + 2)
    · rw [if_pos hlow, hold k (by omega), htab, ht₁, if_pos (by omega)]
    · rw [if_neg hlow]
      by_cases hheap : kheapStart / 4096 ≤ k ∧ k < kheapStart / 4096 + 4096
      · rw [if_pos hheap]
        have h := hnew (k - kheapStart / 4096) (by omega)
        rwa [Nat.add_sub_cancel' hheap.1] at h
      · rw [if_neg hheap, hold k (by omega), htab, ht₁, if_neg (by omega), hs₁]
        exact hz k
  · by_cases hheap : kheapStart / 4096 ≤ k ∧ k < kheapStart / 4096 + 4096
    · have h := hd (k - kheapStart / 4096) (by omega)
      rwa [Nat.add_sub_cancel' hheap.1] at h
    · have hlow : k < q / 4096 + 1 := by
        by_contra hlow
        refine hk ?_
        show t k = 0
        rw [hold k (by omega), htab, ht₁, if_neg (by omega), hs₁]
        exact hz k
      refine hmono _ ?_
      rw [hs₂]
      show (if _ then true else d₁ (k / 1024)) = true
      split
      · rfl
      · exact hd₁ k (Nat.zero_le _) (by omega)
  · rw [hs₂, hs₁]
    exact hslots k hk
  · rw [hs₂, hs₁]
    exact hmem a (.inr (by omega)) hlt

/-- Each page of the heap has a frame of `fs` for itself, and no page of the kernel has it. -/
structure Backed (s : State) (fs : List Nat) : Prop where
  frame : ∀ v, kheapStart ≤ v → v < kheapStart + kheapInitSize →
    ∃ f ∈ fs, translate s v = some (f + v % 0x1000)
  apart : ∀ v v' a, translate s v = some a → translate s v' = some a → v = v'

/-- What is mapped when `init_paging` turns paging on. -/
structure Mapped (s : State) (p : Nat) (fs : List Nat) : Prop where
  kernel : ∀ v < identityEnd p, translate s v = some v
  heap : ∀ j < 4096, ∀ o < 4096,
    translate s (kheapStart + 4096 * j + o) = some (backing fs fs.length j / 4096 * 4096 + o)
  nothing : ∀ v, identityEnd p ≤ v → ¬ (kheapStart ≤ v ∧ v < kheapStart + kheapInitSize) →
    translate s v = none

/-- The frame of a page is the one popped for it. -/
lemma backing_eq {j : Nat} (hal : ∀ f ∈ fs, f % 4096 = 0 ∧ f < 0xFFFFF000)
    (hj : j + 1 < fs.length) :
    backing fs fs.length j / 4096 * 4096 = fs.getD (fs.length - 1 - j) 0 := by
  have := hal _ (getD_mem (k := fs.length - 1 - j) (by omega))
  rw [backing, if_pos hj]
  omega

/-- The entry of a page is present. -/
lemma backing_odd {j : Nat} (hal : ∀ f ∈ fs, f % 4096 = 0 ∧ f < 0xFFFFF000) :
    backing fs fs.length j % 2 = 1 := by
  rw [backing]
  split
  · have := hal _ (getD_mem (k := fs.length - 1 - j) (by omega))
    omega
  · rfl

/-- The loop over the kernel maps every page of it to itself. -/
lemma mapKernel_mapped (S : Stock s fs) (hz : ∀ k, s.tables k = 0)
    (hfit : identityEnd s.placementAddr ≤ kheapStart) :
    ∃ s', mapKernel s = .ok (s', s.placementAddr) ∧ Mapped s' s.placementAddr fs := by
  obtain ⟨s', hr, htab, hdir, -, -⟩ := mapKernel_spec S hz hfit
  have hstart : kheapStart = 0xC0000000 := rfl
  have hsize : kheapInitSize = 0x1000000 := rfl
  have hmod : identityEnd s.placementAddr % 4096 = 0 := Nat.mul_mod_right ..
  have hsome : ∀ v, s'.tables (v / 4096) % 2 = 1 →
      translate s' v = some (s'.tables (v / 4096) / 4096 * 4096 + v % 4096) := by
    intro v hv
    have hd := hdir (v / 4096) (by omega)
    rw [Nat.div_div_eq_div_mul] at hd
    exact if_pos ⟨hd, hv⟩
  refine ⟨s', hr, fun v hv => ?_, fun j hj o ho => ?_, fun v hv hv' => ?_⟩
  · have ht := htab (v / 4096)
    rw [if_pos (by omega)] at ht
    rw [hsome v (by omega), ht]
    exact congrArg some (by omega)
  · have hpage : (kheapStart + 4096 * j + o) / 4096 = kheapStart / 4096 + j := by omega
    have ht := htab (kheapStart / 4096 + j)
    rw [if_neg (by omega), if_pos (by omega), Nat.add_sub_cancel_left] at ht
    rw [hsome _ (by rw [hpage, ht]; exact backing_odd S.aligned), hpage, ht]
    exact congrArg some (by omega)
  · have ht := htab (v / 4096)
    rw [if_neg (by omega), if_neg (by omega)] at ht
    refine if_neg fun h => ?_
    have := h.2
    rw [ht] at this
    cases this

/-- The 4096 frames on top are enough for the heap, and the kernel is not on them. -/
lemma Mapped.backed_iff {s' : State} (M : Mapped s' p fs) (hnd : fs.Nodup)
    (hal : ∀ f ∈ fs, f % 4096 = 0 ∧ f < 0xFFFFF000) (hfit : identityEnd p ≤ kheapStart) :
    Backed s' fs ↔
      4096 < fs.length ∧ ∀ j < 4096, identityEnd p ≤ fs.getD (fs.length - 1 - j) 0 := by
  have hstart : kheapStart = 0xC0000000 := rfl
  have hsize : kheapInitSize = 0x1000000 := rfl
  constructor
  · intro B
    have hlen : 4096 < fs.length := by
      by_contra hlen
      -- the page for which the stack is empty
      obtain ⟨f, hf, he⟩ := B.frame (kheapStart + 4096 * 4095) (by omega) (by omega)
      rw [M.heap 4095 (by omega) 0 (by omega), backing, if_neg (by omega)] at he
      have := hal f hf
      have := Option.some.inj he
      omega
    refine ⟨hlen, fun j hj => ?_⟩
    by_contra hlow
    have hheap := M.heap j hj 0 (by omega)
    rw [backing_eq hal (by omega)] at hheap
    have := B.apart _ _ _ hheap (M.kernel _ (by omega))
    omega
  · rintro ⟨hlen, hhigh⟩
    have hheap : ∀ v, kheapStart ≤ v → v < kheapStart + kheapInitSize → translate s' v =
        some (fs.getD (fs.length - 1 - (v - kheapStart) / 4096) 0 + v % 4096) := by
      intro v hv hv'
      have h := M.heap ((v - kheapStart) / 4096) (by omega) (v % 4096) (by omega)
      rw [backing_eq hal (by omega)] at h
      rwa [show kheapStart + 4096 * ((v - kheapStart) / 4096) + v % 4096 = v by omega] at h
    have hcase : ∀ v a, translate s' v = some a → v < identityEnd p ∧ a = v ∨
        (kheapStart ≤ v ∧ v < kheapStart + kheapInitSize) ∧
          a = fs.getD (fs.length - 1 - (v - kheapStart) / 4096) 0 + v % 4096 := by
      intro v a h
      by_cases hlow : v < identityEnd p
      · rw [M.kernel v hlow] at h
        exact .inl ⟨hlow, (Option.some.inj h).symm⟩
      · by_cases hv : kheapStart ≤ v ∧ v < kheapStart + kheapInitSize
        · rw [hheap v hv.1 hv.2] at h
          exact .inr ⟨hv, (Option.some.inj h).symm⟩
        · rw [M.nothing v (by omega) hv] at h
          cases h
    have hframe : ∀ v, kheapStart ≤ v → v < kheapStart + kheapInitSize →
        identityEnd p ≤ fs.getD (fs.length - 1 - (v - kheapStart) / 4096) 0 ∧
          fs.getD (fs.length - 1 - (v - kheapStart) / 4096) 0 % 4096 = 0 := fun v hv hv' =>
      ⟨hhigh _ (by omega), (hal _ (getD_mem (by omega))).1⟩
    refine ⟨fun v hv hv' => ⟨_, getD_mem (by omega), hheap v hv hv'⟩, fun v v' a h h' => ?_⟩
    rcases hcase v a h with ⟨hlow, rfl⟩ | ⟨hv, ha⟩
    · rcases hcase v' a h' with ⟨-, rfl⟩ | ⟨hv', ha'⟩
      · rfl
      · have := hframe v' hv'.1 hv'.2
        omega
    · rcases hcase v' a h' with ⟨hlow', rfl⟩ | ⟨hv', ha'⟩
      · have := hframe v hv.1 hv.2
        omega
      · have hf := hframe v hv.1 hv.2
        have hf' := hframe v' hv'.1 hv'.2
        -- the same frame, so the same slot
        have hslot : fs.length - 1 - (v - kheapStart) / 4096 =
            fs.length - 1 - (v' - kheapStart) / 4096 := by
          refine getD_inj hnd (by omega) (by omega) ?_
          omega
        omega

/-! ## After `init_pmm` -/

/-- What is pushed are addresses of frames. -/
lemma mmapLoop_aligned {n mmap kernEnd stop : Nat} {w w' : Walk} (hk : w.st.kheapInit = false)
    (h : mmapLoop alloc kernEnd stop n mmap w = .ok w')
    (hw : ∀ f ∈ w.pushed, f % 4096 = 0 ∧ f < 0xFFFFF000) :
    ∀ f ∈ w'.pushed, f % 4096 = 0 ∧ f < 0xFFFFF000 := by
  induction n generalizing mmap w with
  | zero => cases h
  | succ n ih =>
    rw [mmapLoop] at h
    split_ifs at h with hlt
    · obtain ⟨w₁, h₁, h⟩ := bind_ok.mp h
      obtain ⟨e, he⟩ : ∃ e, e = readMemmap w.st.heap.mem
        (u32 (mmap + readWord w.st.heap.mem mmap + 4)) := ⟨_, rfl⟩
      obtain ⟨fs, hr, -, hfs⟩ := pushRegion_spec alloc
        { w with reads := w.reads ++ [mmap, u32 (mmap + readWord w.st.heap.mem mmap + 4)] } hk
        kernEnd e
      rw [he] at hr hfs
      obtain rfl := Except.ok.inj (hr.symm.trans h₁)
      refine ih (by simpa [Walk.pushes] using hk) h fun f hf => ?_
      rcases List.mem_append.mp hf with hf | hf
      · exact hw f hf
      · rw [← he] at hfs
        obtain ⟨-, hmod, -, -, hlast⟩ := (hfs.mem_iff f).mp hf
        have hend := allocEnd_mod e
        have hbound : sub32 (allocEnd e) 0x1000 ≤ 0xFFFFF000 := by
          have := sub32_lt (allocEnd e) 0x1000
          unfold sub32 at *
          omega
        exact ⟨hmod, by omega⟩
    · cases h
      exact hw

/-- Pushes leave the tables. -/
lemma tables_places (fs : List Nat) : (fs.foldl State.place s).tables = s.tables := by
  induction fs generalizing s with
  | nil => rfl
  | cons f fs ih => exact ih

/-- What `init_pmm` leaves. -/
lemma initPmm_stock {n kernEnd : Nat} {mbi : MultibootInfo} {w : Walk} (hk : s.kheapInit = false)
    (hr : initPmm alloc n s mbi kernEnd = .ok w) (hne : w.pushed ≠ [])
    (hfit : kernEnd + 4 * w.pushed.length < 4294967296) :
    Stock w.st w.pushed ∧ w.st.tables = s.tables ∧
      w.st.placementAddr = kernEnd + 4 * w.pushed.length := by
  obtain ⟨hslots, -⟩ := initPmm_slots hk hr (by omega) (by omega)
  have hplace : w.st.placementAddr = kernEnd + 4 * w.pushed.length := by
    rw [hslots.placement, u32_eq hfit]
  obtain ⟨htab, hal⟩ : w.st.tables = s.tables ∧
      ∀ f ∈ w.pushed, f % 4096 = 0 ∧ f < 0xFFFFF000 := by
    rw [initPmm] at hr
    split_ifs at hr
    · obtain ⟨fs, hst, -, -⟩ := mmapLoop_places hk hr
      exact ⟨by rw [hst, tables_places], mmapLoop_aligned hk hr (by simp)⟩
    · cases hr
      exact ⟨rfl, by simp⟩
  refine ⟨⟨hslots.init, ?_, fun k hk => ?_, ?_, hne, hal⟩, htab, hplace⟩
  · rw [hslots.bottom]
    exact hslots.top (List.length_pos_iff.mpr hne)
  · rw [hslots.bottom, List.getD_eq_getElem?_getD, List.getElem?_eq_getElem hk]
    exact hslots.slot k _ (List.getElem?_eq_getElem hk)
  · rw [hslots.bottom, hplace]

end

/-- Whatever `init_pmm` pushes: `init_paging` then maps the kernel with the frame stack to itself, nothing
beyond, and the heap to what the stack returns. This backs the heap, with a frame for each page that
nothing else is in, exactly when more than 4096 frames are on the stack and the 4096 on top lie behind
what is mapped to itself. -/
theorem initPaging_backed_iff (s : State) (mbi : MultibootInfo) (kernEnd n : Nat) (w : Walk)
    (hk : s.kheapInit = false) (hr : initPmm alloc n s mbi kernEnd = .ok w)
    (hne : w.pushed ≠ []) (hnd : w.pushed.Nodup) (hz : ∀ k, s.tables k = 0)
    (hfit : identityEnd (kernEnd + 4 * w.pushed.length) ≤ kheapStart) :
    ∃ s', mapKernel w.st = .ok (s', kernEnd + 4 * w.pushed.length) ∧
      Mapped s' (kernEnd + 4 * w.pushed.length) w.pushed ∧
      (Backed s' w.pushed ↔ 4096 < w.pushed.length ∧ ∀ j < 4096,
        identityEnd (kernEnd + 4 * w.pushed.length) ≤ w.pushed.getD (w.pushed.length - 1 - j) 0) := by
  have hstart : kheapStart = 0xC0000000 := rfl
  obtain ⟨S, htab, hplace⟩ := initPmm_stock hk hr hne (by unfold identityEnd at hfit; omega)
  rw [← hplace] at hfit ⊢
  obtain ⟨s', hr', M⟩ := mapKernel_mapped S (fun k => by rw [htab, hz]) hfit
  exact ⟨s', hr', M, M.backed_iff hnd S.aligned hfit⟩

/-- A machine with three free frames: the heap is not backed. -/
theorem initPaging_backed_iff_three : ∃ w, initPmm alloc 3 twoRegions twoRegionsInfo 0x180000 = .ok w ∧
    ∃ s', mapKernel w.st = .ok (s', 0x180000 + 4 * w.pushed.length) ∧
      Mapped s' (0x180000 + 4 * w.pushed.length) w.pushed ∧
      (Backed s' w.pushed ↔ 4096 < w.pushed.length ∧ ∀ j < 4096,
        identityEnd (0x180000 + 4 * w.pushed.length) ≤
          w.pushed.getD (w.pushed.length - 1 - j) 0) := by
  obtain ⟨w, hr, hp, -⟩ := twoRegions_walk
  refine ⟨w, hr, initPaging_backed_iff twoRegions twoRegionsInfo 0x180000 3 w rfl hr ?_ ?_
    (fun _ => rfl) ?_⟩
  · rw [hp]
    decide
  · rw [hp]
    decide
  · rw [hp]
    decide

/-! ## The bins of the heap -/

section
variable {h h' : Heap} {i k : Fin binCnt} {a start stop : Nat}

/-- `add_node` changes the head of no other bin. -/
lemma bins_addNode (hr : addNode h i a = .ok h') (hk : k ≠ i) : h'.bins k = h.bins k := by
  rw [addNode, addBlockSorted] at hr
  split_ifs at hr
  · cases hr
    rw [bins_setHead_ne hk]
    rfl
  · obtain ⟨⟨prev, temp⟩, -, hr⟩ := bind_ok.mp hr
    cases hr
    rw [linkBetween]
    split_ifs
    · rfl
    · rfl
    · rw [bins_setHead_ne hk]
      rfl

/-- The bin of the block that `init_heap` makes. -/
lemma initBlock_index (hfit : start + 0x1000000 ≤ 4294967296)
    (he : h' = (setHole h start 1).setSize start 16777196) :
    (getBinIndex ((createFoot h' start).size start)).val = 8 := by
  have hsize : h'.size start = 16777196 := he ▸ size_setSize (by omega) (by decide)
  have hblock : blockSz = 16 := rfl
  have hfoot : getFoot h' start = start + 0xFFFFFC := by
    rw [getFoot, hsize, u32_eq (by omega)]
    omega
  have hkept : (createFoot h' start).size start = h'.size start := by
    rw [createFoot, hfoot]
    refine (Edit.setHeader (by omega)).size (by omega) fun x hx => ?_
    unfold Bytes at *
    omega
  rw [hkept, hsize]
  decide

/-- `init_heap` returns if the last bin is empty, and changes the head of that bin only. -/
lemma initHeap_bins (hfit : start + 0x1000000 ≤ 4294967296) :
    (∀ h', initHeap h start stop = .ok h' → h'.start = start ∧
      ∀ k : Fin binCnt, k.val ≠ 8 → h'.bins k = h.bins k) ∧
    ((∀ k : Fin binCnt, k.val = 8 → h.bins k = 0) → ∃ h', initHeap h start stop = .ok h') := by
  have hinit : 0x1000000 - blockSz - footerSz = 16777196 := rfl
  rw [initHeap, hinit]
  obtain ⟨h₂, eh₂⟩ : ∃ h₂, h₂ = (setHole h start 1).setSize start 16777196 := ⟨_, rfl⟩
  have hbins : (createFoot h₂ start).bins = h.bins := by
    rw [eh₂]
    rfl
  have hindex := initBlock_index hfit eh₂
  rw [← eh₂, ← hbins]
  obtain ⟨i, hi⟩ : ∃ i, i = getBinIndex ((createFoot h₂ start).size start) := ⟨_, rfl⟩
  rw [← hi] at hindex ⊢
  constructor
  · intro h' hr
    obtain ⟨u, hadd, hr⟩ := bind_ok.mp hr
    cases hr
    refine ⟨rfl, fun k hk => ?_⟩
    show u.bins k = _
    exact bins_addNode hadd fun he => hk (he ▸ hindex)
  · intro hzero
    have hadd : addNode (createFoot h₂ start) i start =
        .ok ((clearLinks (createFoot h₂ start) start).setHead i start) := by
      rw [addNode, addBlockSorted]
      exact if_pos (hzero i hindex)
    exact ⟨_, bind_ok.mpr ⟨_, hadd, rfl⟩⟩

end

/-- The loop of `init_paging` makes eleven bins for an array of nine, and the tenth is stored over the head
of the first. So after every boot the first bin of the heap begins with a node in the kernel's data, and
no blocks with these bins are the heap. -/
theorem initPaging_not_rep (s : State) (mbi : MultibootInfo) (kernEnd n : Nat) (w : Walk)
    (hk : s.kheapInit = false) (hr : initPmm alloc n s mbi kernEnd = .ok w)
    (hne : w.pushed ≠ []) (hz : ∀ k, s.tables k = 0)
    (hfit : identityEnd (kernEnd + 4 * w.pushed.length) ≤ kheapStart) :
    (∀ t, initPaging w.st = .ok t →
      t.heap.bins ⟨0, by decide⟩ = kernEnd + 4 * w.pushed.length + 124 ∧
        ¬ ∃ bs L, Rep t.heap bs L) ∧
    (readWord w.st.heap.mem (kernEnd + 4 * w.pushed.length + 116) = 0 →
      ∃ t, initPaging w.st = .ok t) := by
  have hstart : kheapStart = 0xC0000000 := rfl
  obtain ⟨S, htab, hplace⟩ := initPmm_stock hk hr hne (by unfold identityEnd at hfit; omega)
  rw [← hplace] at hfit ⊢
  obtain ⟨s', hmap, -, -, hslots, hmem⟩ := mapKernel_spec S (fun k => by rw [htab, hz]) hfit
  obtain ⟨p, hp⟩ : ∃ p, p = w.st.placementAddr := ⟨_, rfl⟩
  rw [← hp] at hfit hmap hslots hmem ⊢
  unfold identityEnd at hfit
  have hbin : ∀ k : Fin binCnt, readWord s'.heap.mem (binSlot p k) = p + 52 + 8 * k := by
    intro k
    have hlt : k.val < 9 := k.isLt
    rw [binSlot, u32_eq (by omega), hslots k (by omega)]
  constructor
  · intro t ht
    obtain ⟨⟨s₁, heap⟩, hmap', ht⟩ := bind_ok.mp ht
    obtain ⟨rfl, rfl⟩ := Prod.mk.inj (Except.ok.inj (hmap'.symm.trans hmap))
    obtain ⟨h, hinit, ht⟩ := bind_ok.mp ht
    cases ht
    obtain ⟨hs, hbins⟩ := (initHeap_bins (by decide)).1 h hinit
    have hzero : h.bins ⟨0, by decide⟩ = heap + 124 := by
      rw [hbins ⟨0, by decide⟩ (by decide)]
      show readWord _ (readWord _ _) = _
      -- the head of the first bin is the tenth pointer
      rw [hbin]
      have h := hslots 9 (by decide)
      rw [show heap + 52 + 8 * 0 = heap + 16 + 4 * 9 by omega, h]
    refine ⟨hzero, fun ⟨bs, L, R⟩ => ?_⟩
    have R : Rep h bs L := R
    cases hL : L ⟨0, by decide⟩ with
    | nil =>
      have hchain := (R.bin ⟨0, by decide⟩).chain
      rw [hL, hzero] at hchain
      cases hchain
    | cons a l =>
      have hchain := (R.bin ⟨0, by decide⟩).chain
      rw [hL, hzero] at hchain
      obtain ⟨b, hb, hba, -⟩ := R.free ⟨0, by decide⟩ a (by rw [hL]; exact List.mem_cons_self)
      have := (R.bounds hb).1
      have : a = heap + 124 := hchain.1.symm
      omega
  · intro hblank
    have hzero : ∀ k : Fin binCnt, k.val = 8 →
        ({ s'.heap with bins := loadBins s'.heap.mem p } : Heap).bins k = 0 := fun k hk => by
      show readWord _ (readWord _ _) = 0
      rw [hbin, hk, hmem _ (by omega) (by omega)]
      exact hblank
    have hinit : ∃ h, initHeap { s'.heap with bins := loadBins s'.heap.mem p } kheapStart
        (kheapStart + kheapInitSize) = .ok h := (initHeap_bins (by decide)).2 hzero
    obtain ⟨h, hinit⟩ := hinit
    exact ⟨_, bind_ok.mpr ⟨_, hmap, bind_ok.mpr ⟨h, hinit, rfl⟩⟩⟩

/-- On a machine with three free frames. -/
theorem initPaging_not_rep_three : ∃ w, initPmm alloc 3 twoRegions twoRegionsInfo 0x180000 = .ok w ∧
    (∀ t, initPaging w.st = .ok t →
      t.heap.bins ⟨0, by decide⟩ = 0x180000 + 4 * w.pushed.length + 124 ∧
        ¬ ∃ bs L, Rep t.heap bs L) ∧
    (readWord w.st.heap.mem (0x180000 + 4 * w.pushed.length + 116) = 0 →
      ∃ t, initPaging w.st = .ok t) := by
  obtain ⟨w, hr, hp, -⟩ := twoRegions_walk
  refine ⟨w, hr, initPaging_not_rep twoRegions twoRegionsInfo 0x180000 3 w rfl hr ?_ (fun _ => rfl) ?_⟩
  · rw [hp]
    decide
  · rw [hp]
    decide

end ToeS.V1
