import ToeS.Kheap.Safety

/-!
# `kheap_alloc_a`

The aligned allocation of `kern/mm/kheap.c` cuts the last block of the heap in three: a chunk up to
the next page boundary, the block given back, and the new last block. It does so without looking at
the last block: whether it is free, whether the chunk has room for its own header and links, and
whether the block is large enough. The other path, for a last block on a boundary, is never taken:
its test joins the address and the mask with the logical operator.

With room for the three blocks in a free last block (`RoomForPage`) the invariant is kept
(`kheapAllocA_spec`).
-/

namespace ToeS.Kheap
open Lib

/-- From a header to the next page boundary above it. -/
def extraAt (wild : Nat) : Nat := 4096 - wild % 4096

/-- There is a byte at least to the next page, and a page at most. -/
lemma extraAt_le (wild : Nat) : 0 < extraAt wild ∧ extraAt wild ≤ 4096 := by
  unfold extraAt
  omega

/-- The three blocks the last block is cut into. -/
def chunk (w : Blk) : Blk := ⟨w.addr, extraAt w.addr - 28, false⟩
def given (w : Blk) (size : Nat) : Blk := ⟨w.addr + extraAt w.addr - 8, size, true⟩
def rest (w : Blk) (size : Nat) : Blk :=
  ⟨w.addr + extraAt w.addr + size + 12, w.size - extraAt w.addr - size - 12, false⟩

section
variable {h : Heap} {pre : List Blk} {w : Blk} {L : Fin binCnt → List Nat} {size : Nat}

/-- The last block never passes for one on a page boundary. -/
lemma not_onBoundary {wild : Nat} (h₁ : kheapStart ≤ wild) (h₂ : wild ≤ kheapEnd) :
    onBoundary wild = false := by
  rw [kheapStart_eq] at h₁
  rw [kheapEnd_eq] at h₂
  have : u32 (wild + 8) ≠ 0 := by
    rw [u32_eq (by omega)]
    omega
  simp [onBoundary, this]

/-- Taking the last block out of its bin, if it is in one. -/
lemma wild_out (R : Rep h (pre ++ [w]) L) :
    ∃ h' L', removeBlock (h.setHole w.addr 1) (getBinIndex ((h.setHole w.addr 1).size w.addr))
        w.addr = .ok h' ∧ Bins h' L' ∧ (∀ k a, a ∈ L' k ↔ FreeAt pre k a) ∧ Sorted h'.size L' ∧
      Edit (fun x => w.Inside x ∨ Links L x) h h' := by
  have hwm : w ∈ pre ++ [w] := by simp
  have hbw := R.bounds hwm
  have hlt := w.addr_lt_stop
  obtain ⟨h₁, eh₁⟩ : ∃ h₁, h₁ = h.setHole w.addr 1 := ⟨_, rfl⟩
  have e₁ : Edit (Bytes w.addr (w.addr + 1)) h h₁ := eh₁ ▸ .setHole (by omega)
  have R₁ : Rep h₁ (pre ++ [w]) L := by
    refine R.edit e₁ (by rw [eh₁]; rfl) ?_ ?_
    · intro c hc x hx hw
      have := R.apart hwm hc
      unfold Blk.Fields Blk.foot Blk.stop Bytes at *
      rcases this with rfl | h | h <;> omega
    · intro x hx hw
      have hxa : x = w.addr := by unfold Bytes at hw; omega
      exact R.addr_not_links hwm (hxa ▸ hx)
  have hfree : ∀ k a, a ∈ L k → a ≠ w.addr → FreeAt pre k a := by
    intro k a ha hne
    rcases freeAt_middle.mp ((R.mem_iff k a).mp ha) with h | ⟨rfl, -⟩
    · rwa [List.append_nil] at h
    · exact absurd rfl hne
  have hpre : ∀ k a, FreeAt pre k a → a ∈ L k ∧ a ≠ w.addr := by
    rintro k a ⟨c, hc, rfl, h⟩
    refine ⟨(R.mem_iff k _).mpr ⟨c, by simp [hc], rfl, h⟩, fun e => ?_⟩
    have := R.around (b := w) (c := c) (by simp [hc])
    have := c.addr_lt_stop
    omega
  have hw₁ : ∀ x, Bytes w.addr (w.addr + 1) x → w.Inside x ∨ Links L x := by
    intro x hx
    left
    unfold Blk.Inside Bytes at *
    omega
  rw [← eh₁, (R₁.inMem w hwm).size]
  cases hf : w.live with
  | false =>
    obtain ⟨h₂, L', hrun, hB, hmem, hsort, e₂, -⟩ := R₁.bins.remove (R₁.mem_bin hwm hf)
    refine ⟨h₂, L', hrun, hB, fun k a => ?_, ?_,
      (e₁.mono hw₁).trans (e₂.mono fun _ => .inr)⟩
    · rw [hmem]
      exact ⟨fun ⟨ha, hne⟩ => hfree k a ha hne, hpre k a⟩
    · refine (hsort _ R₁.sorted).congr fun k a ha => ?_
      obtain ⟨c, hc, rfl⟩ := R₁.blk_of_mem k a ((hmem k a).mp ha).1
      have := R₁.bounds hc
      have := c.addr_lt_stop
      refine e₂.size (by omega) fun x hx => R₁.fields_not_links hc (.inl hx)
  | true =>
    have hnot := R₁.not_mem_bin hwm hf
    refine ⟨h₁, L, removeBlock_not_mem (R₁.bin _) (R₁.bins.fits _) (hnot _), R₁.bins,
      fun k a => ⟨fun ha => hfree k a ha ?_, fun ha => (hpre k a ha).1⟩, R₁.sorted, e₁.mono hw₁⟩
    rintro rfl
    exact hnot k ha

/-- The chunk up to the boundary goes into its bin when it has room for header and links. -/
lemma carveHead_spec (hB : Bins h L) (hs : Sorted h.size L) (hx : 28 ≤ extraAt w.addr)
    (hlo : kheapStart ≤ w.addr) (hhi : w.addr + extraAt w.addr ≤ kheapEnd)
    (hoff : ∀ k, ∀ a ∈ L k, a + 16 ≤ w.addr) :
    ∃ h' L', carveHead h w.addr = .ok h' ∧ Bins h' L' ∧
      (∀ k a, a ∈ L' k ↔ a ∈ L k ∨ a = w.addr ∧ k = getBinIndex (chunk w).size) ∧
      Sorted h'.size L' ∧ (chunk w).InMem h' ∧ h'.hole w.addr = 1 ∧
      Edit (fun x => (chunk w).Inside x ∨ Links L x) h h' := by
  have hle := extraAt_le w.addr
  rw [kheapStart_eq] at hlo
  rw [kheapEnd_eq] at hhi
  have ca : (chunk w).addr = w.addr := rfl
  have cs : (chunk w).size = extraAt w.addr - 28 := rfl
  have cstop : (chunk w).stop = w.addr + extraAt w.addr - 8 := by unfold Blk.stop; omega
  have hextra : sub32 pgSz (w.addr &&& 0x00000FFF) = extraAt w.addr := by
    have : w.addr &&& 4095 = w.addr % 4096 := Nat.and_two_pow_sub_one_eq_mod w.addr 12
    rw [pgSz_eq, this, sub32_eq (by omega) (by omega)]
    rfl
  have hsz : sub32 (sub32 (extraAt w.addr) blckOverhead) 8 = (chunk w).size := by
    rw [blckOverhead_eq, sub32_eq (a := extraAt w.addr) (by omega) (by omega),
      sub32_eq (by omega) (by omega), cs]
    omega
  obtain ⟨h₁, eh₁⟩ : ∃ h₁, h₁ = (createFoot (h.setSize (chunk w).addr (chunk w).size)
      (chunk w).addr).setHole (chunk w).addr 1 := ⟨_, rfl⟩
  obtain ⟨h', L', hrun, hB', hmem, hs', hin, ho, e, -⟩ :=
    hB.make hs (stamp_spec' (by omega) eh₁) (by omega) (by omega)
      fun k a ha => .inl (hoff k a ha)
  refine ⟨h', L', ?_, hB', hmem, hs', hin, ho, e⟩
  rw [← hrun, eh₁, carveHead]
  simp only [hextra, hsz]
  rfl

/-- The block given back and the new last block. -/
lemma carveTail_spec (hB : Bins h L) (hs : Sorted h.size L)
    (hroom : extraAt w.addr + size + 12 ≤ w.size) (hlo : kheapStart ≤ w.addr)
    (hhi : w.stop ≤ kheapEnd) (hsz : h.size w.addr = extraAt w.addr - 28)
    (hx : 28 ≤ extraAt w.addr) (hoff : ∀ k, ∀ a ∈ L k, a + 16 ≤ (given w size).addr) :
    ∃ h' L', carveTail h w.addr (given w size).addr w.size size = .ok h' ∧ Bins h' L' ∧
      (∀ k a, a ∈ L' k ↔ a ∈ L k ∨ a = (rest w size).addr ∧ k = getBinIndex (rest w size).size) ∧
      Sorted h'.size L' ∧ (given w size).InMem h' ∧ h'.hole (given w size).addr = 0 ∧
      (rest w size).InMem h' ∧ h'.hole (rest w size).addr = 1 ∧
      Edit (fun x => (given w size).Inside x ∨ (rest w size).Inside x ∨ Links L x) h h' := by
  have hle := extraAt_le w.addr
  rw [kheapStart_eq] at hlo
  rw [kheapEnd_eq] at hhi
  obtain ⟨r, hr⟩ : ∃ r, r = given w size := ⟨_, rfl⟩
  obtain ⟨n, hn⟩ : ∃ n, n = rest w size := ⟨_, rfl⟩
  rw [← hr] at hoff ⊢
  rw [← hn]
  have ra : r.addr = w.addr + extraAt w.addr - 8 := by rw [hr]; rfl
  have rs : r.size = size := by rw [hr]; rfl
  have na : n.addr = w.addr + extraAt w.addr + size + 12 := by rw [hn]; rfl
  have ns : n.size = w.size - extraAt w.addr - size - 12 := by rw [hn]; rfl
  have hws : w.stop = w.addr + w.size + 20 := rfl
  have rstop : r.stop = n.addr := by unfold Blk.stop; omega
  have nstop : n.stop = w.stop := by unfold Blk.stop; omega
  have hrfit : r.stop ≤ 4294967296 := by omega
  have hnfit : n.stop ≤ 4294967296 := by omega
  have hnpos : n.addr ≠ 0 := by omega
  -- the block given back
  obtain ⟨h₁, eh₁⟩ : ∃ h₁, h₁ =
      (createFoot (h.setSize r.addr r.size) r.addr).setHole r.addr 0 := ⟨_, rfl⟩
  obtain ⟨m₁, o₁, e₁, b₁⟩ := stamp_spec' hrfit eh₁
  obtain ⟨hB₁, hs₁⟩ := hB.edit_off e₁ b₁ fun k a ha => .inl (hoff k a ha)
  have hw₁ : h₁.size w.addr = extraAt w.addr - 28 := by
    rw [e₁.size (by omega), hsz]
    unfold Blk.Inside Bytes
    omega
  have haddr : u32 (r.addr + size + blckOverhead) = n.addr := by
    unfold Blk.stop at *
    rw [blckOverhead_eq, u32_eq (by omega)]
    omega
  have hsize : sub32 (sub32 (sub32 w.size (h₁.size w.addr)) (h₁.size r.addr)) (2 * blckOverhead) =
      n.size := by
    unfold Blk.stop at *
    rw [hw₁, m₁.size, rs, blckOverhead_eq, sub32_eq (a := w.size) (by omega) (by omega),
      sub32_eq (b := size) (by omega) (by omega), sub32_eq (by omega) (by omega), ns]
    omega
  -- the new last block
  obtain ⟨h₂, eh₂⟩ : ∃ h₂, h₂ = createFoot ((h₁.setSize n.addr n.size).setHole n.addr 1) n.addr :=
    ⟨_, rfl⟩
  obtain ⟨h', L', hrun, hB', hmem, hs', hin, ho, e, -⟩ :=
    hB₁.make (hs₁ hs) (stamp_spec hnfit eh₂) hnfit hnpos fun k a ha => by
      have := hoff k a ha
      have := r.addr_lt_stop
      exact .inl (by omega)
  have hr' : ∀ x, r.Fields x ∨ x = r.addr → ¬ (n.Inside x ∨ Links L x) := by
    rintro x hx (hw | ⟨k, a, ha, hw⟩)
    · unfold Blk.Fields Blk.foot Blk.Inside Blk.stop Bytes at *
      omega
    · have := hoff k a ha
      unfold Blk.Fields Blk.foot Blk.stop Bytes at *
      omega
  refine ⟨h', L', ?_, hB', hmem, hs', ?_, ?_, hin, ho,
    (e₁.mono fun _ => .inl).trans (e.mono fun _ => .inr)⟩
  · rw [← hrun, carveTail]
    simp only [rs] at eh₁
    simp only [← eh₁, haddr, hsize, ← eh₂]
  · exact m₁.edit e hrfit fun x hx => hr' x (.inl hx)
  · rw [e.hole (by omega) (hr' _ (.inr rfl)), o₁]

/-- The end of the heap is on a page boundary, so the boundary above the last block is in the heap. -/
lemma extraAt_fits (R : Rep h (pre ++ [w]) L) :
    kheapStart ≤ w.addr ∧ w.addr + extraAt w.addr ≤ kheapEnd ∧ w.stop = kheapEnd := by
  have hbw := R.bounds (b := w) (by simp)
  have hlt := w.addr_lt_stop
  have hstop : w.stop = kheapEnd := (tiles_middle.mp R.tiles).2
  refine ⟨hbw.1, ?_, hstop⟩
  rw [kheapEnd_eq] at *
  unfold extraAt
  omega

/-- `kheap_alloc_a` up to the chunk: the last block is out of its bin, the chunk is in one. -/
lemma carve_chunk (R : Rep h (pre ++ [w]) L) (hx : 28 ≤ extraAt w.addr) :
    ∃ h₁ h₂ L₂, removeBlock (h.setHole w.addr 1) (getBinIndex ((h.setHole w.addr 1).size w.addr))
        w.addr = .ok h₁ ∧ carveHead h₁ w.addr = .ok h₂ ∧ Bins h₂ L₂ ∧
      (∀ k a, a ∈ L₂ k ↔ FreeAt (pre ++ [chunk w]) k a) ∧ Sorted h₂.size L₂ ∧
      (chunk w).InMem h₂ ∧ h₂.hole w.addr = 1 ∧
      u32 (w.addr + h₂.size w.addr + blckOverhead) = w.addr + extraAt w.addr - 8 ∧
      Edit (fun x => w.Inside x ∨ Links L x) h h₂ := by
  obtain ⟨hlo, hhi, hstop⟩ := extraAt_fits R
  obtain ⟨h₁, L₁, hrun₁, hB₁, hmem₁, hs₁, e₁⟩ := wild_out R
  have hoff : ∀ k, ∀ a ∈ L₁ k, a + 16 ≤ w.addr := by
    intro k a ha
    obtain ⟨c, hc, rfl, -⟩ := (hmem₁ k a).mp ha
    have := (R.tiles.around Blk.addr_lt_stop).1 c hc
    unfold Blk.stop at this
    omega
  obtain ⟨h₂, L₂, hrun₂, hB₂, hmem₂, hs₂, hin, ho, e₂⟩ := carveHead_spec hB₁ hs₁ hx hlo hhi hoff
  have hcs : h₂.size w.addr = extraAt w.addr - 28 := hin.size
  have hlinks : ∀ x, Links L₁ x → Links L x := by
    rintro x ⟨k, a, ha, hx⟩
    obtain ⟨c, hc, rfl, h⟩ := (hmem₁ k a).mp ha
    exact ⟨k, _, (R.mem_iff k _).mpr ⟨c, by simp [hc], rfl, h⟩, hx⟩
  refine ⟨h₁, h₂, L₂, hrun₁, hrun₂, hB₂, fun k a => ?_, hs₂, hin, ho, ?_, e₁.trans (e₂.mono ?_)⟩
  · rw [hmem₂, hmem₁, freeAt_middle, List.append_nil]
    refine or_congr_right ⟨?_, ?_⟩
    · rintro ⟨rfl, rfl⟩
      exact ⟨rfl, rfl, rfl⟩
    · rintro ⟨rfl, -, rfl⟩
      exact ⟨rfl, rfl⟩
  · have := extraAt_le w.addr
    rw [kheapEnd_eq] at hhi
    rw [hcs, blckOverhead_eq, u32_eq (by omega)]
    omega
  · rintro x (hx' | hx')
    · left
      have hc : (chunk w).stop = w.addr + (extraAt w.addr - 28) + 20 := rfl
      have ha : (chunk w).addr = w.addr := rfl
      rw [kheapEnd_eq] at *
      unfold Blk.Inside Bytes at *
      omega
    · exact .inr (hlinks x hx')

/-- Where the chunk has room, what `kheap_alloc_a` returns is the page boundary above the last
block. -/
lemma kheapAllocA_ptr {p : Nat} {h' : Heap} (R : Rep h (pre ++ [w]) L) (hx : 28 ≤ extraAt w.addr)
    (hwild : getWilderness h = w.addr) (hrun : kheapAllocA h size = .ok (p, h')) :
    p = w.addr + extraAt w.addr := by
  obtain ⟨hlo, hhi, -⟩ := extraAt_fits R
  have hle := extraAt_le w.addr
  obtain ⟨h₁, h₂, L₂, hrun₁, hrun₂, -, -, -, -, -, hret, -⟩ := carve_chunk R hx
  have hb := not_onBoundary hlo (by omega)
  rw [kheapEnd_eq] at hhi
  simp only [kheapAllocA, hwild, hrun₁, bind, Except.bind, hb, carveOff, hrun₂, hret] at hrun
  cases ht : carveTail h₂ w.addr (w.addr + extraAt w.addr - 8) (h.size w.addr) size with
  | error e =>
    rw [ht] at hrun
    simp at hrun
  | ok h₃ =>
    rw [ht] at hrun
    simp only [pure, Except.pure, Bool.false_eq_true, not_false_eq_true, if_true, Except.ok.injEq,
      Prod.mk.injEq] at hrun
    rw [← hrun.1, u32_eq (by unfold offset; omega)]
    unfold offset
    omega

/-- The three blocks tile the last one. -/
lemma cut_tiles (hx : 28 ≤ extraAt w.addr) (hroom : extraAt w.addr + size + 12 ≤ w.size) :
    Tiles Blk.addr Blk.stop w.addr [chunk w, given w size, rest w size] w.stop := by
  have h₁ : (given w size).addr = (chunk w).stop := by
    show w.addr + extraAt w.addr - 8 = w.addr + (extraAt w.addr - 28) + 20
    omega
  have h₂ : (rest w size).addr = (given w size).stop := by
    show w.addr + extraAt w.addr + size + 12 = w.addr + extraAt w.addr - 8 + size + 20
    omega
  have h₃ : (rest w size).stop = w.stop := by
    show w.addr + extraAt w.addr + size + 12 + (w.size - extraAt w.addr - size - 12) + 20 =
      w.addr + w.size + 20
    omega
  exact ⟨rfl, h₁, h₂, h₃⟩

/-- `kheap_alloc_a` with room for the three blocks in the last block, live or not: it returns the
page boundary above that block's header, keeps the invariant and writes only there and in links. -/
theorem kheapAllocA_spec (R : Rep h (pre ++ [w]) L) (hx : 28 ≤ extraAt w.addr) (hroom : extraAt w.addr + size + 12 ≤ w.size)
    (hwild : getWilderness h = w.addr) :
    ∃ h' L', kheapAllocA h size = .ok (w.addr + extraAt w.addr, h') ∧
      Rep h' (pre ++ [chunk w, given w size, rest w size]) L' ∧
      Edit (fun x => w.Inside x ∨ Links L x) h h' ∧
      Holes h' [chunk w, given w size, rest w size] ∧
      ∀ x, Bytes (w.addr + extraAt w.addr) (w.addr + extraAt w.addr + size + 8) x →
        h'.mem x = 0 := by
  obtain ⟨hlo, hhi, hstop⟩ := extraAt_fits R
  have hle := extraAt_le w.addr
  obtain ⟨h₁, h₂, L₂, hrun₁, hrun₂, hB₂, hmem₂, hs₂, hin₂, ho₂, hret, e₂⟩ := carve_chunk R hx
  have ht := cut_tiles hx hroom
  obtain ⟨d, hd⟩ : ∃ d, d = chunk w := ⟨_, rfl⟩
  obtain ⟨r, hr⟩ : ∃ r, r = given w size := ⟨_, rfl⟩
  obtain ⟨n, hn⟩ : ∃ n, n = rest w size := ⟨_, rfl⟩
  have da : d.addr = w.addr := by rw [hd]; rfl
  have dl : d.live = false := by rw [hd]; rfl
  have ra : r.addr = w.addr + extraAt w.addr - 8 := by rw [hr]; rfl
  have rs : r.size = size := by rw [hr]; rfl
  have rl : r.live = true := by rw [hr]; rfl
  have nl : n.live = false := by rw [hn]; rfl
  rw [← hd, ← hr, ← hn] at ht ⊢
  rw [← hd] at hmem₂ hin₂
  have T : Tiles Blk.addr Blk.stop kheapStart (pre ++ [d, r, n]) kheapEnd := by
    obtain ⟨t₁, -⟩ := tiles_middle.mp R.tiles
    exact tiles_append.mpr ⟨_, t₁, hstop ▸ ht⟩
  have hadj : d.addr = w.addr ∧ r.addr = d.stop ∧ n.addr = r.stop ∧ n.stop = w.stop := ht
  obtain ⟨-, hdr, hrn, hnw⟩ := hadj
  have hrstop : r.stop = r.addr + size + 20 := by rw [Blk.stop, rs]
  have hnlt := n.addr_lt_stop
  rw [kheapStart_eq] at hlo
  rw [kheapEnd_eq] at hstop hhi
  have hpre : ∀ c ∈ pre, c.stop ≤ w.addr := (R.tiles.around Blk.addr_lt_stop).1
  have hoff₂ : ∀ k, ∀ a ∈ L₂ k, a + 16 ≤ r.addr := by
    intro k a ha
    obtain ⟨c, hc, rfl, -⟩ := (hmem₂ k a).mp ha
    have hcr : c.stop ≤ r.addr := by
      rcases List.mem_append.mp hc with hc | hc
      · have := hpre c hc
        omega
      · rw [List.mem_singleton.mp hc, hdr]
    unfold Blk.stop at hcr
    omega
  have hcs : h₂.size w.addr = extraAt w.addr - 28 := by
    have := hin₂.size
    rw [da] at this
    rw [this, hd]
    rfl
  obtain ⟨h₃, L₃, hrun₃, hB₃, hmem₃, hs₃, hinr, hor, hinn, hon, e₃⟩ :=
    carveTail_spec hB₂ hs₂ hroom (by rw [kheapStart_eq]; omega)
      (by rw [kheapEnd_eq]; omega) hcs hx (hr ▸ hoff₂)
  rw [← hr] at hrun₃ hinr hor e₃
  rw [← hn] at hmem₃ hinn hon e₃
  -- the payload is zeroed
  obtain ⟨h₄, eh₄⟩ : ∃ h₄, h₄ = { h₃ with mem := memset h₃.mem (r.addr + 8) 0 (size + 8) } := ⟨_, rfl⟩
  have e₄ : Edit (Bytes (r.addr + 8) r.foot) h₃ h₄ := by
    rw [eh₄]
    refine ⟨SameOff.mono (SameOff.memset (by omega)) fun x hx => ?_, rfl, rfl⟩
    unfold Blk.foot Bytes at *
    omega
  have hw₄ : ∀ x, Bytes (r.addr + 8) r.foot x → r.Inside x := by
    unfold Blk.Inside Blk.foot Blk.stop Bytes
    omega
  obtain ⟨hB₄, hs₄⟩ := hB₃.edit_off (e₄.mono hw₄) (by rw [eh₄]) fun k a ha => by
    rcases (hmem₃ k a).mp ha with ha | ⟨rfl, -⟩
    · exact .inl (hoff₂ k a ha)
    · exact .inr (by omega)
  -- fields and hole bytes of the three blocks survive what is written behind them
  have hout₄ : ∀ b ∈ [d, r, n], ∀ x, b.Fields x ∨ x = b.addr → ¬ Bytes (r.addr + 8) r.foot x := by
    intro b hb x hx hw
    have hb : b = d ∨ b = r ∨ b = n := by simpa using hb
    unfold Blk.Fields Blk.foot Blk.stop Bytes at *
    rcases hb with rfl | rfl | rfl <;> omega
  have hout₃ : ∀ x, d.Fields x ∨ x = d.addr → ¬ (r.Inside x ∨ n.Inside x ∨ Links L₂ x) := by
    rintro x hx (hw | hw | ⟨k, a, ha, hw⟩)
    · unfold Blk.Fields Blk.Inside Blk.foot Blk.stop Bytes at *
      omega
    · unfold Blk.Fields Blk.Inside Blk.foot Blk.stop Bytes at *
      omega
    · obtain ⟨c, hc, rfl, -⟩ := (hmem₂ k a).mp ha
      refine Blk.off_link T (b := d) (by simp) ?_ hx hw
      simp only [List.mem_append, List.mem_singleton] at hc
      simp only [List.mem_append, List.mem_cons]
      tauto
  have hin : ∀ b ∈ [d, r, n], b.InMem h₄ := by
    intro b hb
    have hb' : b = d ∨ b = r ∨ b = n := by simpa using hb
    have hin₃ : b.InMem h₃ := by
      rcases hb' with rfl | rfl | rfl
      · exact hin₂.edit e₃ (by omega) fun x hx => hout₃ x (.inl hx)
      · exact hinr
      · exact hinn
    refine hin₃.edit e₄ ?_ fun x hx => hout₄ b hb x (.inl hx)
    rcases hb' with rfl | rfl | rfl <;> omega
  have hole₄ : ∀ b ∈ [d, r, n], h₄.hole b.addr = h₃.hole b.addr := by
    intro b hb
    refine e₄.hole ?_ (hout₄ b hb _ (.inr rfl))
    have hb' : b = d ∨ b = r ∨ b = n := by simpa using hb
    rcases hb' with rfl | rfl | rfl <;> omega
  have hod : h₃.hole d.addr = 1 := by
    rw [e₃.hole (by omega) (hout₃ _ (.inr rfl)), da, ho₂]
  have e' : Edit (fun x => w.Inside x ∨ Links L x) h h₄ := by
    have hl₂ : ∀ x, Links L₂ x → w.Inside x ∨ Links L x := by
      rintro x ⟨k, a, ha, hx⟩
      rcases freeAt_middle.mp ((hmem₂ k a).mp ha) with ⟨c, hc, rfl, h⟩ | ⟨rfl, -⟩
      · rw [List.append_nil] at hc
        exact .inr ⟨k, _, (R.mem_iff k _).mpr ⟨c, by simp [hc], rfl, h⟩, hx⟩
      · left
        unfold Blk.Inside Bytes at *
        omega
    have hw₃ : ∀ x, r.Inside x ∨ n.Inside x ∨ Links L₂ x → w.Inside x ∨ Links L x := by
      rintro x (hx | hx | hx)
      · left; unfold Blk.Inside Bytes at *; omega
      · left; unfold Blk.Inside Bytes at *; omega
      · exact hl₂ x hx
    exact (e₂.trans (e₃.mono hw₃)).trans (e₄.mono fun x hx => hw₃ x (.inl (hw₄ x hx)))
  have R' : Rep h₄ (pre ++ [d, r, n] ++ []) L₃ := by
    refine R.replace ht e' (fun _ hx => hx) hin hB₄ (fun k a => ?_) (hs₄ hs₃) fun b hb _ => ?_
    · have hr₁ : FreeAt (pre ++ [d, r, n] ++ []) k a ↔ FreeAt (pre ++ [d, r]) k a ∨
          n.addr = a ∧ n.live = false ∧ getBinIndex n.size = k := by
        have : FreeAt ((pre ++ [d, r]) ++ n :: []) k a ↔ _ := freeAt_middle
        simpa using this
      have hr₂ : FreeAt (pre ++ [d, r]) k a ↔ FreeAt (pre ++ [d]) k a := by
        have : FreeAt ((pre ++ [d]) ++ r :: []) k a ↔ _ := freeAt_middle
        simpa [rl] using this
      rw [hmem₃, hmem₂, hr₁, hr₂]
      simp [nl, eq_comm]
    · by_cases hbr : b ∈ [d, r, n]
      · exact (hin b hbr).size
      · have hb' : b ∈ pre ++ [] := by
          simp only [List.append_nil, List.mem_append] at hb ⊢
          tauto
        have := R.bounds (mem_middle (b := w) hb')
        exact ((R.inMem b (mem_middle hb')).edit e' (by omega) fun x => R.fields_off hb').size
  rw [List.append_nil] at R'
  have hb : onBoundary w.addr = false :=
    not_onBoundary (by rw [kheapStart_eq]; omega) (by rw [kheapEnd_eq]; omega)
  refine ⟨h₄, L₃, ?_, R', e', fun b hb' => ?_, fun x hx => ?_⟩
  · have hsz : h₃.size r.addr = size := by rw [hinr.size, rs]
    have hrun₃' : carveTail h₂ w.addr (w.addr + extraAt w.addr - 8) (h.size w.addr) size =
        .ok h₃ := by
      rw [(R.inMem w (by simp)).size, ← ra]
      exact hrun₃
    simp only [kheapAllocA, hwild, hrun₁, bind, Except.bind, hb, carveOff, hrun₂, hret, hrun₃', pure,
      Except.pure, Bool.false_eq_true, not_false_eq_true, if_true]
    rw [← ra, hsz, u32_eq (n := size + 8) (by omega), u32_eq (by unfold offset; omega), eh₄]
    simp only [offset, Except.ok.injEq, Prod.mk.injEq, and_true]
    omega
  · rw [hole₄ b hb']
    have hb'' : b = d ∨ b = r ∨ b = n := by simpa using hb'
    rcases hb'' with rfl | rfl | rfl
    · simp [hod, dl]
    · simp [hor, rl]
    · simp [hon, nl]
  · rw [eh₄]
    have hx' : r.addr + 8 ≤ x ∧ x < r.addr + 8 + (size + 8) := by unfold Bytes at hx; omega
    simp only [memset_apply (show r.addr + 8 + (size + 8) ≤ 4294967296 by omega), if_pos hx']

end

/-! ## On the heap -/

/-- By the sizes of `h'` the old last block of `h` is cut into a chunk, the block at `ret` and a new
last block, or into the latter two. -/
def CutsLast (h h' : Heap) (ret size : Nat) : Prop :=
  let wild := getWilderness h
  let newWild := ret + size + blckOverhead
  let cut := fun as => Tiles id (fun a => a + h'.size a + blckOverhead) wild as h.end_
  cut [wild, ret, newWild] ∨ ret = wild ∧ cut [ret, newWild]

/-- `kheap_alloc_a` either fails and changes nothing, or hands out bytes of the heap that no live
pointer has, and cuts the last block to size. -/
def AlignedOk (s : Sys) (size : Nat) : Prop :=
  ∃ p h', kheapAllocA s.heap size = .ok (p, h') ∧
    (p = 0 ∧ h' = s.heap ∨
      s.heap.start ≤ p ∧ p + size + 8 ≤ s.heap.end_ ∧
        (∀ q ∈ s.live, p + size + 8 ≤ q ∨ q + payloadSz s.heap q ≤ p) ∧
        CutsLast s.heap h' (p - offset) size)

/-- The last block is free and has room for a chunk up to the page boundary, a block of `size` bytes
and a new last block. -/
def RoomForPage (s : Sys) (size : Nat) : Prop :=
  let wild := getWilderness s.heap
  wild + offset ∉ s.live ∧ 28 ≤ extraAt wild ∧ extraAt wild + size + 12 ≤ s.heap.size wild

section
variable {s : Sys} {bs : List Blk} {L : Fin binCnt → List Nat} {size : Nat}

/-- With room, `kheap_alloc_a` does what it should. -/
lemma Pic.alignedOk (P : Pic s bs L) (hr : RoomForPage s size) : AlignedOk s size := by
  obtain ⟨pre, w, rfl, hstop, hwild⟩ := P.rep.wilderness
  have hwm : w ∈ pre ++ [w] := by simp
  obtain ⟨hl, hx, hroom⟩ := hr
  rw [hwild] at hl hx hroom
  rw [(P.rep.inMem w hwm).size] at hroom
  rw [P.live_iff hwm, Bool.not_eq_true] at hl
  obtain ⟨hlo, hhi, -⟩ := extraAt_fits P.rep
  have hle := extraAt_le w.addr
  obtain ⟨h', L', hrun, R', -⟩ := kheapAllocA_spec P.rep hx hroom hwild
  have hws : w.stop = w.addr + w.size + 20 := rfl
  refine ⟨_, h', hrun, .inr ⟨?_, ?_, fun q hq => ?_, .inl ?_⟩⟩
  · rw [P.rep.start]
    omega
  · rw [P.rep.end_]
    omega
  · obtain ⟨b, hb, hbl, rfl⟩ := (P.live q).mp hq
    have hne : b ≠ w := fun e => by rw [e, hl] at hbl; cases hbl
    have := P.rep.around (b := w) (c := b) (mem_of_middle hb hne)
    have := P.rep.bounds hb
    have := b.addr_lt_stop
    rw [P.payloadSz_eq hb]
    unfold Blk.stop offset at *
    omega
  · have hret : w.addr + extraAt w.addr - offset = (given w size).addr := rfl
    have hnew : (given w size).addr + size + blckOverhead = (rest w size).addr := by
      show w.addr + extraAt w.addr - 8 + size + 20 = w.addr + extraAt w.addr + size + 12
      omega
    have ht := cut_tiles hx hroom
    rw [hret, hnew, hwild, P.rep.end_, ← hstop]
    have hsize : ∀ b ∈ [chunk w, given w size, rest w size],
        b.addr + h'.size b.addr + blckOverhead = b.stop := by
      intro b hb
      rw [(R'.inMem b (List.mem_append_right _ hb)).size]
      rfl
    exact (tiles_map (fun a => a + h'.size a + blckOverhead) Blk.addr Blk.stop hsize).mpr ht

/-- Where the chunk has room, `kheap_alloc_a` goes wrong in every other case. -/
lemma Pic.roomForPage (P : Pic s bs L) (hx : 28 ≤ extraAt (getWilderness s.heap))
    (hok : AlignedOk s size) : RoomForPage s size := by
  obtain ⟨pre, w, rfl, hstop, hwild⟩ := P.rep.wilderness
  have hwm : w ∈ pre ++ [w] := by simp
  obtain ⟨hlo, hhi, -⟩ := extraAt_fits P.rep
  have hle := extraAt_le w.addr
  have hws : w.stop = w.addr + w.size + 20 := rfl
  rw [kheapStart_eq] at hlo
  rw [hwild] at hx
  obtain ⟨p, h', hrun, hp⟩ := hok
  obtain rfl := kheapAllocA_ptr P.rep hx hwild hrun
  rcases hp with ⟨h0, -⟩ | ⟨-, hend, hapart, hcut⟩
  · omega
  rw [P.rep.end_, ← hstop] at hend
  refine ⟨?_, by rwa [hwild], ?_⟩
  · -- a live last block has its own payload there
    intro hl
    rw [hwild] at hl
    have := hapart _ hl
    rw [P.payloadSz_eq hwm] at this
    unfold offset at this
    omega
  · rw [hwild, (P.rep.inMem w hwm).size]
    have hcut' : ∃ c, (w.addr + extraAt w.addr - offset) + size + blckOverhead + c + 20 = w.stop := by
      rw [CutsLast, hwild, P.rep.end_, ← hstop] at hcut
      rcases hcut with ⟨-, -, -, hc⟩ | ⟨-, -, -, hc⟩
      · exact ⟨_, hc⟩
      · exact ⟨_, hc⟩
    obtain ⟨c, hc⟩ := hcut'
    rw [blckOverhead_eq] at hc
    unfold offset at hc
    omega

end

/-- With the whole heap handed out, `kheap_alloc_a` hands out a page of it again. -/
theorem kheapAllocA_steals :
    LegalFrom (fun _ => 0) [.alloc wholeHeap.size] ∧
      ∃ s, runFrom (fun _ => 0) [.alloc wholeHeap.size] = .ok s ∧ ¬ AlignedOk s 4096 := by
  obtain ⟨s₀, s₁, L, hboot, hl, hrun, hlive, P, -⟩ :=
    boot_alloc (fun _ => 0) wholeHeap.size (le_refl _)
  have hw : getWilderness s₁.heap = kheapStart := by
    obtain ⟨pre, w, hbs, -, hwild⟩ := P.rep.wilderness
    rw [hwild]
    have hbs : [{ wholeHeap with live := true }] = pre ++ [w] := by
      rw [← hbs, allocate, Nat.sub_self, if_neg (by decide)]
    cases pre with
    | nil =>
      obtain ⟨rfl, -⟩ := List.cons.inj hbs
      rfl
    | cons a pre => simp at hbs
  refine ⟨fun s hs => ⟨?_, fun _ _ => trivial⟩, s₁, ?_, fun hok => ?_⟩
  · obtain rfl : s₀ = s := by
      rw [hboot] at hs
      exact Except.ok.inj hs
    exact hl
  · show (boot _ >>= fun s => exec step s _) = _
    rw [hboot]
    show exec step s₀ _ = _
    rw [exec_cons hrun]
    rfl
  · have hx : extraAt kheapStart = 4096 := rfl
    have := (P.roomForPage (by rw [hw, hx]; decide) hok).1
    rw [hw, hlive] at this
    exact this (List.mem_singleton_self _)

end ToeS.Kheap
