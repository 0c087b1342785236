import ToeS.V1.Grow

/-!
# The block that the v1 kernel's `alloc` returns

When `alloc` (`v1/os/kheap.c`) has taken the block it looks at the last block of the heap, and `expand` or
`contract` changes the size of that. When the block that is taken, or its remainder, is the last one, it
no longer has the bytes of the block that was found. `alloc_partitions_iff` says when the heap that
`alloc` leaves has it in parts that make up the block: the parts have to fit, and the last block has to be
another one, or of a size that is left alone.
-/

namespace ToeS.V1
open Lib Kheap

/-- The two pages by which `expand` may move the end of the heap are no bytes of the heap. -/
def Roomy (h : Heap) : Prop := h.end_ + 0x2000 ≤ 4294967296 ∨ 0x2000 ≤ h.start

/-- `contract` gives no page back. -/
def KeepsPages (h : Heap) : Prop := sub32 (sub32 h.end_ h.start) 0x1000 &&& 0x1000 = 0

/-- `alloc` returns, with `NULL` or the payload of the block that is found, and in the heap it leaves the
parts of this block occupy the bytes it had. -/
def AllocPartitions (s : State) (found size : Nat) : Prop :=
  ∃ s' p, alloc s size = .ok (s', p) ∧ (p = 0 ∨ p = found + 8) ∧ Partitions s.heap s'.heap found size

/-- `expand` or `contract` changes the size of the last block. -/
def Resizes (s : State) (found size : Nat) : Prop :=
  lastSize s.heap found size < minWilderness ∧ maxedOut s 0x1000 = false ∨
    maxWilderness < lastSize s.heap found size

/-- They change no more than the end of the heap. -/
structure Tame (s : State) (found size : Nat) : Prop where
  grows : lastSize s.heap found size < minWilderness → maxedOut s 0x1000 = false → Roomy s.heap
  shrinks : maxWilderness < lastSize s.heap found size → KeepsPages s.heap

/-- The parts fit, and the last block is not resized when it is the one that is found. -/
structure FitsTogether (s : State) (found size : Nat) : Prop where
  parts : s.heap.size found ≤ size + 4 ∨ size = 0 ∧ 20 < s.heap.size found
  other : Resizes s found size → getWilderness s.heap ≠ found
  tame : Tame s found size

section
variable {s s₁ s₂ : State} {h h₁ h₂ : Heap} {pre bs : List Blk} {f w : Blk} {L : Fin binCnt → List Nat}
  {i : Fin binCnt} {found size n c k newSize sz : Nat}

/-! ## What is left alone -/

/-- Links and what lies beyond the block say nothing about its parts. -/
lemma Partitions.keep {W : Nat → Prop} (P : Partitions h h₁ found size)
    (hfit : found + 20 + h.size found ≤ 4294967296) (e : SameOff W h₁.mem h₂.mem)
    (hW : ∀ x, Bytes found (found + 20 + h.size found) x → W x → Bytes (found + 8) (found + 16) x) :
    Partitions h h₂ found size := by
  have hin : ∀ b : Blk, found ≤ b.addr → b.stop ≤ found + 20 + h.size found →
      (b.addr = found ∨ found + 20 ≤ b.addr) → b.InMem h₁ → b.InMem h₂ := by
    intro b hlo hhi hb hin
    have hoff : ∀ x, b.Fields x → ¬ W x := by
      intro x hx hw
      have hlinks := hW x (by unfold Blk.Fields Blk.foot Blk.stop Bytes at *; omega) hw
      unfold Blk.Fields Blk.foot Bytes at *
      omega
    have hstop : b.stop = b.addr + b.size + 20 := rfl
    constructor
    · rw [← hin.size]
      exact e.readWord (by omega) fun x hx => hoff x (.inl ⟨by have := hx.1; omega, by have := hx.2; omega⟩)
    · have hfoot : b.foot + 4 = b.stop := by unfold Blk.foot Blk.stop; omega
      rw [← hin.foot]
      exact e.readWord (by omega) fun x hx => hoff x (.inr (hfoot ▸ hx))
  refine ⟨fun hs => hin _ le_rfl ?_ (.inl rfl) (P.whole hs), fun hs => ?_, P.room⟩
  · unfold Blk.stop
    simp only
    omega
  · obtain ⟨g, r, hg, hgs, hgin, hr, hrin, hrg, hrs⟩ := P.parts hs
    have hgstop : g.stop = g.addr + g.size + 20 := rfl
    have hrstop : r.stop = r.addr + r.size + 20 := rfl
    exact ⟨g, r, hg, hgs, hin g (by omega) (by omega) (.inl hg) hgin, hr,
      hin r (by omega) (by omega) (.inr (by omega)) hrin, hrg, hrs⟩

/-- Handing a block out clears its links. -/
lemma handOut_off (s : State) (hfit : found + 16 ≤ 4294967296) :
    SameOff (Bytes (found + 8) (found + 16)) s.heap.mem (handOut s found).1.heap.mem := by
  have e₁ : SameOff (Bytes (found + 12) (found + 12 + 4)) s.heap.mem (s.heap.setPrev found 0).mem :=
    .writeWord (by omega)
  have e₂ : SameOff (Bytes (found + 8) (found + 8 + 4)) (s.heap.setPrev found 0).mem
      (handOut s found).1.heap.mem := .writeWord (by omega)
  refine (e₁.mono fun x hx => ?_).trans (e₂.mono fun x hx => ?_)
  all_goals
    unfold Bytes at *
    omega

/-- The last block of the heap is at `a` and has `v` bytes. -/
structure LastAt (h : Heap) (a v : Nat) : Prop where
  wild : getWilderness h = a
  size : h.size a = v
  start : h.start ≤ a
  fit : a + v + 20 = h.end_
  lt : h.end_ < 4294967296

/-- Handing a block out leaves the size of the last block as it is. -/
lemma handOut_last {a : Nat} (s : State) (hfit : found + 16 ≤ 4294967296)
    (hbeside : a = found ∨ found + 20 ≤ a) (ha : a + 20 ≤ 4294967296) :
    (handOut s found).1.heap.size a = s.heap.size a := by
  refine (handOut_off s hfit).readWord (by omega) fun x hx hx' => ?_
  unfold Bytes at hx hx'
  omega

/-! ## `expand` -/

/-- Taking a frame for a page leaves the heap as it is. -/
lemma allocFrame_heap : (allocFrame s k 1 1).heap = s.heap := by
  have hpop : (popFrame s).1.heap = s.heap := by
    by_cases h : s.top = s.bottom
    · simp only [popFrame, if_pos h]
    · simp only [popFrame, if_neg h]
  rw [← hpop]
  simp only [allocFrame]

/-- So does looking a page up. -/
lemma getPage_heap : (getPage s k).1.heap = s.heap := by
  rw [getPage]
  split
  all_goals rfl

/-- The loop of `expand` ends, and leaves the heap as it is. -/
lemma expandLoop_heap {i : Nat} (hn : newSize ≤ i + 4096 * c) (hc : c < n)
    (hlt : newSize ≤ 4294963200) :
    ∃ s', expandLoop newSize n i s = .ok s' ∧ s'.heap = s.heap := by
  induction c generalizing s i n with
  | zero =>
    obtain ⟨n, rfl⟩ := Nat.exists_eq_add_one.mpr hc
    exact ⟨s, by rw [expandLoop, if_neg (by omega)], rfl⟩
  | succ c ih =>
    obtain ⟨n, rfl⟩ := Nat.exists_eq_add_one.mpr (Nat.zero_lt_of_lt hc)
    by_cases hi : i < newSize
    · obtain ⟨s', hrun, hh⟩ := ih (s := allocFrame (getPage s (u32 (s.heap.start + i))).1
        (getPage s (u32 (s.heap.start + i))).2 1 1) (i := i + 0x1000) (n := n) (by omega) (by omega)
      refine ⟨s', ?_, by rw [hh, allocFrame_heap, getPage_heap]⟩
      rw [expandLoop, if_pos hi]
      simp only
      rw [u32_eq (n := i + 0x1000) (by omega)]
      exact hrun
    · exact ⟨s, by rw [expandLoop, if_neg hi], rfl⟩

/-- `expand` by a page makes the last block larger by one or two. -/
lemma expand_page (hmax : maxedOut s 0x1000 = false) :
    ∃ s₁ sz newSize, expand s 0x1000 = .ok (growWild s₁ sz newSize, 1) ∧ s₁.heap = s.heap ∧
      0 < sz ∧ sz ≤ 0x2000 := by
  obtain ⟨old, hold⟩ : ∃ o, o = sub32 s.heap.end_ s.heap.start := ⟨_, rfl⟩
  have hlo : old < 4294967296 := hold ▸ sub32_lt _ _
  have hx : u32 (old + 0x1000) < 4294967296 := u32_lt _
  have hmask := and_frame hx
  obtain ⟨new, hnew⟩ : ∃ o, o = grownSize s 0x1000 := ⟨_, rfl⟩
  obtain ⟨sz, hsz⟩ : ∃ sz, sz = if u32 (old + 0x1000) &&& 0xfffff000 ≠ 0 then sub32 new old else 0x1000 :=
    ⟨_, rfl⟩
  have hgrown : new = if u32 (old + 0x1000) &&& 0xfffff000 ≠ 0 then
      u32 ((u32 (old + 0x1000) &&& 0xfffff000) + 0x1000) else u32 (old + 0x1000) := by
    rw [hnew, grownSize, ← hold]
  have hbounds : new ≤ 4294963200 ∧ new ≤ old + 4096 * 2 ∧ 0 < sz ∧ sz ≤ 0x2000 := by
    rw [hmask] at hgrown hsz
    unfold u32 sub32 at *
    split_ifs at hgrown hsz
    all_goals omega
  obtain ⟨h₁, h₂, h₃, h₄⟩ := hbounds
  obtain ⟨s₁, hloop, hh⟩ := expandLoop_heap (s := s) (n := chainFuel) h₂ (by decide) h₁
  refine ⟨s₁, sz, new, ?_, hh, h₃, h₄⟩
  rw [maxedOut, decide_eq_false_iff_not, ← hnew] at hmax
  rw [expand, ← hold, ← hnew]
  simp only [if_neg hmax]
  rw [hloop, ok_bind, ← hsz]
  rfl

/-- The end of `expand` writes above the header of the last block, or below the heap, and makes the last
block larger by `sz`. -/
lemma growWild_off {w v : Nat} (newSize : Nat) (W : LastAt s.heap w v) (hroomy : Roomy s.heap)
    (hsz : 0 < sz ∧ sz ≤ 0x2000) :
    SameOff (fun x => w + 4 ≤ x ∨ x < s.heap.start) s.heap.mem (growWild s sz newSize).heap.mem ∧
      (growWild s sz newSize).heap.size w = v + sz := by
  obtain ⟨hw, hv, hstart, hfit, hlt⟩ := W
  have hfoot : getFoot s.heap w = w + 16 + v := by
    rw [getFoot, hv]
    exact u32_eq (by simp only [blockSz]; omega)
  have hbound : v + sz < 4294967296 := by
    unfold Roomy at hroomy
    omega
  obtain ⟨h₁, eh₁⟩ : ∃ h₁, h₁ = s.heap.setHeader (w + 16 + v) 0 := ⟨_, rfl⟩
  have e₁ : Edit (Bytes (w + 16 + v) (w + 16 + v + 4)) s.heap h₁ := eh₁ ▸ .setHeader (by omega)
  have s₁ : h₁.size w = v := by
    rw [e₁.size (by omega) (by unfold Bytes; omega), hv]
  obtain ⟨h₂, eh₂⟩ : ∃ h₂, h₂ = h₁.setSize w (v + sz) := ⟨_, rfl⟩
  have e₂ : Edit (Bytes (w + 4) (w + 8)) h₁ h₂ := eh₂ ▸ .setSize (by omega)
  have s₂ : h₂.size w = v + sz := eh₂ ▸ size_setSize (by omega) hbound
  -- the new footer may be behind the end of the address space
  have e₃ : SameOff (fun x => s.heap.end_ ≤ x + 4 ∨ x < s.heap.start) h₂.mem
      (h₂.setHeader (getFoot h₂ w) w).mem := by
    refine .writeWord_u32 fun j hj => ?_
    rw [getFoot, s₂]
    unfold Roomy at hroomy
    unfold u32 blockSz
    omega
  have hgrow : (growWild s sz newSize).heap.mem = (h₂.setHeader (getFoot h₂ w) w).mem := by
    rw [growWild]
    simp only [hw, hfoot, ← eh₁, s₁, u32_eq hbound, ← eh₂]
  rw [hgrow]
  refine ⟨((e₁.mem.mono fun x hx => ?_).trans (e₂.mem.mono fun x hx => ?_)).trans
    (e₃.mono fun x hx => ?_), ?_⟩
  · unfold Bytes at hx
    omega
  · unfold Bytes at hx
    omega
  · omega
  · have hsize : (growWild s sz newSize).heap.size w = h₂.size w := by
      rw [Heap.size, hgrow]
      exact e₃.readWord (by omega) fun x hx hx' => by
        unfold Bytes at hx
        omega
    rw [hsize, s₂]

/-! ## `contract` -/

/-- The end of `contract` writes above the header of the last block and makes it smaller. -/
lemma shrinkWild_off {w v : Nat} (newSize : Nat) (W : LastAt s.heap w v) (hsz : sz ≤ v) :
    SameOff (w + 4 ≤ ·) s.heap.mem (shrinkWild s sz newSize).heap.mem ∧
      (shrinkWild s sz newSize).heap.size w = v - sz := by
  obtain ⟨hw, hv, -, hfit, hlt⟩ := W
  obtain ⟨h₁, eh₁⟩ : ∃ h₁, h₁ = s.heap.setSize w (v - sz) := ⟨_, rfl⟩
  have e₁ : Edit (Bytes (w + 4) (w + 8)) s.heap h₁ := eh₁ ▸ .setSize (by omega)
  have s₁ : h₁.size w = v - sz := eh₁ ▸ size_setSize (by omega) (by omega)
  have hfoot : getFoot h₁ w = w + 16 + (v - sz) := by
    rw [getFoot, s₁]
    exact u32_eq (by simp only [blockSz]; omega)
  have e₂ : Edit (Bytes (w + 16 + (v - sz)) (w + 16 + (v - sz) + 4)) h₁
      (h₁.setHeader (w + 16 + (v - sz)) w) := .setHeader (by omega)
  have hshrink : (shrinkWild s sz newSize).heap.mem = (h₁.setHeader (w + 16 + (v - sz)) w).mem := by
    rw [shrinkWild]
    simp only [hw, hv, sub32_eq hsz (show v < 4294967296 by omega), ← eh₁, hfoot]
  rw [hshrink]
  refine ⟨(e₁.mem.mono fun x hx => ?_).trans (e₂.mem.mono fun x hx => ?_), ?_⟩
  · unfold Bytes at hx
    omega
  · unfold Bytes at hx
    omega
  · have hsize : (shrinkWild s sz newSize).heap.size w = h₁.size w := by
      rw [Heap.size, hshrink]
      exact e₂.mem.readWord (by omega) fun x hx hx' => by
        unfold Bytes at hx hx'
        omega
    rw [hsize, s₁]

/-! ## What `alloc` leaves -/

/-- The last block is large enough, and not too large. -/
lemma alloc_fine (hr : search s.heap size = .ok (i, found)) (ht : take s.heap i found size = .ok h₁)
    (hlo : minWilderness ≤ h₁.size (getWilderness h₁)) (hhi : h₁.size (getWilderness h₁) ≤ maxWilderness) :
    alloc s size = .ok (handOut { s with heap := h₁ } found) := by
  obtain ⟨again, heq⟩ := alloc_eq s size
  rw [heq, allocWith, hr, ok_bind]
  simp only
  rw [ht, ok_bind]
  simp only [if_neg (Nat.not_lt.mpr hlo), if_neg (Nat.not_lt.mpr hhi)]
  rfl

/-- It is too small, and `expand` does not refuse. -/
lemma alloc_grown (hr : search s.heap size = .ok (i, found)) (ht : take s.heap i found size = .ok h₁)
    (hlo : h₁.size (getWilderness h₁) < minWilderness)
    (hexp : expand { s with heap := h₁ } 0x1000 = .ok (s₂, 1)) :
    alloc s size = .ok (handOut s₂ found) := by
  obtain ⟨again, heq⟩ := alloc_eq s size
  rw [heq, allocWith, hr, ok_bind]
  simp only
  rw [ht, ok_bind]
  simp only [if_pos hlo]
  rw [hexp, ok_bind]
  rfl

/-- It is too large. -/
lemma alloc_shrunk (hr : search s.heap size = .ok (i, found)) (ht : take s.heap i found size = .ok h₁)
    (hhi : maxWilderness < h₁.size (getWilderness h₁))
    (hcon : ∀ again, contractWith again { s with heap := h₁ } 0x1000 = .ok s₂) :
    alloc s size = .ok (handOut s₂ found) := by
  obtain ⟨again, heq⟩ := alloc_eq s size
  have hlo : ¬ h₁.size (getWilderness h₁) < minWilderness := by
    have : minWilderness < maxWilderness := by decide
    omega
  rw [heq, allocWith, hr, ok_bind]
  simp only
  rw [ht, ok_bind]
  simp only [if_neg hlo, if_pos hhi]
  rw [hcon, ok_bind]
  rfl

/-- The last block foretold ends at the end of the heap, behind the block that is taken if that is
another one. -/
lemma last_fits (R : Rep h (pre ++ [w]) L) (hf : f ∈ pre ++ [w]) (hle : size ≤ f.size)
    (hc : f.size ≤ size + 4 ∨ size = 0 ∧ 20 < f.size) :
    h.start ≤ lastAddr h f.addr size ∧ lastAddr h f.addr size + lastSize h f.addr size + 20 = h.end_ ∧
      (getWilderness h ≠ f.addr → f.stop ≤ lastAddr h f.addr size) := by
  have hwm : w ∈ pre ++ [w] := by simp
  have hsize := (R.stands f hf).inMem.size
  have hsplits := splits_iff (hsize ▸ hle) (readWord_lt ..)
  have hw := wilderness_eq R (R.stands w hwm).inMem.foot rfl
  have hend : w.stop = h.end_ := (tiles_middle.mp R.tiles).2
  have hws := (R.stands w hwm).inMem.size
  have hlo := (R.bounds hwm).1
  unfold Blk.stop at hend
  rw [lastAddr, lastSize, hw]
  by_cases hfw : w.addr = f.addr
  · have hfw' : w = f := R.eq_of_addr hwm hf hfw
    subst hfw'
    by_cases hs : splits h w.addr size = true
    · have := hsplits.mp hs
      obtain ⟨rfl, hroom⟩ : size = 0 ∧ 20 < w.size := by omega
      rw [if_pos ⟨rfl, hs, rfl⟩, if_pos ⟨rfl, hs⟩, if_pos rfl, hws]
      exact ⟨by omega, by omega, fun h => absurd rfl h⟩
    · rw [if_neg fun h => hs h.2.1, if_neg fun h => hs h.2, hws]
      exact ⟨hlo, by omega, fun h => absurd rfl h⟩
  · rw [if_neg fun h => hfw h.1, if_neg fun h => hfw h.1, hws]
    refine ⟨hlo, by omega, fun _ => ?_⟩
    have := R.apart hf hwm
    have := (R.bounds hf).2
    have := f.addr_lt_stop
    unfold Blk.stop at *
    rcases R.apart hf hwm with rfl | h | h
    · exact absurd rfl hfw
    · exact h
    · unfold Blk.stop at h
      omega

/-- Once the block is taken, the last block is the one that was foretold: the block that is handed out, or
one behind it. -/
lemma take_lastAt (R : Rep h bs L) (hf : f ∈ bs) (hle : size ≤ f.size)
    (hc : f.size ≤ size + 4 ∨ size = 0 ∧ 20 < f.size) (ht : take h i f.addr size = .ok h₁) :
    LastAt h₁ (lastAddr h f.addr size) (lastSize h f.addr size) ∧
      (lastAddr h f.addr size = f.addr ∨ f.addr + 20 ≤ lastAddr h f.addr size) := by
  obtain ⟨pre, w, rfl⟩ : ∃ pre w, bs = pre ++ [w] :=
    ⟨_, _, (List.dropLast_append_getLast (List.ne_nil_of_mem hf)).symm⟩
  obtain ⟨h₂, ht', -, -, hw, hv⟩ := take_fits_last (i := i) R hf hle hc
  obtain rfl : h₁ = h₂ := Except.ok.inj (ht.symm.trans ht')
  obtain ⟨hstart, hfit, hsep⟩ := last_fits R hf hle hc
  obtain ⟨hs, he⟩ := take_ends ht
  refine ⟨⟨hw, hv, hs.symm ▸ hstart, he.symm ▸ hfit, he.symm ▸ R.lt⟩, ?_⟩
  by_cases hwf : getWilderness h = f.addr
  · rw [lastAddr, hwf]
    split_ifs
    · exact .inr le_rfl
    · exact .inl rfl
  · have := hsep hwf
    unfold Blk.stop at this
    omega

section
variable {a v : Nat}

/-- A last block that is too small becomes larger, and nothing below it changes but the links of the block
that is handed out. -/
lemma LastAt.alloc_grows (W : LastAt h₁ a v) (hr : search s.heap size = .ok (i, found))
    (ht : take s.heap i found size = .ok h₁) (hbeside : a = found ∨ found + 20 ≤ a)
    (hlo : v < minWilderness) (hmax : maxedOut s 0x1000 = false) (hroomy : Roomy h₁) :
    ∃ s', alloc s size = .ok (s', found + 8) ∧
      SameOff (fun x => (a + 4 ≤ x ∨ x < h₁.start) ∨ Bytes (found + 8) (found + 16) x) h₁.mem
        s'.heap.mem ∧
      s'.heap.size a ≠ v := by
  have hfit := W.fit
  have hlt := W.lt
  have hpay : u32 (found + 8) = found + 8 := u32_eq (by omega)
  obtain ⟨s₁, sz, newSize, hexp, hheap, hpos, hsz⟩ :=
    expand_page (s := { s with heap := h₁ }) ((maxedOut_take ht).trans hmax)
  replace hheap : s₁.heap = h₁ := hheap
  obtain ⟨e, hv'⟩ := growWild_off (s := s₁) newSize (hheap ▸ W) (hheap ▸ hroomy) ⟨hpos, hsz⟩
  rw [hheap] at e
  have e' := handOut_off (growWild s₁ sz newSize) (by omega : found + 16 ≤ 4294967296)
  refine ⟨(handOut (growWild s₁ sz newSize) found).1, ?_,
    (e.mono fun _ => .inl).trans (e'.mono fun _ => .inr), ?_⟩
  · have hlo' : h₁.size (getWilderness h₁) < minWilderness := by
      rw [W.wild, W.size]
      exact hlo
    rw [alloc_grown hr ht hlo' hexp, ← hpay]
    rfl
  · rw [handOut_last _ (by omega) hbeside (by omega), hv']
    omega

/-- One that is too large becomes smaller. -/
lemma LastAt.alloc_shrinks (W : LastAt h₁ a v) (hr : search s.heap size = .ok (i, found))
    (ht : take s.heap i found size = .ok h₁) (hbeside : a = found ∨ found + 20 ≤ a)
    (hhi : maxWilderness < v) (hkeeps : sub32 (sub32 h₁.end_ h₁.start) 0x1000 &&& 0x1000 = 0) :
    ∃ s', alloc s size = .ok (s', found + 8) ∧
      SameOff (fun x => (a + 4 ≤ x ∨ x < h₁.start) ∨ Bytes (found + 8) (found + 16) x) h₁.mem
        s'.heap.mem ∧
      s'.heap.size a ≠ v := by
  have hfit := W.fit
  have hlt := W.lt
  have hstart := W.start
  have hpay : u32 (found + 8) = found + 8 := u32_eq (by omega)
  have hhi' : maxWilderness < h₁.size (getWilderness h₁) := by
    rw [W.wild, W.size]
    exact hhi
  simp only [maxWilderness] at hhi
  obtain ⟨n, hn⟩ : ∃ n, n = sub32 (sub32 h₁.end_ h₁.start) 0x1000 := ⟨_, rfl⟩
  have hmin : minHeapSize ≤ n := by
    rw [hn, sub32_eq (by omega) hlt, sub32_eq (by omega) (by omega)]
    simp only [minHeapSize]
    omega
  obtain ⟨e, hv'⟩ := shrinkWild_off (s := { s with heap := h₁ }) n W (by omega : 0x1000 ≤ v)
  have e' := handOut_off (shrinkWild { s with heap := h₁ } 0x1000 n) (by omega : found + 16 ≤ 4294967296)
  refine ⟨(handOut (shrinkWild { s with heap := h₁ } 0x1000 n) found).1, ?_,
    (e.mono fun x hx => .inl (.inl hx)).trans (e'.mono fun _ => .inr), ?_⟩
  · rw [alloc_shrunk hr ht hhi' fun again => contractWith_still (s := { s with heap := h₁ })
      hn.symm (hn ▸ hkeeps) hmin (Nat.le_of_eq hn.symm), ← hpay]
    rfl
  · rw [handOut_last _ (by omega) hbeside (by omega), hv']
    omega

end

/-- When the last block is resized, the size that is foretold for it changes, and nothing below it but the
links of the block that is handed out. -/
lemma alloc_resized (R : Rep s.heap bs L) (hr : search s.heap size = .ok (i, found))
    (hc : s.heap.size found ≤ size + 4 ∨ size = 0 ∧ 20 < s.heap.size found) (hT : Tame s found size)
    (hres : Resizes s found size) (ht : take s.heap i found size = .ok h₁) :
    ∃ s', alloc s size = .ok (s', found + 8) ∧
      SameOff (fun x => (lastAddr s.heap found size + 4 ≤ x ∨ x < s.heap.start) ∨
        Bytes (found + 8) (found + 16) x) h₁.mem s'.heap.mem ∧
      s'.heap.size (lastAddr s.heap found size) ≠ lastSize s.heap found size := by
  obtain ⟨f, hf, rfl, -, -, hle, hsize⟩ := R.search_ok hr
  obtain ⟨W, hbeside⟩ := take_lastAt R hf hle (hsize ▸ hc) ht
  obtain ⟨hs, he⟩ := take_ends ht
  rw [← hs]
  rcases hres with ⟨hlo, hmax⟩ | hhi
  · have hroomy : Roomy h₁ := by
      rw [Roomy, hs, he]
      exact hT.grows hlo hmax
    exact W.alloc_grows hr ht hbeside hlo hmax hroomy
  · have hkeeps : sub32 (sub32 h₁.end_ h₁.start) 0x1000 &&& 0x1000 = 0 := by
      rw [hs, he]
      exact hT.shrinks hhi
    exact W.alloc_shrinks hr ht hbeside hhi hkeeps

/-- When it is not, `alloc` returns with the block as `take` leaves it. -/
lemma alloc_still (R : Rep s.heap bs L) (hr : search s.heap size = .ok (i, found))
    (hres : ¬ Resizes s found size) (ht : take s.heap i found size = .ok h₁)
    (hlast : h₁.size (getWilderness h₁) = lastSize s.heap found size) :
    ∃ s' p, alloc s size = .ok (s', p) ∧ (p = 0 ∨ p = found + 8) ∧
      SameOff (Bytes (found + 8) (found + 16)) h₁.mem s'.heap.mem := by
  obtain ⟨f, hf, rfl, -⟩ := R.search_ok hr
  have hstop := R.stop_le hf
  unfold Blk.stop at hstop
  have hpay : u32 (f.addr + 8) = f.addr + 8 := u32_eq (by omega)
  unfold Resizes at hres
  push Not at hres
  obtain ⟨hlo, hhi⟩ := hres
  by_cases hmin : lastSize s.heap f.addr size < minWilderness
  · have hmax : maxedOut s 0x1000 = true := by simpa using hlo hmin
    exact ⟨_, _, alloc_refused hr ht (hlast ▸ hmin) hmax, .inl rfl, .refl _ _⟩
  · refine ⟨_, _, alloc_fine hr ht ?_ ?_, .inr hpay, handOut_off _ (by omega)⟩
    · rw [hlast]
      exact Nat.le_of_not_lt hmin
    · rw [hlast]
      exact hhi

/-- The parts of the block that is found make up that block in the heap that `alloc` leaves, when it has at
most four bytes to spare, or no bytes were asked for and it has more than twenty, and it is not the last
block where that is resized; and then only, as far as `expand` and `contract` keep to the end of the heap. -/
theorem alloc_partitions_iff (R : Rep s.heap bs L) (hr : search s.heap size = .ok (i, found)) :
    (FitsTogether s found size → AllocPartitions s found size) ∧
      (Tame s found size → (AllocPartitions s found size ↔ FitsTogether s found size)) := by
  obtain ⟨f, hf, rfl, -, -, hle, hsize⟩ := R.search_ok hr
  obtain ⟨pre, w, rfl⟩ : ∃ pre w, bs = pre ++ [w] :=
    ⟨_, _, (List.dropLast_append_getLast (List.ne_nil_of_mem hf)).symm⟩
  have hstop := R.stop_le hf
  have hstart := (R.bounds hf).1
  have hbytes : f.addr + 20 + s.heap.size f.addr = f.stop := by
    rw [hsize]
    unfold Blk.stop
    omega
  have hfit : f.addr + 20 + s.heap.size f.addr ≤ 4294967296 := hbytes ▸ hstop
  have hsplits := splits_iff (hsize ▸ hle) (readWord_lt s.heap.mem _)
  have hfwd : FitsTogether s f.addr size → AllocPartitions s f.addr size := by
    rintro ⟨hc, hother, hT⟩
    obtain ⟨h₁, ht, -, P, hw, hv⟩ := take_fits_last (i := i) R hf hle (hsize ▸ hc)
    obtain ⟨-, -, hsep⟩ := last_fits R hf hle (hsize ▸ hc)
    by_cases hres : Resizes s f.addr size
    · -- the last block is another one, and lies behind
      have hbehind := hsep (hother hres)
      obtain ⟨s', hrun, e, -⟩ := alloc_resized R hr hc hT hres ht
      refine ⟨s', _, hrun, .inr rfl, P.keep hfit e fun x hx hw => ?_⟩
      rw [hbytes] at hx
      unfold Bytes at *
      omega
    · obtain ⟨s', p, hrun, hp, e⟩ := alloc_still R hr hres ht (hw ▸ hv)
      exact ⟨s', p, hrun, hp, P.keep hfit e fun x _ => id⟩
  refine ⟨hfwd, fun hT => ⟨?_, hfwd⟩⟩
  rintro ⟨s', p, hrun, -, P⟩
  have hc : s.heap.size f.addr ≤ size + 4 ∨ size = 0 ∧ 20 < s.heap.size f.addr := by
    by_cases hs : splits s.heap f.addr size = true
    · exact .inr (P.zero hs hfit)
    · exact .inl (Nat.le_of_not_lt (mt hsplits.mpr hs))
  refine ⟨hc, fun hres hwild => ?_, hT⟩
  -- the last of the parts has another size than it should
  obtain ⟨h₁, ht, -⟩ := take_fits_last (i := i) R hf hle (hsize ▸ hc)
  obtain ⟨s₁, hrun₁, -, hne⟩ := alloc_resized R hr hc hT hres ht
  rw [hrun] at hrun₁
  cases hrun₁
  have hc' : splits s.heap f.addr size = false ∨ size = 0 ∧ 20 < s.heap.size f.addr :=
    hc.imp_left fun h => Bool.eq_false_iff.mpr (mt hsplits.mp (Nat.not_lt.mpr h))
  exact hne (P.last hwild hc').1.size

end

/-- The heap whose first block is free, with room to grow. -/
def frontState : State := { smallState with heap := frontHeap, max := 0x200000 }

/-- Nothing is split, and the block that is found is not the last one. -/
lemma fitsTogether_front : FitsTogether frontState 0x1000 64 where
  parts := by decide
  other _ := by decide
  tame := ⟨fun _ _ => .inl (by decide), fun h => absurd h (by decide)⟩

/-- The first block is asked for whole, and the last one gets the page that the heap grows by. -/
theorem alloc_partitions_iff_front : AllocPartitions frontState 0x1000 64 ∧
    (AllocPartitions frontState 0x1000 64 ↔ FitsTogether frontState 0x1000 64) := by
  have hr : search frontState.heap 64 = .ok (getBinIndex 64, 0x1000) :=
    search_lone rep_front (by decide) le_rfl (by decide)
  obtain ⟨hparts, hiff⟩ := alloc_partitions_iff rep_front hr
  exact ⟨hparts fitsTogether_front, hiff fitsTogether_front.tame⟩

/-- The heap whose last block is free, with room to grow. -/
def growing : State := { smallState with max := 0x200000 }

/-- Sixteen bytes out of 64: the remainder begins 276 bytes behind the header of the block, not 36. All of
the 64 bytes: the block gets the page that the heap grows by. -/
theorem not_partitions_alloc :
    Rep growing.heap [⟨0x1000, 4, true⟩, ⟨0x1018, 4, true⟩, ⟨0x1030, 64, false⟩]
        (fun i => if i = getBinIndex 64 then [0x1030] else []) ∧
      search growing.heap 16 = .ok (getBinIndex 64, 0x1030) ∧
      (∃ s', alloc growing 16 = .ok (s', 0x1038) ∧ ¬ Partitions growing.heap s'.heap 0x1030 16) ∧
      search growing.heap 64 = .ok (getBinIndex 64, 0x1030) ∧
      ∃ s', alloc growing 64 = .ok (s', 0x1038) ∧ ¬ Partitions growing.heap s'.heap 0x1030 64 := by
  have hr : ∀ {size}, size ≤ 64 → search growing.heap size = .ok (getBinIndex 64, 0x1030) :=
    fun h => search_small h
  refine ⟨rep_small, hr (by decide), ?_, hr le_rfl, ?_⟩
  · -- the remainder lands behind the heap
    have hstray : ∀ x, Stray growing.heap 0x1030 16 x → 0x1084 ≤ x := by
      intro x hx
      have haddr : splitAddr 0x1030 16 = 0x1144 := by decide
      have hfoot : splitFoot growing.heap 0x1030 16 = 0x1170 := by decide
      rw [Stray, haddr, hfoot] at hx
      unfold Bytes at hx
      omega
    have hend : growing.heap.end_ = 0x1084 := rfl
    have hlast : getWilderness growing.heap = 0x1030 := by decide
    have hclear : LandsClear growing.heap (fun i => if i = getBinIndex 64 then [0x1030] else []) 0x1030 16 := by
      refine .inr (.inr ⟨by decide, by decide, by decide, fun x hx k a ha => ?_, fun x hx => ?_, fun x hx => ?_⟩)
      all_goals have := hstray x hx
      · split at ha
        · rw [List.mem_singleton.mp ha]
          unfold Bytes
          omega
        · cases ha
      · unfold Bytes
        omega
      · rw [hlast, hend]
        unfold Bytes
        omega
    obtain ⟨h₁, ht, -, hlast⟩ := take_last rep_small (hr (by decide)) hclear
    have hlo : h₁.size (getWilderness h₁) < minWilderness := by
      rw [hlast]
      decide
    have hmax : maxedOut growing 0x1000 = false := by decide
    obtain ⟨s₁, sz, newSize, hexp, -⟩ := expand_page (s := { growing with heap := h₁ })
      ((maxedOut_take (s := growing) ht).trans hmax)
    have hpay : (handOut (growWild s₁ sz newSize) 0x1030).2 = 0x1038 := by
      show u32 (0x1030 + 8) = 0x1038
      decide
    refine ⟨_, (alloc_grown (hr (by decide)) ht hlo hexp).trans (congrArg Except.ok (Prod.ext rfl hpay)),
      fun P => ?_⟩
    have h := P.zero (by decide) (by decide)
    exact absurd h.1 (by decide)
  · have hc : growing.heap.size 0x1030 ≤ 64 + 4 ∨ 64 = 0 ∧ 20 < growing.heap.size 0x1030 := by decide
    have hT : Tame growing 0x1030 64 := ⟨fun _ _ => .inl (by decide), fun h => absurd h (by decide)⟩
    have hres : Resizes growing 0x1030 64 := .inl ⟨by decide, by decide⟩
    obtain ⟨h₁, ht, -⟩ := take_last rep_small (hr le_rfl) (landsClear_small (hr le_rfl))
    obtain ⟨s', hrun, -, hne⟩ := alloc_resized rep_small (hr le_rfl) hc hT hres ht
    exact ⟨s', hrun, fun P => hne (P.last (by decide) (.inl (by decide))).1.size⟩

end ToeS.V1
