import ToeS.Kheap.Inv
import ToeS.V1.Defs

/-!
# The v1 heap invariant

`Rep h bs L` ties a v1 heap (`v1/os/kheap.c`) to the blocks `bs` in address order and the contents `L` of
its bins. It asks for less than the invariant of the later kernel: bins need not be sorted, and `expand`
changes the size of the last block while it stays in its bin, so only the other free blocks are known to
be in the bin of their size.
-/

namespace ToeS.V1
open Lib Kheap

/-! ## The flag and the fields of a block -/

section
variable {h h' : Heap} {b v : Nat} {W : Nat → Prop}

/-- An edit off the flag of a block leaves it. -/
lemma hole_edit (e : Edit W h h') (hb : b + 4 ≤ 4294967296) (hW : ∀ x, Bytes b (b + 4) x → ¬ W x) :
    hole h' b = hole h b :=
  e.mem.readWord hb hW

/-- The flag that is written is read back. -/
lemma hole_setHole (hb : b + 4 ≤ 4294967296) (hv : v < 4294967296) : hole (setHole h b v) b = v :=
  readWord_writeWord hb hv

/-- A flag is written in the first word of the header. -/
lemma edit_setHole (hb : b + 4 ≤ 4294967296) : Edit (Bytes b (b + 4)) h (setHole h b v) :=
  ⟨SameOff.writeWord hb, rfl, rfl⟩

/-- Writing a flag leaves the heads of the bins. -/
@[simp] lemma bins_setHole : (setHole h b v).bins = h.bins := rfl

end

/-- The bytes in which a block keeps its flag, its size and its footer. -/
def Meta (b : Blk) (x : Nat) : Prop := Bytes b.addr (b.addr + 8) x ∨ Bytes b.foot b.stop x

/-- The fields of a block say what it is. -/
structure Stands (h : Heap) (b : Blk) : Prop where
  inMem : b.InMem h
  hole : hole h b.addr = 0 ↔ b.live = true

/-- A block survives an edit off its fields. -/
lemma Stands.edit {h h' : Heap} {b : Blk} {W : Nat → Prop} (hb : Stands h b) (e : Edit W h h')
    (hfit : b.stop ≤ 4294967296) (hW : ∀ x, Meta b x → ¬ W x) : Stands h' b := by
  refine ⟨hb.inMem.edit e hfit fun x hx => hW x ?_, ?_⟩
  · unfold Blk.Fields at hx
    unfold Meta Bytes at *
    omega
  · rw [hole_edit e (by unfold Blk.stop at hfit; omega), hb.hole]
    refine fun x hx => hW x (.inl ?_)
    unfold Bytes at *
    omega

/-! ## `remove_node` -/

section
variable {h : Heap} {i : Fin binCnt} {node : Nat} {l : List Nat}

/-- `remove_node` ends and takes the block out of its bin, writing only links of the bin. -/
lemma removeNode_spec (hb : IsBin h i l) (hs : Spread l) (hm : node ∈ l) :
    ∃ h', removeNode h i node = .ok h' ∧ IsBin h' i (l.erase node) ∧
      (∀ j, j ≠ i → h'.bins j = h.bins j) ∧ Edit (LinkOf l) h h' := by
  obtain ⟨pre, post, rfl⟩ := List.append_of_mem hm
  have hnd := hb.chain.nodup
  have hpre : node ∉ pre := fun hx => (List.nodup_append.mp hnd).2.2 node hx node (by simp) rfl
  have herase : (pre ++ node :: post).erase node = pre ++ post := by
    rw [List.erase_append_right _ hpre, List.erase_cons_head]
  have h0 : h.bins i ≠ 0 := fun e => by simpa using hb.chain.head_eq_null.mp e
  rw [herase]
  cases pre with
  | nil =>
    have hhead : h.bins i = node := hb.chain.1
    refine ⟨h.setHead i (h.next node), ?_, ⟨?_, hb.back.tail⟩, fun j hj => bins_setHead_ne hj, .setHead⟩
    · rw [removeNode, if_neg h0, if_pos hhead, hhead]
    · rw [bins_setHead_self]
      exact hb.chain.pop fun _ _ => rfl
  | cons a pre =>
    have hhead : h.bins i = a := hb.chain.1
    have hne : h.bins i ≠ node := by
      rw [hhead]
      rintro rfl
      exact hpre (by simp)
    have hfind : findBlock h node chainFuel (h.next (h.bins i)) = .ok true := by
      refine findBlock_mem (l := pre ++ node :: post) (by rw [hhead]; exact hb.chain.2.2) ?_ (by simp)
      exact Nat.lt_of_succ_lt (hb.length_lt hs.fits)
    -- the block has a predecessor
    obtain ⟨pre', p, hp⟩ : ∃ pre' p, a :: pre = pre' ++ [p] :=
      ⟨_, _, (List.dropLast_append_getLast (List.cons_ne_nil a pre)).symm⟩
    rw [hp, List.append_assoc, List.singleton_append] at hb hs ⊢
    rw [List.append_assoc, List.singleton_append]
    obtain ⟨hb₁, hbins, e₁⟩ := unlink_spec hb hs
    refine ⟨unlink h node, ?_, hb₁, fun j _ => by rw [hbins], e₁⟩
    simp only [removeNode, if_neg h0, if_neg hne, hfind, bind, Except.bind, pure, Except.pure, if_true]

/-- `remove_node` leaves the heap as it was when the bin does not hold the block. -/
lemma removeNode_not_mem (hb : IsBin h i l) (hfit : ∀ x ∈ l, x + 16 ≤ 4294967296) (hm : node ∉ l) :
    removeNode h i node = .ok h := by
  cases l with
  | nil =>
    have h0 : h.bins i = 0 := hb.chain
    rw [removeNode, if_pos h0]
  | cons a l =>
    have hhead : h.bins i = a := hb.chain.1
    have hfind : findBlock h node chainFuel (h.next (h.bins i)) = .ok false := by
      refine findBlock_not_mem (l := l) (by rw [hhead]; exact hb.chain.2.2) ?_
        fun hx => hm (List.mem_cons_of_mem _ hx)
      exact Nat.lt_of_succ_lt (hb.length_lt hfit)
    have hne : h.bins i ≠ node := by
      rw [hhead]
      rintro rfl
      exact hm (List.mem_cons_self ..)
    have h0 : h.bins i ≠ 0 := by
      rw [hhead]
      exact hb.chain.2.1
    simp only [removeNode, if_neg h0, if_neg hne, hfind, bind, Except.bind, pure, Except.pure]
    rfl

end

/-- `remove_node` on all bins, for a block that is in the bin or in none. -/
lemma removeNode_bins {h : Heap} {L : Fin binCnt → List Nat} (hB : Bins h L) (i : Fin binCnt)
    (node : Nat) : ∃ h' L', removeNode h i node = .ok h' ∧ Bins h' L' ∧
      (∀ k a, a ∈ L' k → a ∈ L k) ∧ (node ∈ L i → ∀ k, node ∉ L' k) ∧
      (∀ k a, a ∈ L k → a ≠ node → a ∈ L' k) ∧ Edit (Links L) h h' := by
  by_cases hm : node ∈ L i
  · obtain ⟨h', hrun, hbin, hbins, e⟩ := removeNode_spec (hB.bin i) (hB.spread i) hm
    obtain ⟨hB', hmem, -, e'⟩ := hB.erase hm hbin hbins e
    exact ⟨h', _, hrun, hB', fun k a ha => ((hmem k a).mp ha).1,
      fun _ k ha => ((hmem k _).mp ha).2 rfl, fun k a ha hne => (hmem k a).mpr ⟨ha, hne⟩, e'⟩
  · exact ⟨h, L, removeNode_not_mem (hB.bin i) (hB.fits i) hm, hB, fun _ _ ha => ha,
      fun h => absurd h hm, fun _ _ ha _ => ha, .refl _ _⟩

/-! ## The invariant -/

/-- The heap `h` consists of the blocks `bs`, and its bins hold `L`. -/
structure Rep (h : Heap) (bs : List Blk) (L : Fin binCnt → List Nat) : Prop where
  tiles : Tiles Blk.addr Blk.stop h.start bs h.end_
  pos : 0 < h.start
  lt : h.end_ < 4294967296
  stands : ∀ b ∈ bs, Stands h b
  bin : ∀ i, IsBin h i (L i)
  free : ∀ i, ∀ a ∈ L i, ∃ b ∈ bs, b.addr = a ∧ b.live = false
  once : ∀ i k a, a ∈ L i → a ∈ L k → i = k
  /-- A free block with a block behind it is in the bin of its size. -/
  binned : ∀ pre b n post, bs = pre ++ b :: n :: post → b.live = false →
    b.addr ∈ L (getBinIndex b.size)

namespace Rep
variable {h h' : Heap} {bs pre post : List Blk} {L : Fin binCnt → List Nat} {b c n p : Blk} {x a : Nat}

/-- Every block lies in the heap. -/
lemma bounds (R : Rep h bs L) (hb : b ∈ bs) : h.start ≤ b.addr ∧ b.stop ≤ h.end_ :=
  R.tiles.bounds Blk.addr_lt_stop hb

/-- Two blocks do not overlap. -/
lemma apart (R : Rep h bs L) (hb : b ∈ bs) (hc : c ∈ bs) :
    b = c ∨ b.stop ≤ c.addr ∨ c.stop ≤ b.addr :=
  R.tiles.apart Blk.addr_lt_stop hb hc

/-- A block is known by its address. -/
lemma eq_of_addr (R : Rep h bs L) (hb : b ∈ bs) (hc : c ∈ bs) (e : b.addr = c.addr) : b = c :=
  R.tiles.eq_of_lo Blk.addr_lt_stop hb hc e

/-- A block ends in the address space. -/
lemma stop_le (R : Rep h bs L) (hb : b ∈ bs) : b.stop ≤ 4294967296 := by
  have := (R.bounds hb).2
  have := R.lt
  omega

/-- The blocks in the bins are far enough apart. -/
lemma bins (R : Rep h bs L) : Bins h L where
  bin := R.bin
  fits i a ha := by
    obtain ⟨b, hb, rfl, -⟩ := R.free i a ha
    have := R.stop_le hb
    unfold Blk.stop at this
    omega
  apart i k a ha c hc := by
    obtain ⟨b, hb, rfl, -⟩ := R.free i a ha
    obtain ⟨d, hd, rfl, -⟩ := R.free k c hc
    have := R.apart hb hd
    unfold Apart
    unfold Blk.stop at this
    rcases this with rfl | h | h <;> omega
  disj := R.once

/-- A live block is in no bin. -/
lemma not_mem_bin (R : Rep h bs L) (hb : b ∈ bs) (hl : b.live = true) (i : Fin binCnt) :
    b.addr ∉ L i := by
  intro ha
  obtain ⟨c, hc, e, hf⟩ := R.free i _ ha
  rw [R.eq_of_addr hc hb e, hl] at hf
  cases hf

/-- The header of a block does not meet the links of another one. -/
lemma link_apart (R : Rep h bs L) (hb : b ∈ bs) {i : Fin binCnt} (ha : a ∈ L i) : Apart b.addr a := by
  obtain ⟨c, hc, rfl, -⟩ := R.free i a ha
  have := R.apart hb hc
  unfold Apart
  unfold Blk.stop at this
  rcases this with rfl | h | h <;> omega

/-- The links of the bins are those of free blocks. -/
lemma of_links (R : Rep h bs L) (hx : Links L x) :
    ∃ b ∈ bs, b.live = false ∧ Bytes (b.addr + 8) (b.addr + 16) x := by
  obtain ⟨i, a, ha, hx⟩ := hx
  obtain ⟨b, hb, rfl, hf⟩ := R.free i a ha
  exact ⟨b, hb, hf, hx⟩

/-- The fields of a block are no links. -/
lemma meta_not_links (R : Rep h bs L) (hb : b ∈ bs) (hx : Meta b x) : ¬ Links L x := by
  intro hl
  obtain ⟨c, hc, -, hx'⟩ := R.of_links hl
  have := R.apart hb hc
  unfold Meta Blk.foot Blk.stop Bytes at *
  rcases this with rfl | h | h <;> omega

/-- The fields of a block are no links of another one. -/
lemma meta_not_link (R : Rep h bs L) (hb : b ∈ bs) (hc : c ∈ bs) (hx : Meta b x) :
    ¬ Bytes (c.addr + 8) (c.addr + 16) x := by
  intro hx'
  have := R.apart hb hc
  unfold Meta Blk.foot Blk.stop Bytes at *
  rcases this with rfl | h | h <;> omega

/-- The footer is found from the header. -/
lemma getFoot_eq (R : Rep h bs L) (hb : b ∈ bs) : getFoot h b.addr = b.foot := by
  have := R.stop_le hb
  rw [getFoot, (R.stands b hb).inMem.size]
  unfold Blk.stop at this
  exact u32_eq (by simp only [blockSz]; omega)

/-- The block behind another one begins at its end. -/
lemma adjacent (R : Rep h (pre ++ p :: b :: post) L) : b.addr = p.stop :=
  (tiles_middle.mp R.tiles).2.1

/-- The first block is the one at `heap->start`. -/
lemma start_iff (R : Rep h (pre ++ b :: post) L) : b.addr = h.start ↔ pre = [] := by
  have ht := (tiles_middle.mp R.tiles).1
  constructor
  · intro e
    rw [e] at ht
    cases pre with
    | nil => rfl
    | cons p pre =>
      have := (ht.bounds Blk.addr_lt_stop (b := p) (by simp)).2
      have := ht.1
      have := p.addr_lt_stop
      omega
  · rintro rfl
    exact ht.symm

end Rep

/-! ## The heap at the start -/

/-- `init_heap` makes a heap of one free block, if the bins are empty and the heap has the size that it
gives to the block. -/
theorem initHeap_rep {h : Heap} {start : Nat} (hbins : ∀ i, h.bins i = 0) (h0 : 0 < start)
    (hlt : start + 0x1000000 < 4294967296) :
    ∃ h' L, initHeap h start (start + 0x1000000) = .ok h' ∧
      Rep h' [⟨start, 0x1000000 - blockSz - footerSz, false⟩] L := by
  obtain ⟨b, ha, hs, hf⟩ : ∃ b : Blk, b.addr = start ∧ b.size = 0x1000000 - blockSz - footerSz ∧
      b.live = false := ⟨⟨start, _, false⟩, rfl, rfl, rfl⟩
  have hb : b = ⟨start, 0x1000000 - blockSz - footerSz, false⟩ := by rw [← ha, ← hs, ← hf]
  have hstop : b.stop = start + 0x1000000 := by
    unfold Blk.stop
    rw [ha, hs]
    rfl
  rw [← hb]
  unfold Blk.stop at hstop
  -- the fields of the block
  obtain ⟨h₂, eh₂⟩ : ∃ h₂, h₂ = (setHole h b.addr 1).setSize b.addr b.size := ⟨_, rfl⟩
  have e₂ : Edit (Bytes (b.addr + 4) (b.addr + 8)) (setHole h b.addr 1) h₂ := eh₂ ▸ .setSize (by omega)
  have s₂ : h₂.size b.addr = b.size := eh₂ ▸ size_setSize (by omega) (by omega)
  obtain ⟨hin, e₃⟩ := createFoot_spec s₂ (by unfold Blk.stop; omega)
  have hhole : hole (createFoot h₂ b.addr) b.addr = 1 := by
    rw [hole_edit e₃ (by omega), hole_edit e₂ (by omega), hole_setHole (by omega) (by decide)]
    · unfold Bytes
      omega
    · unfold Blk.foot Bytes
      omega
  -- and its bin
  have hB : Bins (createFoot h₂ b.addr) fun _ => [] := {
    bin i := ⟨by rw [bins_createFoot, eh₂, bins_setSize, bins_setHole]; exact hbins i, trivial⟩
    fits _ _ ha := absurd ha List.not_mem_nil
    apart _ _ _ ha := absurd ha List.not_mem_nil
    disj _ _ _ ha := absurd ha List.not_mem_nil }
  obtain ⟨h₄, L, hrun, hB₄, hmem, -, e₄, -⟩ := hB.add
    (i := getBinIndex ((createFoot h₂ b.addr).size b.addr)) (b := b.addr) (by omega)
    (fun _ _ ha => absurd ha List.not_mem_nil) (fun _ => List.not_mem_nil) (by omega)
  have hoff : ∀ x, Meta b x → ¬ (Bytes (b.addr + 8) (b.addr + 16) x ∨ Links (fun _ => []) x) := by
    rintro x hx (hw | ⟨i, a, ha, -⟩)
    · unfold Meta Blk.foot Blk.stop Bytes at *
      omega
    · cases ha
  have hstands : Stands h₄ b := by
    refine Stands.edit ⟨hin, ?_⟩ e₄ (by unfold Blk.stop; omega) hoff
    rw [hhole, hf]
    exact ⟨nofun, nofun⟩
  refine ⟨{ h₄ with start := start, end_ := start + 0x1000000 }, L, ?_, ?_⟩
  · rw [initHeap, ← ha, ← hs, ← eh₂, addNode, hrun]
    rfl
  · exact {
      tiles := ⟨ha, hstop⟩
      pos := h0
      lt := hlt
      stands c hc := by
        rw [List.mem_singleton.mp hc]
        exact ⟨⟨hstands.inMem.size, hstands.inMem.foot⟩, hstands.hole⟩
      bin i := (hB₄.bin i).congr rfl (fun _ _ => rfl) fun _ _ => rfl
      free i a ha := by
        rcases (hmem i a).mp ha with ha | ⟨rfl, -⟩
        · cases ha
        · exact ⟨b, List.mem_singleton_self b, rfl, hf⟩
      once := hB₄.disj
      binned pre c n post hbs := by
        have hlen := congrArg List.length hbs
        simp at hlen
        omega }

/-! ## A small heap -/

/-- Two live blocks and a free one. -/
def small : Heap where
  mem := [(0x1004, 4), (0x1014, 0x1000), (0x101C, 4), (0x102C, 0x1018), (0x1030, 1), (0x1034, 64),
    (0x1080, 0x1030)].foldl (fun m (w : Nat × Nat) => writeWord m w.1 w.2) fun _ => 0
  start := 0x1000
  end_ := 0x1084
  bins i := if i = getBinIndex 64 then 0x1030 else 0

/-- The heap in which the block `f` is the only free one. -/
lemma Rep.lone {h : Heap} {bs : List Blk} {f : Blk} (ht : Tiles Blk.addr Blk.stop h.start bs h.end_)
    (hpos : 0 < h.start) (hlt : h.end_ < 4294967296) (hs : ∀ b ∈ bs, Stands h b)
    (hf : ∀ b ∈ bs, b.live = false ↔ b = f) (hm : f ∈ bs)
    (hhead : ∀ i, h.bins i = if i = getBinIndex f.size then f.addr else 0) (hend : h.next f.addr = 0) :
    Rep h bs fun i => if i = getBinIndex f.size then [f.addr] else [] where
  tiles := ht
  pos := hpos
  lt := hlt
  stands := hs
  bin i := by
    have hpos : f.addr ≠ 0 := by
      have := (ht.bounds Blk.addr_lt_stop hm).1
      omega
    have hi := hhead i
    split_ifs at hi ⊢
    · exact ⟨⟨hi, hpos, hend⟩, trivial⟩
    · exact ⟨hi, trivial⟩
  free i a ha := by
    split at ha
    · exact ⟨f, hm, (List.mem_singleton.mp ha).symm, (hf f hm).mpr rfl⟩
    · cases ha
  once i k a hi hk := by
    split at hi
    · split at hk
      · rename_i hi' hk'
        rw [hi', hk']
      · cases hk
    · cases hi
  binned pre b n post h hb := by
    obtain rfl := (hf b (by simp [h])).mp hb
    simp

/-- Two live blocks and a free one behind them. -/
lemma rep_small : Rep small [⟨0x1000, 4, true⟩, ⟨0x1018, 4, true⟩, ⟨0x1030, 64, false⟩]
    fun i => if i = getBinIndex 64 then [0x1030] else [] := by
  refine Rep.lone (f := ⟨0x1030, 64, false⟩) ⟨rfl, rfl, rfl, rfl⟩ (by decide) (by decide) ?_ ?_ (by simp)
    (fun _ => rfl) (by decide)
  · intro b hb
    simp only [List.mem_cons, List.not_mem_nil, or_false] at hb
    rcases hb with rfl | rfl | rfl
    all_goals exact ⟨⟨by decide, by decide⟩, by decide⟩
  · decide

/-- The same blocks with the free one in front. -/
def frontHeap : Heap where
  mem := [(0x1000, 1), (0x1004, 64), (0x1050, 0x1000), (0x1058, 4), (0x1068, 0x1054), (0x1070, 4),
    (0x1080, 0x106C)].foldl (fun m (w : Nat × Nat) => writeWord m w.1 w.2) fun _ => 0
  start := 0x1000
  end_ := 0x1084
  bins i := if i = getBinIndex 64 then 0x1000 else 0

/-- Two live blocks behind a free one. -/
lemma rep_front : Rep frontHeap [⟨0x1000, 64, false⟩, ⟨0x1054, 4, true⟩, ⟨0x106C, 4, true⟩]
    fun i => if i = getBinIndex 64 then [0x1000] else [] := by
  refine Rep.lone (f := ⟨0x1000, 64, false⟩) ⟨rfl, rfl, rfl, rfl⟩ (by decide) (by decide) ?_ ?_ (by simp)
    (fun _ => rfl) (by decide)
  · intro b hb
    simp only [List.mem_cons, List.not_mem_nil, or_false] at hb
    rcases hb with rfl | rfl | rfl
    all_goals exact ⟨⟨by decide, by decide⟩, by decide⟩
  · decide

end ToeS.V1
