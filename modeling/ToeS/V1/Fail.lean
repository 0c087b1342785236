import ToeS.V1.Split

/-!
# An allocation of the v1 kernel that fails

`alloc` (`v1/os/kheap.c`) returns `NULL` when `expand` refuses to make the heap larger. By then the block
has been taken: it is marked as used, and its bin does not hold it. A heap that can grow, or whose last
block stays large enough, does not come to that. How large the last block stays can be told before the
block is taken (`lastSize`), unless a misplaced remainder lands on a block in a bin or on the last block.
-/

namespace ToeS.V1
open Lib Kheap

/-- The last block, when `size` bytes have been taken from the block at `found`. -/
def lastAddr (h : Heap) (found size : Nat) : Nat :=
  if getWilderness h = found ∧ splits h found size = true ∧ size = 0 then found + 20 else getWilderness h

/-- Its size. -/
def lastSize (h : Heap) (found size : Nat) : Nat :=
  if getWilderness h = found ∧ splits h found size = true then
    if size = 0 then h.size found - 20 else size
  else h.size (getWilderness h)

/-- The remainder lands on no block in a bin, not on the footer of the part that is taken, and not on the
size or the footer of the last block. -/
structure Clear (h : Heap) (L : Fin binCnt → List Nat) (found size : Nat) : Prop where
  pos : splitAddr found size ≠ 0
  head : splitAddr found size + 16 ≤ 4294967296
  foot : splitFoot h found size + 4 ≤ 4294967296
  bins : ∀ x, Stray h found size x → ∀ k, ∀ a ∈ L k, ¬ Bytes a (a + 16) x
  taken : ∀ x, Stray h found size x → ¬ Bytes (found + 16 + size) (found + size + 20) x
  last : ∀ x, Stray h found size x → ¬ Bytes (getWilderness h + 4) (getWilderness h + 8) x ∧
    ¬ Bytes (h.end_ - 4) h.end_ x

/-- There is no remainder, or it fits into the block, or it lands clear. -/
def LandsClear (h : Heap) (L : Fin binCnt → List Nat) (found size : Nat) : Prop :=
  splits h found size = false ∨ size = 0 ∧ 20 < h.size found ∨ Clear h L found size

section
variable {s s' : State} {size p found : Nat} {bs : List Blk} {L : Fin binCnt → List Nat}
  {i : Fin binCnt} {h : Heap}

/-- `alloc` can come back to itself. -/
lemma alloc_eq (s : State) (size : Nat) : ∃ again, alloc s size = allocWith again s size := by
  obtain ⟨n, hn⟩ : ∃ n, chainFuel = n + 1 := ⟨4294967295, rfl⟩
  exact ⟨allocDepth n, by rw [alloc, hn, allocDepth]⟩

/-- `expand` that refuses does nothing. -/
lemma expand_maxedOut {sz : Nat} (h : maxedOut s sz = true) : expand s sz = .ok (s, 0) := by
  rw [maxedOut, decide_eq_true_iff] at h
  rw [expand]
  simp only [if_pos h]
  rfl

/-- `add_node` does not move the ends of the heap. -/
lemma addNode_ends {h h' : Heap} {a : Nat} (hr : addNode h i a = .ok h') :
    h'.start = h.start ∧ h'.end_ = h.end_ := by
  rw [addNode, addBlockSorted] at hr
  simp only at hr
  split at hr
  · cases hr
    exact ⟨rfl, rfl⟩
  · obtain ⟨⟨prev, temp⟩, -, hr⟩ := bind_ok.mp hr
    cases hr
    simp only [linkBetween]
    split_ifs
    all_goals exact ⟨rfl, rfl⟩

/-- `remove_node` does not move the ends of the heap. -/
lemma removeNode_ends {h h' : Heap} {a : Nat} (hr : removeNode h i a = .ok h') :
    h'.start = h.start ∧ h'.end_ = h.end_ := by
  rw [removeNode] at hr
  split_ifs at hr
  · cases hr
    exact ⟨rfl, rfl⟩
  · cases hr
    exact ⟨rfl, rfl⟩
  · obtain ⟨found, -, hr⟩ := bind_ok.mp hr
    split_ifs at hr
    · cases hr
      rw [unlink]
      split_ifs
      all_goals exact ⟨rfl, rfl⟩
    · cases hr
      exact ⟨rfl, rfl⟩

/-- A split does not move the ends of the heap. -/
lemma splitNode_ends {h h' : Heap} {a : Nat} (hr : splitNode h a size = .ok h') :
    h'.start = h.start ∧ h'.end_ = h.end_ := by
  simp only [splitNode] at hr
  obtain ⟨h₁, hadd, hr⟩ := bind_ok.mp hr
  rw [pure_ok] at hr
  obtain ⟨hs, he⟩ := addNode_ends hadd
  rw [← Except.ok.inj hr]
  exact ⟨hs, he⟩

/-- Taking a block does not move the ends of the heap. -/
lemma take_ends {h h' : Heap} {a : Nat} (ht : take h i a size = .ok h') :
    h'.start = h.start ∧ h'.end_ = h.end_ := by
  rw [take] at ht
  split_ifs at ht
  · obtain ⟨h₁, hsplit, ht⟩ := bind_ok.mp ht
    obtain ⟨hs, he⟩ := splitNode_ends hsplit
    obtain ⟨hs', he'⟩ := removeNode_ends ht
    exact ⟨hs'.trans hs, he'.trans he⟩
  · rw [pure_ok, ok_bind] at ht
    exact removeNode_ends (h := setHole h a 0) ht

/-- So `expand` refuses after it exactly if it did before. -/
lemma maxedOut_take {a sz : Nat} (ht : take s.heap i a size = .ok h) :
    maxedOut { s with heap := h } sz = maxedOut s sz := by
  obtain ⟨hs, he⟩ := take_ends ht
  rw [maxedOut, maxedOut, grownSize, grownSize, hs, he]

/-! ## Refusal -/

/-- When `expand` refuses, `alloc` leaves the heap with the block taken. -/
lemma alloc_refused (hr : search s.heap size = .ok (i, found)) (ht : take s.heap i found size = .ok h)
    (hwild : h.size (getWilderness h) < minWilderness)
    (hmax : maxedOut s 0x1000 = true) : alloc s size = .ok ({ s with heap := h }, 0) := by
  obtain ⟨again, heq⟩ := alloc_eq s size
  rw [heq, allocWith, hr, ok_bind]
  simp only
  rw [ht, ok_bind]
  simp only [if_pos hwild]
  rw [expand_maxedOut ((maxedOut_take ht).trans hmax), ok_bind]
  rfl

/-- The last footer of the heap names the last block. -/
lemma wilderness_eq {w : Blk} {pre : List Blk} {h₀ h : Heap} {a : Nat} (R : Rep h₀ (pre ++ [w]) L)
    (hfoot : h.header w.foot = a) (he : h.end_ = h₀.end_) : getWilderness h = a := by
  have hend : w.stop = h₀.end_ := (tiles_middle.mp R.tiles).2
  have hlt := R.lt
  have haddr : sub32 h.end_ footerSz = w.foot := by
    unfold Blk.stop at hend
    unfold sub32 footerSz Blk.foot
    omega
  rw [getWilderness, haddr]
  exact hfoot

/-! ## The last block -/

section
variable {h h' : Heap} {f w : Blk} {pre : List Blk}

/-- The part that is the last block of the heap afterwards, when the parts make up the last block. -/
lemma Partitions.last (P : Partitions h h' found size) (hw : getWilderness h = found)
    (hc : splits h found size = false ∨ size = 0 ∧ 20 < h.size found) :
    (⟨lastAddr h found size, lastSize h found size, true⟩ : Blk).InMem h' ∧
      lastAddr h found size + lastSize h found size = found + h.size found := by
  rw [lastAddr, lastSize, hw]
  cases hs : splits h found size with
  | false => simpa using P.whole hs
  | true =>
    obtain ⟨rfl, hroom⟩ : size = 0 ∧ 20 < h.size found := hc.resolve_left (by simp [hs])
    obtain ⟨g, r, hg, hgs, -, -, hr, hrg, hrs⟩ := P.parts hs
    have hra : r.addr = found + 20 := by
      rw [hrg, Blk.stop, hg, hgs]
    have hrsize : r.size = h.size found - 20 := by
      unfold Blk.stop at hrs
      omega
    simp only [and_self, if_true]
    rw [← hra, ← hrsize]
    exact ⟨⟨hr.size, hr.foot⟩, by omega⟩

/-- A block other than the one that is taken keeps its fields where nothing but the taken one and links
are written. -/
lemma Rep.kept (R : Rep h bs L) (hf : f ∈ bs) (hw : w ∈ bs) (hne : f ≠ w)
    (e : Edit (fun x => f.Inside x ∨ Links L x) h h') : w.InMem h' := by
  refine (R.stands w hw).inMem.edit e (R.stop_le hw) fun x hx hx' => ?_
  rcases hx' with hx' | hl
  · have := R.apart hf hw
    unfold Blk.Fields Blk.Inside Blk.foot Blk.stop Bytes at *
    rcases this with rfl | h | h
    · exact hne rfl
    all_goals omega
  · refine R.meta_not_links hw ?_ hl
    unfold Blk.Fields at hx
    unfold Meta Bytes at *
    omega

/-- Where the parts make up the block, the last block is the one foretold. -/
lemma take_fits_last (R : Rep h (pre ++ [w]) L) (hf : f ∈ pre ++ [w]) (hle : size ≤ f.size)
    (hc : f.size ≤ size + 4 ∨ size = 0 ∧ 20 < f.size) :
    ∃ h', take h i f.addr size = .ok h' ∧ hole h' f.addr = 0 ∧ Partitions h h' f.addr size ∧
      getWilderness h' = lastAddr h f.addr size ∧
      h'.size (lastAddr h f.addr size) = lastSize h f.addr size := by
  have hwm : w ∈ pre ++ [w] := by simp
  have hsize := (R.stands f hf).inMem.size
  obtain ⟨h', hrun, e, hhole, P⟩ := take_fits (i := i) R hf hle hc
  refine ⟨h', hrun, hhole, P, ?_⟩
  have hw := wilderness_eq R (R.stands w hwm).inMem.foot rfl
  by_cases hfw : f = w
  · have hsplits := splits_iff (hsize ▸ hle) (readWord_lt ..)
    have hc' : splits h f.addr size = false ∨ size = 0 ∧ 20 < h.size f.addr := by
      rcases hc with hc | hc
      · exact .inl (Bool.eq_false_iff.mpr (mt hsplits.mp (by omega)))
      · exact .inr (hsize ▸ hc)
    obtain ⟨hin, hstop⟩ := P.last (hfw ▸ hw) hc'
    have hfoot := hin.foot
    have hfootw : (⟨lastAddr h f.addr size, lastSize h f.addr size, true⟩ : Blk).foot = w.foot := by
      rw [hsize] at hstop
      rw [Blk.foot, Blk.foot, ← hfw]
      simp only
      omega
    rw [hfootw] at hfoot
    exact ⟨wilderness_eq R hfoot e.end_, hin.size⟩
  · have hne : w.addr ≠ f.addr := fun h => hfw (R.eq_of_addr hf hwm h.symm)
    have hin := R.kept hf hwm hfw e
    have hla : lastAddr h f.addr size = w.addr := by
      rw [lastAddr, hw, if_neg fun h => hne h.1]
    have hls : lastSize h f.addr size = w.size := by
      rw [lastSize, hw, if_neg fun h => hne h.1, (R.stands w hwm).inMem.size]
    rw [hla, hls]
    exact ⟨wilderness_eq R hin.foot e.end_, hin.size⟩

/-- What lands clear does not disturb the bins. -/
lemma Clear.landed (C : Clear h L found size) (hm : found ∈ L i) :
    Landed h L found size := by
  refine ⟨C.pos, C.head, C.foot, fun k a ha => ?_, ?_, fun x hx hg => ?_⟩
  · by_contra hap
    -- the two headers have a byte in common
    refine C.bins (max (splitAddr found size) a) (.inl ?_) k a ha ?_
    all_goals
      unfold Apart at hap
      unfold Bytes
      omega
  · rintro x hx ⟨k, a, ha, hl⟩
    refine C.bins x hx k a ha ?_
    unfold Bytes at *
    omega
  · rcases hg with hg | hg
    · refine C.bins x hx i found hm ?_
      unfold Bytes at *
      simp only at hg
      omega
    · exact C.taken x hx hg

/-- The remainder of a block that is split for nothing lands on its old footer. -/
lemma stray_zero (R : Rep h bs L) (hf : f ∈ bs) (hroom : 4 < f.size) : Stray h f.addr 0 f.foot := by
  have hstop := R.stop_le hf
  unfold Blk.stop at hstop
  have haddr : splitAddr f.addr 0 = f.addr + 20 := by
    rw [splitAddr, u32_eq (by simp only [blockSz, footerSz]; omega)]
    rfl
  rw [Stray, haddr]
  by_cases h20 : f.size < 20
  · left
    unfold Blk.foot Bytes
    omega
  · right
    have hsize : splitSize h f.addr 0 = f.size - 20 := by
      rw [splitSize, (R.stands f hf).inMem.size]
      unfold sub32 blockSz footerSz
      omega
    rw [splitFoot, haddr, hsize, u32_eq (by simp only [blockSz]; omega)]
    unfold Blk.foot Bytes
    simp only [blockSz]
    omega

/-- Where the remainder lands clear, the last block is the one foretold, too. -/
lemma take_clear_last (R : Rep h (pre ++ [w]) L) (hf : f ∈ pre ++ [w]) (hm : f.addr ∈ L i)
    (hroom : size + 4 < f.size) (C : Clear h L f.addr size) :
    ∃ h', take h i f.addr size = .ok h' ∧ hole h' f.addr = 0 ∧
      h'.size (getWilderness h') = lastSize h f.addr size := by
  have hwm : w ∈ pre ++ [w] := by simp
  have hstop := R.stop_le hwm
  have hsize := (R.stands f hf).inMem.size
  have hend : w.stop = h.end_ := (tiles_middle.mp R.tiles).2
  have hs : splits h f.addr size = true := (splits_iff (by omega) (readWord_lt ..)).mpr (by omega)
  obtain ⟨h', hrun, e, hin, hhole, -⟩ := take_split (i := i) R hf hroom (C.landed hm)
  refine ⟨h', hrun, hhole, ?_⟩
  have hw := wilderness_eq R (R.stands w hwm).inMem.foot rfl
  have hlast := C.last
  rw [hw, ← hend] at hlast
  -- the last footer stays
  have hfoot : h'.header w.foot = w.addr := by
    unfold Blk.stop at hstop
    rw [e.header (by unfold Blk.foot; omega), (R.stands w hwm).inMem.foot]
    rintro x hx (hw' | hw' | hl)
    · refine (hlast x hw').2 ?_
      unfold Blk.foot Blk.stop Bytes at *
      omega
    · have := R.apart hf hwm
      unfold Meta Blk.foot Blk.stop Bytes at *
      simp only at hw'
      rcases this with rfl | h | h <;> omega
    · refine R.meta_not_links hwm (.inr ?_) hl
      unfold Blk.foot Blk.stop Bytes at *
      omega
  rw [wilderness_eq R hfoot e.end_, lastSize, hw]
  by_cases hfw : f = w
  · have h0 : size ≠ 0 := by
      rintro rfl
      refine (hlast _ (stray_zero R hf (by omega))).2 ?_
      rw [hfw]
      unfold Blk.foot Blk.stop Bytes
      omega
    rw [← hfw, if_pos ⟨rfl, hs⟩, if_neg h0]
    exact hin.size
  · have hne : w.addr ≠ f.addr := fun h => hfw (R.eq_of_addr hf hwm h.symm)
    rw [if_neg fun h => hne h.1]
    unfold Blk.stop at hstop
    refine e.size (by omega) ?_
    rintro x hx (hw' | hw' | hl)
    · exact (hlast x hw').1 hx
    · have := R.apart hf hwm
      unfold Meta Blk.foot Blk.stop Bytes at *
      simp only at hw'
      rcases this with rfl | h | h
      · exact hfw rfl
      all_goals omega
    · refine R.meta_not_links hwm (.inl ?_) hl
      unfold Bytes at *
      omega

/-- How large the last block is once the block is taken, told from the heap before. -/
lemma take_last (R : Rep h bs L) (hr : search h size = .ok (i, found)) (hc : LandsClear h L found size) :
    ∃ h', take h i found size = .ok h' ∧ hole h' found = 0 ∧
      h'.size (getWilderness h') = lastSize h found size := by
  obtain ⟨f, hf, rfl, -, hm, hle, hsize⟩ := R.search_ok hr
  obtain ⟨pre, w, rfl⟩ : ∃ pre w, bs = pre ++ [w] :=
    ⟨_, _, (List.dropLast_append_getLast (List.ne_nil_of_mem hf)).symm⟩
  have hsplits := splits_iff (hsize ▸ hle) (readWord_lt ..)
  by_cases hfit : f.size ≤ size + 4 ∨ size = 0 ∧ 20 < f.size
  · obtain ⟨h', hrun, hhole, -, hw, hs⟩ := take_fits_last (i := i) R hf hle hfit
    exact ⟨h', hrun, hhole, by rw [hw, hs]⟩
  · have hs : splits h f.addr size = true := hsplits.mpr (by omega)
    rcases hc with hc | hc | C
    · rw [hs] at hc
      cases hc
    · exact absurd (hsize ▸ hc) fun h => hfit (.inr h)
    · exact take_clear_last R hf hm (by omega) C

end

end

/-- The small heap, which may not grow. -/
def smallState : State := ⟨small, 0x1084, fun _ => true, fun _ => 0, 0, 0, 0, true⟩

/-- Where its free block is not split. -/
lemma landsClear_small {i : Fin binCnt} {found : ℕ} (hr : search small 64 = .ok (i, found)) :
    LandsClear small (fun i => if i = getBinIndex 64 then [0x1030] else []) found 64 := by
  rw [search_small le_rfl] at hr
  cases hr
  exact .inl (by decide)

end ToeS.V1
