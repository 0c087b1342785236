import ToeS.Frames.Bitset

/-!
# Physical frames

Model of `get_frame`, `set_frame` and `free_frame` of `kern/mm/pmm.c` over the bitset `frames`.
`get_frame` and `set_frame` speak of byte addresses, `free_frame` of frame numbers. What `kprintf`
writes is left out.
-/

namespace ToeS.Frames
open Lib

/-- What `get_frame` returns when there is no clear bit. -/
def noFrame : Nat := 0xffffffff

/-- Marks the frame of the address as used; 0 when it is out of range (C `set_frame`). -/
def setFrame (frames : BitSet) (addr : Nat) : Nat × BitSet :=
  let idx := addr / pgSz
  if idx < bsGetSize frames then (1, bsSet frames idx) else (0, frames)

/-- Takes the first free frame and returns its address (C `get_frame`). -/
def getFrame (frames : BitSet) : Nat × BitSet :=
  let idx := bsFirstClr frames
  if idx = bsGetSize frames then (noFrame, frames)
  else (u32 (idx * pgSz), (setFrame frames (u32 (idx * pgSz))).2)

/-- Marks the frame with the number `addr` as free (C `free_frame`). -/
def freeFrame (frames : BitSet) (addr : Nat) : BitSet := bsClr frames addr

section
variable {bs : BitSet} {idx : Nat}

/-- `get_frame` fails when all frames are used, and else takes the first free one, if its address
has 32 bits. -/
lemma getFrame_spec (hs : bs.sz * 32 < 4294967296) :
    getFrame bs = (noFrame, bs) ∧ (∀ k < bsGetSize bs, get bs k = true) ∨
      ∃ idx, idx < bsGetSize bs ∧ get bs idx = false ∧ (∀ k < idx, get bs k = true) ∧
        (idx < 1048576 → getFrame bs = (idx * 4096, bsSet bs idx)) := by
  obtain ⟨hbelow, -, h⟩ := bsFirstClr_spec hs
  rcases h with h | ⟨hlt, hclr⟩
  · refine .inl ⟨by rw [getFrame, if_pos h], fun k hk => hbelow k (Nat.zero_le k) (by omega)⟩
  · refine .inr ⟨bsFirstClr bs, hlt, hclr, fun k hk => hbelow k (Nat.zero_le k) hk, fun hi => ?_⟩
    have hu : u32 (bsFirstClr bs * pgSz) = bsFirstClr bs * 4096 := u32_eq (by simp; omega)
    have hdiv : bsFirstClr bs * 4096 / pgSz = bsFirstClr bs := Nat.mul_div_cancel _ (by decide)
    rw [getFrame, if_neg (by omega), hu, setFrame, hdiv, if_pos hlt]

/-- `set_frame` leaves the number of words. -/
lemma setFrame_sz {addr : Nat} : (setFrame bs addr).2.sz = bs.sz := by
  simp only [setFrame]
  split
  · exact sz_set
  · rfl

/-- `get_frame` leaves the number of words. -/
lemma getFrame_sz : (getFrame bs).2.sz = bs.sz := by
  simp only [getFrame]
  split
  · rfl
  · exact setFrame_sz

/-- A frame address is not the error value. -/
lemma frame_ne_noFrame : idx * 4096 ≠ noFrame := by
  unfold noFrame
  omega

/-- A frame in range is marked by its address. -/
lemma setFrame_of_lt (h : idx < bsGetSize bs) : setFrame bs (idx * 4096) = (1, bsSet bs idx) := by
  have hdiv : idx * 4096 / pgSz = idx := Nat.mul_div_cancel _ (by decide)
  rw [setFrame, hdiv, if_pos h]

/-- Past the size there are no bits. -/
lemma get_of_ge (hs : bs.sz * 32 < 4294967296) (h : bsGetSize bs ≤ idx) : get bs idx = false := by
  rw [bsGetSize, u32_eq hs] at h
  have hnone : bs.bits[idx / 32]? = none := Vector.getElem?_eq_none (by omega)
  rw [get, hnone]
  exact BitVec.getLsbD_zero

/-- `bs_clr` at any index. -/
lemma get_bsClr {j : Nat} (hs : bs.sz * 32 < 4294967296) :
    get (bsClr bs idx) j = (get bs j && !decide (j = idx)) := by
  by_cases h : idx < bsGetSize bs
  · rw [get_clr h]
  · rw [bsClr, dif_neg h]
    by_cases hj : j = idx
    · rw [hj, get_of_ge hs (not_lt.mp h)]
      simp
    · simp [hj]

/-- What `get_frame` does when a frame is free, whatever its number. -/
lemma getFrame_clear (hs : bs.sz * 32 < 4294967296) (h : ∃ k < bsGetSize bs, get bs k = false) :
    bsFirstClr bs < bsGetSize bs ∧ get bs (bsFirstClr bs) = false ∧
      (∀ k < bsFirstClr bs, get bs k = true) ∧
      getFrame bs = (u32 (bsFirstClr bs * 4096), bsSet bs (bsFirstClr bs % 1048576)) := by
  obtain ⟨k, hk, hkc⟩ := h
  obtain ⟨hbelow, -, h⟩ := bsFirstClr_spec hs
  have hbelow : ∀ j < bsFirstClr bs, get bs j = true := fun j hj => hbelow j (Nat.zero_le j) hj
  obtain ⟨hlt, hclr⟩ : bsFirstClr bs < bsGetSize bs ∧ get bs (bsFirstClr bs) = false := by
    refine h.resolve_left fun he => ?_
    rw [hbelow k (he ▸ hk)] at hkc
    cases hkc
  have hdiv : u32 (bsFirstClr bs * pgSz) / pgSz = bsFirstClr bs % 1048576 := by
    unfold u32
    rw [pgSz_eq]
    omega
  refine ⟨hlt, hclr, hbelow, ?_⟩
  rw [getFrame, if_neg (by omega), setFrame, hdiv, if_pos (by omega)]
  rfl

/-! ## Giving back what was taken -/

/-- `free_frame` of the address that `get_frame` returned restores the bits. -/
def Restores (bs : BitSet) : Prop :=
  ∀ k, get (freeFrame (getFrame bs).2 (getFrame bs).1) k = get bs k

/-- `free_frame` takes a frame number, so giving it an address restores the bits only for frame 0,
and for a frame beyond 4 GiB whose address, cut to 32 bits, is not the number of a used frame. -/
theorem restores_iff (hs : bs.sz * 32 < 4294967296) (h : ∃ k < bsGetSize bs, get bs k = false) :
    Restores bs ↔ bsFirstClr bs = 0 ∨
      1048576 ≤ bsFirstClr bs ∧ get bs (u32 (bsFirstClr bs * 4096)) = false := by
  obtain ⟨hlt, hclr, hbelow, hrun⟩ := getFrame_clear hs h
  obtain ⟨idx, hidx⟩ : ∃ idx, idx = bsFirstClr bs := ⟨_, rfl⟩
  rw [← hidx] at hlt hclr hbelow hrun ⊢
  have hafter : ∀ k, get (freeFrame (getFrame bs).2 (getFrame bs).1) k =
      ((get bs k || decide (k = idx % 1048576)) && !decide (k = u32 (idx * 4096))) := by
    intro k
    have hin : idx % 1048576 < bsGetSize bs := by omega
    rw [hrun, freeFrame, get_bsClr (by rwa [sz_set])]
    rw [get_set hin]
  have hu : u32 (idx * 4096) = idx % 1048576 * 4096 := by
    unfold u32
    omega
  unfold Restores
  simp only [hafter]
  by_cases h20 : idx < 1048576
  · rw [Nat.mod_eq_of_lt h20] at hu ⊢
    rw [hu]
    constructor
    · intro hr
      have := hr idx
      rw [hclr] at this
      simp only [decide_true, Bool.or_true, Bool.true_and, Bool.not_eq_false', decide_eq_true_eq]
        at this
      exact .inl (by omega)
    · rintro (rfl | ⟨h, -⟩)
      · intro k
        by_cases hk : k = 0
        · subst hk
          rw [hclr]
          rfl
        · simp [hk]
      · omega
  · -- the bit that `set_frame` sets is one of those below, and was set
    have hset : get bs (idx % 1048576) = true := hbelow _ (by omega)
    have hor : ∀ k, (get bs k || decide (k = idx % 1048576)) = get bs k := by
      intro k
      by_cases hk : k = idx % 1048576
      · rw [hk, hset]
        rfl
      · simp [hk]
    simp only [hor]
    constructor
    · intro hr
      refine .inr ⟨by omega, ?_⟩
      rw [← hr (u32 (idx * 4096))]
      simp
    · rintro (h0 | ⟨-, hf⟩)
      · omega
      · intro k
        by_cases hk : k = u32 (idx * 4096)
        · rw [hk, hf]
          rfl
        · simp [hk]

end

/-- A bitset of 32 frames whose first is used: `get_frame` takes the second. -/
theorem restores_iff_second : Restores ⟨1, #v[1#32]⟩ ↔ bsFirstClr ⟨1, #v[1#32]⟩ = 0 ∨
    1048576 ≤ bsFirstClr ⟨1, #v[1#32]⟩ ∧
      get ⟨1, #v[1#32]⟩ (u32 (bsFirstClr ⟨1, #v[1#32]⟩ * 4096)) = false :=
  restores_iff (by decide) ⟨1, by decide, by decide⟩

/-- The bit of the second frame stays set: 4096 is no frame of the bitset. -/
theorem not_restores_second : ¬ Restores ⟨1, #v[1#32]⟩ := by
  intro h
  have := h 1
  revert this
  decide

end ToeS.Frames
