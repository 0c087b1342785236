import ToeS.Kheap.Free

/-!
# `kheap_alloc` on the abstract picture

`kheap_alloc` (`kern/mm/kheap.c`) on a heap that satisfies the invariant takes a free block of least
size among those that fit and replaces it by `allocate`: the block handed out and, when enough is
left over, a free block behind it. The new block is put in a bin and the size of the old one changed
while the old one is still linked, so the invariant does not hold in between; the steps are followed
on the bins alone (`Bins`) and put together at the end (`Rep.replace`).
-/

namespace ToeS.Kheap
open Lib

/-! ## The bin of a size -/

/-- The shifts count the binary digits. -/
lemma shiftCount_eq {n sz index : Nat} (h : sz < 2 ^ (n + 1)) :
    shiftCount n sz index = index + Nat.log 2 sz := by
  induction n generalizing sz index with
  | zero =>
    rw [shiftCount, Nat.log_of_lt (by omega), Nat.add_zero]
  | succ n ih =>
    have hdiv : sz >>> 1 = sz / 2 := by simp [Nat.shiftRight_eq_div_pow]
    rw [shiftCount, hdiv]
    by_cases hsz : sz / 2 ≠ 0
    · rw [if_pos hsz, ih (by rw [pow_succ] at h; omega),
        Nat.log_of_one_lt_of_le (by omega) (show 2 ≤ sz by omega)]
      omega
    · rw [if_neg hsz, Nat.log_of_lt (by omega), Nat.add_zero]

/-- The bin of a size is its logarithm, from 4 bytes on and up to the last bin. -/
lemma getBinIndex_val {sz : Nat} (h : sz < 4294967296) :
    (getBinIndex sz : Nat) = min (Nat.log 2 (max 4 sz) - 2) 8 := by
  have hmax : (if sz < 4 then 4 else sz) = max 4 sz := by split <;> omega
  have hcnt : shiftCount 32 (max 4 sz) 0 = Nat.log 2 (max 4 sz) := by
    rw [shiftCount_eq (by rw [Nat.max_lt]; omega), Nat.zero_add]
  unfold getBinIndex
  simp only [hmax, hcnt, binCnt_eq]
  split
  · simp only; omega
  · simp only; omega

/-- A larger size belongs in the same bin or a later one. -/
lemma getBinIndex_mono {a b : Nat} (hab : a ≤ b) (hb : b < 4294967296) :
    getBinIndex a ≤ getBinIndex b := by
  rw [Fin.le_def, getBinIndex_val (by omega), getBinIndex_val hb]
  have : Nat.log 2 (max 4 a) ≤ Nat.log 2 (max 4 b) := Nat.log_mono_right (by omega)
  omega

/-! ## The search -/

/-- The bin loop of `kheap_alloc` ends at the first bin that holds a fitting block. -/
lemma searchBins_spec {h : Heap} {L : Fin binCnt → List Nat} {sz n idx : Nat} (hB : Bins h L)
    (hn : binCnt < idx + n) (hex : ∃ k : Fin binCnt, idx ≤ k ∧ ∃ a ∈ L k, sz ≤ h.size a) :
    ∃ i a, searchBins h sz n idx = .ok (i, a) ∧ idx ≤ i ∧
      (L i).find? (fun x => decide (sz ≤ h.size x)) = some a ∧
      ∀ k : Fin binCnt, idx ≤ k → k < i → ∀ c ∈ L k, h.size c < sz := by
  obtain ⟨k, hk, a, ha, hsz⟩ := hex
  induction n generalizing idx with
  | zero => have := k.isLt; omega
  | succ n ih =>
    have hi : idx < binCnt := lt_of_le_of_lt hk k.isLt
    have hff := getFirstFit_spec sz (hB.bin ⟨idx, hi⟩) (hB.fits ⟨idx, hi⟩)
    rw [searchBins, dif_pos hi, hff]
    simp only [bind, Except.bind, pure, Except.pure]
    cases hf : (L ⟨idx, hi⟩).find? fun x => decide (sz ≤ h.size x) with
    | some c =>
      have h0 : c ≠ 0 := (hB.bin ⟨idx, hi⟩).chain.ne_null (List.mem_of_find?_eq_some hf)
      refine ⟨⟨idx, hi⟩, c, if_pos h0, le_refl _, hf, fun k h₁ h₂ => ?_⟩
      exact absurd h₂ (not_lt.mpr h₁)
    | none =>
      have hnone : ∀ c ∈ L ⟨idx, hi⟩, h.size c < sz := by
        intro c hc
        simpa using List.find?_eq_none.mp hf c hc
      have hne : idx ≠ k := by
        rintro rfl
        exact absurd hsz (not_le.mpr (hnone a ha))
      obtain ⟨i, c, hrun, hle, hc, hlt⟩ := @ih (idx + 1) (by omega) (by omega)
      refine ⟨i, c, by rw [Option.getD_none, if_neg (by simp), hrun], by omega, hc,
        fun k' h₁ h₂ => ?_⟩
      by_cases hk' : idx = k'
      · have : k' = ⟨idx, hi⟩ := Fin.ext hk'.symm
        rw [this]
        exact hnone
      · exact hlt k' (by omega) h₂

/-! ## The steps on the bins -/

section
variable {h : Heap} {L : Fin binCnt → List Nat} {i : Fin binCnt} {b n : Nat}

/-- The bytes the end of `kheap_alloc` writes: the hole byte, the payload and links. -/
def OutBytes (b n : Nat) (L : Fin binCnt → List Nat) (x : Nat) : Prop :=
  Bytes b (b + 1) x ∨ Bytes (b + 8) (b + 16 + n) x ∨ Links L x

/-- The end of `kheap_alloc`, for a block whose payload does not reach into another binned one. -/
lemma handOut_spec (hB : Bins h L) (hb : b ∈ L i) (hn : h.size b = n)
    (hfit : b + 16 + n ≤ 4294967296)
    (hoff : ∀ k, ∀ a ∈ L k, a = b ∨ b + 16 + n ≤ a ∨ a + 16 ≤ b) :
    ∃ h' L', handOut h i b = .ok (b + offset, h') ∧ Bins h' L' ∧
      (∀ k a, a ∈ L' k ↔ a ∈ L k ∧ a ≠ b) ∧ (∀ f, Sorted f L → Sorted f L') ∧
      Edit (OutBytes b n L) h h' ∧ h'.hole b = 0 ∧
      (∀ x, Bytes (b + 8) (b + 16 + n) x → h'.mem x = 0) ∧ L' = takeOut i b L := by
  have hb16 := hB.fits i b hb
  have hlinks : ∀ x, Links L x → x < b ∨ Bytes (b + 8) (b + 16) x ∨ b + 16 + n ≤ x := by
    rintro x ⟨k, a, ha, hx⟩
    unfold Bytes at *
    rcases hoff k a ha with rfl | h | h <;> omega
  -- the hole byte
  obtain ⟨h₁, eh₁⟩ : ∃ h₁, h₁ = h.setHole b 0 := ⟨_, rfl⟩
  have e₁ : Edit (Bytes b (b + 1)) h h₁ := by
    rw [eh₁]
    exact ⟨SameOff.writeByte (by omega), rfl, rfl⟩
  have hole₁ : h₁.hole b = 0 := by
    rw [Heap.hole, u32_eq (by omega), eh₁]
    exact writeByte_same (by omega)
  have hB₁ : Bins h₁ L := by
    refine hB.edit e₁ (by rw [eh₁]; rfl) fun x hx hw => ?_
    have := hlinks x hx
    unfold Bytes at *
    omega
  -- out of the bin
  obtain ⟨h₂, L', hrun, hB₂, hmem, hsort, e₂, hL⟩ := hB₁.remove hb
  have hsize₂ : h₂.size b = n := by
    have hw : ∀ x, Bytes (b + 4) (b + 8) x → ¬ Links L x := fun x hx hl => by
      have := hlinks x hl
      unfold Bytes at *
      omega
    rw [e₂.size (by omega) hw, e₁.size (by omega) (by unfold Bytes; omega), hn]
  -- the payload
  obtain ⟨h₃, eh₃⟩ : ∃ h₃, h₃ = { h₂ with mem := memset h₂.mem (b + 8) 0 (n + 8) } := ⟨_, rfl⟩
  have e₃ : Edit (Bytes (b + 8) (b + 16 + n)) h₂ h₃ := by
    rw [eh₃]
    refine ⟨SameOff.mono (SameOff.memset (by omega)) fun x hx => ?_, rfl, rfl⟩
    unfold Bytes at *
    omega
  have hB₃ : Bins h₃ L' := by
    refine hB₂.edit e₃ (by rw [eh₃]) ?_
    rintro x ⟨k, a, ha, hx⟩ hw
    obtain ⟨ha, hne⟩ := (hmem k a).mp ha
    unfold Bytes at *
    rcases hoff k a ha with rfl | h | h
    · exact hne rfl
    all_goals omega
  have hw₃ : ∀ x, Bytes b (b + 1) x ∨ Links L x → OutBytes b n L x := by
    unfold OutBytes
    tauto
  refine ⟨h₃, L', ?_, hB₃, hmem, hsort,
    (((e₁.mono fun _ => .inl).trans (e₂.mono fun _ => .inr)).mono hw₃).trans
      (e₃.mono fun x hx => .inr (.inl hx)), ?_, fun x hx => ?_, hL⟩
  · unfold handOut offset
    simp only [← eh₁, hrun, bind, Except.bind, pure, Except.pure, hsize₂]
    rw [u32_eq (n := b + 8) (by omega), u32_eq (n := n + 8) (by omega), eh₃]
  · have hl : ¬ Links L b := fun hl => by
      have := hlinks b hl
      unfold Bytes at this
      omega
    rw [e₃.hole (by omega) (by unfold Bytes; omega), e₂.hole (by omega) hl, hole₁]
  · rw [eh₃]
    have hx' : b + 8 ≤ x ∧ x < b + 8 + (n + 8) := by unfold Bytes at hx; omega
    simp only [memset_apply (show b + 8 + (n + 8) ≤ 4294967296 by omega), if_pos hx']

end

section
variable {h h' : Heap} {pre post : List Blk} {L L' : Fin binCnt → List Nat} {f s : Blk}

/-- Splitting: the tail of `f` becomes the block `s` of its own, in the bin of its size, and `f`
shrinks. The bins are sorted by the sizes from before `f` shrinks. -/
lemma splitBlock_spec {sz : Nat} (R : Rep h (pre ++ f :: post) L)
    (hsz : 20 + sz ≤ f.size) (hs : s = ⟨f.addr + 20 + sz, f.size - sz - 20, false⟩) :
    ∃ h' L' g, splitBlock h f.addr sz = .ok h' ∧ Bins h' L' ∧
      (∀ k a, a ∈ L' k ↔ a ∈ L k ∨ a = s.addr ∧ k = getBinIndex s.size) ∧ Sorted g L' ∧
      (∀ c ∈ pre ++ post, g c.addr = c.size) ∧ g s.addr = s.size ∧
      Blk.InMem h' ⟨f.addr, sz, true⟩ ∧ s.InMem h' ∧ h'.hole s.addr = 1 ∧
      Edit (fun x => f.Inside x ∨ Links L x) h h' ∧
      L' = putIn (sizeIn (s :: (pre ++ f :: post))) (getBinIndex s.size) s.addr L := by
  have hfm : f ∈ pre ++ f :: post := by simp
  have hbf := R.bounds hfm
  have hfs := (R.inMem f hfm).size
  have sa : s.addr = f.addr + 20 + sz := by rw [hs]
  have ss : s.size = f.size - sz - 20 := by rw [hs]
  have hstop : s.stop = f.stop := by unfold Blk.stop; omega
  have hsl : s.stop ≤ 4294967296 := by omega
  unfold Blk.stop at hbf
  have ha : u32 (f.addr + blckOverhead + sz) = s.addr := by
    rw [blckOverhead_eq, u32_eq (by omega), sa]
  have hn : sub32 (sub32 (h.size f.addr) sz) blckOverhead = s.size := by
    rw [hfs, blckOverhead_eq, sub32_eq (a := f.size) (by omega) (by omega),
      sub32_eq (by omega) (by omega), ss]
  -- links stay off the new block
  have hoff : ∀ k, ∀ a ∈ L k, a = f.addr ∨ a + 16 ≤ f.addr ∨ f.stop ≤ a := by
    intro k a ha
    obtain ⟨c, hc, rfl⟩ := R.blk_of_mem k a ha
    have := R.apart hfm hc
    unfold Blk.stop at *
    rcases this with rfl | h | h <;> omega
  have hlinks : ∀ x, Links L x → x < f.addr ∨ Bytes (f.addr + 8) (f.addr + 16) x ∨ f.stop ≤ x := by
    rintro x ⟨k, a, ha, hx⟩
    unfold Bytes at *
    rcases hoff k a ha with rfl | h | h <;> omega
  -- the new block, then into its bin
  obtain ⟨h₁, eh₁⟩ : ∃ h₁, h₁ = createFoot ((h.setSize s.addr s.size).setHole s.addr 1) s.addr :=
    ⟨_, rfl⟩
  have st := stamp_spec hsl eh₁
  obtain ⟨h₂, L', hrun, hB₂, hmem, hsort, m₂, o₂, e₂, hL⟩ :=
    R.bins.make R.sorted st hsl (by omega) fun k a ha => by
      have := hoff k a ha
      omega
  have hne : ∀ c ∈ pre ++ f :: post, c.addr ≠ s.addr := by
    intro c hc e
    have hap := R.apart hfm hc
    unfold Blk.stop at *
    rcases hap with rfl | h | h <;> omega
  have hsizes : L' = putIn (sizeIn (s :: (pre ++ f :: post))) (getBinIndex s.size) s.addr L := by
    rw [hL]
    refine putIn_congr ?_ fun a ha => ?_
    · rw [st.1.size]
      simp [sizeIn]
    · obtain ⟨c, hc, rfl⟩ := R.blk_of_mem _ a ha
      have hbc := R.bounds hc
      have := R.apart hfm hc
      have hin : ∀ x, Bytes (c.addr + 4) (c.addr + 8) x → ¬ s.Inside x := by
        unfold Blk.Inside Blk.stop Bytes at *
        rcases this with rfl | h | h <;> omega
      have hcons : sizeIn (s :: (pre ++ f :: post)) c.addr = sizeIn (pre ++ f :: post) c.addr := by
        simp [sizeIn, List.find?_cons, (hne c hc).symm]
      rw [st.2.2.1.size (by unfold Blk.stop at hbc; omega) hin, (R.inMem c hc).size, hcons,
        R.sizeIn_eq hc]
  have e₁₂ : Edit (fun x => f.Inside x ∨ Links L x) h h₂ := by
    refine e₂.mono fun x => Or.imp_left ?_
    unfold Blk.Inside Bytes
    omega
  -- `found` shrinks
  obtain ⟨d, hd⟩ : ∃ d : Blk, d = ⟨f.addr, sz, true⟩ := ⟨_, rfl⟩
  have da : d.addr = f.addr := by rw [hd]
  have ds : d.size = sz := by rw [hd]
  have hdstop : d.stop = s.addr := by unfold Blk.stop; omega
  obtain ⟨h₃, eh₃⟩ : ∃ h₃, h₃ = h₂.setSize d.addr sz := ⟨_, rfl⟩
  have e₃ : Edit (Bytes (d.addr + 4) (d.addr + 8)) h₂ h₃ := eh₃ ▸ .setSize (by omega)
  have s₃ : h₃.size d.addr = d.size := by
    rw [eh₃, size_setSize (by omega) (by omega), ds]
  obtain ⟨h₄, eh₄⟩ : ∃ h₄, h₄ = createFoot h₃ d.addr := ⟨_, rfl⟩
  obtain ⟨m₄, e₄⟩ : d.InMem h₄ ∧ Edit (Bytes d.foot d.stop) h₃ h₄ :=
    eh₄ ▸ createFoot_spec s₃ (by omega)
  have e₂₄ : Edit d.Fields h₂ h₄ := (e₃.mono fun _ => .inl).trans (e₄.mono fun _ => .inr)
  have hlinks' : ∀ x, Links L' x → ¬ d.Fields x := by
    rintro x ⟨k, a, ha, hx⟩ hw
    unfold Blk.Fields Blk.foot Blk.stop Bytes at *
    rcases (hmem k a).mp ha with ha | ⟨rfl, -⟩
    · rcases hoff k a ha with rfl | h | h <;> omega
    · omega
  have hB₄ : Bins h₄ L' := hB₂.edit e₂₄ (by rw [eh₄, eh₃]; rfl) hlinks'
  have hw : ∀ x, d.Fields x → f.Inside x := by
    unfold Blk.Fields Blk.Inside Blk.foot Blk.stop Bytes at *
    omega
  have hsize : ∀ c ∈ pre ++ post, h₂.size c.addr = c.size := fun c hc => by
    have hbc := R.bounds (mem_middle (b := f) hc)
    exact ((R.inMem c (mem_middle hc)).edit e₁₂ (by omega) fun x => R.fields_off hc).size
  refine ⟨h₄, L', h₂.size, ?_, hB₄, hmem, hsort, hsize, m₂.size,
    hd ▸ m₄, ?_, ?_, e₁₂.trans (e₂₄.mono fun x hx => .inl (hw x hx)), hsizes⟩
  · rw [splitBlock, ha, hn]
    simp only [← eh₁, hrun, bind, Except.bind, pure, Except.pure]
    rw [← da, ← eh₃, ← eh₄]
  · refine m₂.edit e₂₄ hsl fun x hx hw => ?_
    unfold Blk.Fields Blk.foot Blk.stop Bytes at *
    omega
  · rw [e₂₄.hole (by omega), o₂]
    unfold Blk.Fields Blk.foot Blk.stop Bytes at *
    omega

/-! ## The whole allocation -/

/-- What `kheap_alloc` makes of the free block it has found. -/
def allocate (f : Blk) (sz : Nat) : List Blk :=
  if f.size - sz > 24 then
    [⟨f.addr, sz, true⟩, ⟨f.addr + 20 + sz, f.size - sz - 20, false⟩]
  else [{ f with live := true }]

/-- A block is replaced by blocks that tile the same bytes. -/
lemma Rep.replace {W : Nat → Prop} {r : List Blk} (R : Rep h (pre ++ f :: post) L)
    (ht : Tiles Blk.addr Blk.stop f.addr r f.stop) (e : Edit W h h')
    (hW : ∀ x, W x → f.Inside x ∨ Links L x) (hin : ∀ b ∈ r, b.InMem h') (hB : Bins h' L')
    (hmem : ∀ i a, a ∈ L' i ↔ FreeAt (pre ++ r ++ post) i a) {g : Nat → Nat} (hsort : Sorted g L')
    (hg : ∀ b ∈ pre ++ r ++ post, b.live = false → g b.addr = b.size) :
    Rep h' (pre ++ r ++ post) L' := by
  have hfm : f ∈ pre ++ f :: post := by simp
  have hall : ∀ b ∈ pre ++ r ++ post, b.InMem h' := by
    intro b hb
    by_cases hr : b ∈ r
    · exact hin b hr
    · have hb' : b ∈ pre ++ post := by simp at hb ⊢; tauto
      have hb'' : b ∈ pre ++ f :: post := by simp at hb' ⊢; tauto
      exact (R.inMem b hb'').edit e (by have := R.bounds hb''; omega) fun x hx hw =>
        R.fields_off hb' hx (hW x hw)
  refine ⟨e.start.trans R.start, e.end_.trans R.end_, ?_, hall, hB.bin, hmem, ?_⟩
  · obtain ⟨t₁, t₂⟩ := tiles_middle.mp R.tiles
    exact tiles_append.mpr ⟨_, tiles_append.mpr ⟨_, t₁, ht⟩, t₂⟩
  · intro i
    refine (hsort i).imp_of_mem fun {a c} ha hc hac => ?_
    obtain ⟨b, hb, rfl, hf, -⟩ := (hmem i a).mp ha
    obtain ⟨d, hd, rfl, hf', -⟩ := (hmem i c).mp hc
    rw [hg b hb hf, hg d hd hf'] at hac
    rwa [(hall b hb).size, (hall d hd).size]

/-- Size, footer and hole byte of a block are no links of a block of the same tiling. -/
lemma Blk.off_link {bs : List Blk} {lo hi x : Nat} {b c : Blk}
    (ht : Tiles Blk.addr Blk.stop lo bs hi) (hb : b ∈ bs) (hc : c ∈ bs)
    (hx : b.Fields x ∨ x = b.addr) : ¬ Bytes (c.addr + 8) (c.addr + 16) x := by
  have := ht.apart Blk.addr_lt_stop hb hc
  unfold Blk.Fields Blk.foot Blk.stop Bytes at *
  rcases this with rfl | h | h <;> omega

/-- The end of `kheap_alloc` on the picture: `f` has been cut into `d`, which is handed out, and the
free blocks `r`. -/
lemma handOut_rep {d : Blk} {r : List Blk} {g : Nat → Nat} (R : Rep h (pre ++ f :: post) L)
    (e : Edit (fun x => f.Inside x ∨ Links L x) h h') (hB : Bins h' L') (hd : d.live = true)
    (hda : d.addr = f.addr) (hf : f.live = false)
    (ht : Tiles Blk.addr Blk.stop f.addr (d :: r) f.stop) (hr : ∀ s ∈ r, s.live = false)
    (hin : ∀ b ∈ d :: r, b.InMem h')
    (hmem : ∀ k a, a ∈ L' k ↔ a ∈ L k ∨ ∃ s ∈ r, a = s.addr ∧ k = getBinIndex s.size)
    (hsort : Sorted g L') (hg : ∀ c ∈ pre ++ post, g c.addr = c.size)
    (hgr : ∀ s ∈ r, g s.addr = s.size) (hhole : ∀ s ∈ r, h'.hole s.addr = 1) :
    ∃ h₂ L₂, handOut h' (getBinIndex f.size) f.addr = .ok (f.addr + offset, h₂) ∧
      Rep h₂ (pre ++ (d :: r) ++ post) L₂ ∧ Edit (fun x => f.Inside x ∨ Links L x) h h₂ ∧
      (∀ c ∈ pre ++ post, h₂.hole c.addr = h.hole c.addr) ∧ Holes h₂ (d :: r) ∧
      (∀ x, Bytes (f.addr + 8) (f.addr + 16 + d.size) x → h₂.mem x = 0) ∧
      L₂ = takeOut (getBinIndex f.size) f.addr L' := by
  have hfm : f ∈ pre ++ f :: post := by simp
  have hbf := R.bounds hfm
  have T : Tiles Blk.addr Blk.stop kheapStart (pre ++ (d :: r) ++ post) kheapEnd := by
    obtain ⟨t₁, t₂⟩ := tiles_middle.mp R.tiles
    exact tiles_append.mpr ⟨_, tiles_append.mpr ⟨_, t₁, ht⟩, t₂⟩
  have hdm : d ∈ pre ++ (d :: r) ++ post := by simp
  have hbd := ht.bounds Blk.addr_lt_stop (b := d) (by simp)
  have hrd : ∀ s ∈ r, d.stop ≤ s.addr ∧ s.stop ≤ f.stop := fun s hs =>
    ht.2.bounds Blk.addr_lt_stop hs
  -- whatever is in a bin now is a block of the new tiling
  have hat : ∀ k a, a ∈ L' k → ∃ c ∈ pre ++ (d :: r) ++ post, c.addr = a := by
    intro k a ha
    rcases (hmem k a).mp ha with ha | ⟨s, hs, rfl, -⟩
    · obtain ⟨c, hc, rfl⟩ := R.blk_of_mem k a ha
      rcases List.mem_append.mp hc with hc | hc
      · exact ⟨c, by simp [hc], rfl⟩
      · rcases List.mem_cons.mp hc with rfl | hc
        · exact ⟨d, hdm, hda⟩
        · exact ⟨c, by simp [hc], rfl⟩
    · exact ⟨s, by simp [hs], rfl⟩
  have hoff : ∀ k, ∀ a ∈ L' k, a = f.addr ∨ f.addr + 16 + d.size ≤ a ∨ a + 16 ≤ f.addr := by
    intro k a ha
    obtain ⟨c, hc, rfl⟩ := hat k a ha
    have := T.apart Blk.addr_lt_stop hdm hc
    unfold Blk.stop at *
    rcases this with rfl | h | h <;> omega
  have hfin : f.addr ∈ L' (getBinIndex f.size) := (hmem _ _).mpr (.inl (R.mem_bin hfm hf))
  have hdsz : h'.size f.addr = d.size := hda ▸ (hin d (by simp)).size
  obtain ⟨h₂, L₂, hrun, hB₂, hmem₂, hsort₂, e₂, ho₂, hz₂, hL₂⟩ :=
    handOut_spec hB hfin hdsz (by unfold Blk.stop at *; omega) hoff
  have hw : ∀ x, OutBytes f.addr d.size L' x → f.Inside x ∨ Links L x := by
    rintro x (hx | hx | ⟨k, a, ha, hx⟩)
    · left; unfold Blk.Inside Blk.stop Bytes at *; omega
    · left; unfold Blk.Inside Blk.stop Bytes at *; omega
    · rcases (hmem k a).mp ha with ha | ⟨s, hs, rfl, -⟩
      · exact .inr ⟨k, a, ha, hx⟩
      · have := hrd s hs
        left; unfold Blk.Inside Blk.stop Bytes at *; omega
  have e' := e.trans (e₂.mono hw)
  -- the fields and hole bytes of the new blocks survive
  have hnew : ∀ b ∈ d :: r, ∀ x, b.Fields x ∨ x = b.addr ∧ b ≠ d → ¬ OutBytes f.addr d.size L' x := by
    intro b hb x hx hw
    have hbd : b = d ∨ d.stop ≤ b.addr := by
      rcases List.mem_cons.mp hb with rfl | hb
      · exact .inl rfl
      · exact .inr (hrd b hb).1
    rcases hw with hw | hw | ⟨k, a, ha, hw⟩
    · unfold Blk.Fields Blk.foot Blk.stop Bytes at *
      rcases hbd with rfl | h
      · rcases hx with hx | ⟨-, hx⟩
        · omega
        · exact hx rfl
      · omega
    · unfold Blk.Fields Blk.foot Blk.stop Bytes at *
      rcases hbd with rfl | h
      · rcases hx with hx | ⟨-, hx⟩
        · omega
        · exact hx rfl
      · omega
    · obtain ⟨c, hc, rfl⟩ := hat k a ha
      exact Blk.off_link T (b := b) (by simp at hb ⊢; tauto) hc (hx.imp_right And.left) hw
  have hin₂ : ∀ b ∈ d :: r, b.InMem h₂ := fun b hb =>
    (hin b hb).edit e₂ (by have := ht.bounds Blk.addr_lt_stop hb; omega) fun x hx =>
      hnew b hb x (.inl hx)
  have hne : ∀ s ∈ r, s ≠ d := fun s hs e => by
    have := hr s hs
    rw [e, hd] at this
    cases this
  refine ⟨h₂, L₂, hrun, ?_, e', fun c hc => ?_, fun b hb => ?_, hz₂, hL₂⟩
  · refine R.replace ht e' (fun _ hx => hx) hin₂ hB₂ (fun i a => ?_) (hsort₂ g hsort)
      fun b hb hl => ?_
    · rw [hmem₂, hmem, R.mem_iff, freeAt_middle]
      constructor
      · rintro ⟨(⟨c, hc, h⟩ | ⟨rfl, -⟩) | ⟨s, hs, rfl, rfl⟩, hne⟩
        · exact ⟨c, by simp at hc ⊢; tauto, h⟩
        · exact absurd rfl hne
        · exact ⟨s, by simp [hs], rfl, hr s hs, rfl⟩
      · rintro ⟨c, hc, rfl, hl, rfl⟩
        by_cases hcr : c ∈ r
        · refine ⟨.inr ⟨c, hcr, rfl, rfl⟩, ?_⟩
          have := hrd c hcr
          have := d.addr_lt_stop
          omega
        · have hc' : c ∈ pre ++ post := by
            have : c ≠ d := fun e => by rw [e, hd] at hl; cases hl
            simp at hc ⊢
            tauto
          refine ⟨.inl (.inl ⟨c, hc', rfl, hl, rfl⟩), fun e => ?_⟩
          have := R.around hc'
          have := c.addr_lt_stop
          have := f.addr_lt_stop
          omega
    · by_cases hbr : b ∈ r
      · exact hgr b hbr
      · refine hg b ?_
        have : b ≠ d := fun e => by rw [e, hd] at hl; cases hl
        simp at hb ⊢
        tauto
  · have := R.around hc
    have := R.bounds (mem_middle (b := f) hc)
    have := c.addr_lt_stop
    rw [e'.hole (by omega)]
    rintro (hx | hx)
    · unfold Blk.Inside Bytes at hx; omega
    · exact R.addr_not_links (mem_middle hc) hx
  · rcases List.mem_cons.mp hb with rfl | hbr
    · rw [hda, ho₂, hd]
      simp
    · have := ht.bounds Blk.addr_lt_stop hb
      have := b.addr_lt_stop
      rw [e₂.hole (by omega) (hnew b hb _ (.inr ⟨rfl, hne b hbr⟩)), hhole b hbr, hr b hbr]
      simp

/-- The free block that `kheap_alloc` takes: of least size among those that fit, and the first of its
bin that is not too small. -/
structure BestFit (bs : List Blk) (L : Fin binCnt → List Nat) (sz : Nat) (f : Blk) : Prop where
  mem : f ∈ bs
  free : f.live = false
  fits : sz ≤ f.size
  least : ∀ c ∈ bs, c.live = false → sz ≤ c.size → f.size ≤ c.size
  first : ∃ older younger, L (getBinIndex f.size) = older ++ f.addr :: younger ∧
    ∀ a ∈ older, sizeIn bs a < sz

/-- `kheap_alloc` finds a free block of least size among those that fit. -/
lemma search_spec {bs : List Blk} {sz : Nat} (R : Rep h bs L)
    (hex : ∃ b ∈ bs, b.live = false ∧ sz ≤ b.size) :
    ∃ f, BestFit bs L sz f ∧
      searchBins h sz (binCnt + 1) (getBinIndex sz) = .ok (getBinIndex f.size, f.addr) := by
  have hlt : ∀ c ∈ bs, c.size < 4294967296 := fun c hc => by
    have := R.bounds hc
    unfold Blk.stop at this
    omega
  have hex' : ∃ k : Fin binCnt, (getBinIndex sz : Nat) ≤ k ∧ ∃ a ∈ L k, sz ≤ h.size a := by
    obtain ⟨b, hb, hf, hsz⟩ := hex
    exact ⟨_, getBinIndex_mono hsz (hlt b hb), _, R.mem_bin hb hf, by rwa [(R.inMem b hb).size]⟩
  obtain ⟨i, a, hrun, -, hfind, hnone⟩ :=
    searchBins_spec (n := binCnt + 1) R.bins (by have := (getBinIndex sz).isLt; omega) hex'
  obtain ⟨hsz, l₁, l₂, hl, hl₁⟩ := List.find?_eq_some_iff_append.mp hfind
  obtain ⟨f, hf, rfl, hff, rfl⟩ := (R.mem_iff i a).mp (List.mem_of_find?_eq_some hfind)
  rw [decide_eq_true_eq, (R.inMem f hf).size] at hsz
  refine ⟨f, ⟨hf, hff, hsz, fun c hc hcf hcsz => ?_, l₁, l₂, hl, fun a ha => ?_⟩, hrun⟩
  · have hci := R.mem_bin hc hcf
    have hcs := (R.inMem c hc).size
    -- bins before the one found hold nothing that fits, later ones only larger blocks
    rcases lt_trichotomy (getBinIndex c.size) (getBinIndex f.size) with h | h | h
    · have := hnone _ (getBinIndex_mono hcsz (hlt c hc)) h _ hci
      omega
    · rw [h, hl] at hci
      have hs := R.sorted (getBinIndex f.size)
      rw [hl] at hs
      rcases List.mem_append.mp hci with hci | hci
      · have := hl₁ _ hci
        simp [hcs] at this
        omega
      · rcases List.mem_cons.mp hci with hci | hci
        · rw [R.eq_of_addr hc hf hci]
        · have := List.rel_of_pairwise_cons (List.pairwise_append.mp hs).2.1 hci
          rwa [hcs, (R.inMem f hf).size] at this
    · by_contra hlt'
      exact absurd h (not_lt.mpr (getBinIndex_mono (by omega) (hlt f hf)))
  · obtain ⟨c, hc, rfl⟩ := R.blk_of_mem (getBinIndex f.size) a (by simp [hl, ha])
    have := hl₁ _ ha
    rw [R.sizeIn_eq hc]
    simpa [(R.inMem c hc).size] using this

/-- What is left over of the block that is cut. -/
def remainder (f : Blk) (sz : Nat) : Blk := ⟨f.addr + 20 + sz, f.size - sz - 20, false⟩

/-- The bins after `f` has been handed out. -/
def allocateBins (bs : List Blk) (f : Blk) (sz : Nat) (L : Fin binCnt → List Nat) :
    Fin binCnt → List Nat :=
  takeOut (getBinIndex f.size) f.addr
    (if f.size - sz > 24 then
      putIn (sizeIn (remainder f sz :: bs)) (getBinIndex (remainder f sz).size)
        (remainder f sz).addr L
    else L)

/-- `kheap_alloc` of a size for which some free block is large enough returns; it acts on the blocks
as `allocate`, at a free block of least size among those that fit, and zeroes what it hands out. -/
theorem kheapAlloc_spec {bs : List Blk} {sz : Nat} (R : Rep h bs L)
    (hex : ∃ b ∈ bs, b.live = false ∧ sz ≤ b.size) :
    ∃ pre f post h', bs = pre ++ f :: post ∧ BestFit bs L sz f ∧
      kheapAlloc h sz = .ok (f.addr + offset, h') ∧
      Rep h' (pre ++ allocate f sz ++ post) (allocateBins bs f sz L) ∧
      Edit (fun x => f.Inside x ∨ Links L x) h h' ∧
      (∀ c ∈ pre ++ post, h'.hole c.addr = h.hole c.addr) ∧ Holes h' (allocate f sz) ∧
      ∀ b ∈ (allocate f sz).head?, ∀ x, Bytes (b.addr + 8) (b.addr + 16 + b.size) x →
        h'.mem x = 0 := by
  obtain ⟨f, hbest, hrun⟩ := search_spec R hex
  have hfm := hbest.mem
  have hf := hbest.free
  have hsz := hbest.fits
  obtain ⟨pre, post, rfl⟩ := List.append_of_mem hfm
  have hbf := R.bounds hfm
  have hlt : f.size < 4294967296 := by unfold Blk.stop at hbf; omega
  have hsub : sub32 (h.size f.addr) sz = f.size - sz := by
    rw [(R.inMem f hfm).size, sub32_eq hsz hlt]
  have hcond : sub32 (h.size f.addr) sz > blckOverhead + minAllocSz ↔ f.size - sz > 24 := by
    rw [hsub]
    rfl
  by_cases hbig : f.size - sz > 24
  · obtain ⟨s, hs⟩ : ∃ s : Blk, s = remainder f sz := ⟨_, rfl⟩
    have ha : allocate f sz = [⟨f.addr, sz, true⟩, s] := by rw [allocate, if_pos hbig, hs]; rfl
    obtain ⟨h₁, L₁, g, hrun₁, hB₁, hmem₁, hsort₁, hg₁, hgs₁, hd₁, hs₁, ho₁, e₁, hL₁⟩ :=
      splitBlock_spec R (by omega) hs
    have ht : Tiles Blk.addr Blk.stop f.addr [⟨f.addr, sz, true⟩, s] f.stop := by
      have h₁ : s.addr = f.addr + sz + 20 := by rw [hs]; simp only [remainder]; omega
      have h₂ : s.stop = f.stop := by rw [hs]; unfold Blk.stop; simp only [remainder]; omega
      exact ⟨rfl, h₁, h₂⟩
    obtain ⟨h₂, L₂, hrun₂, R₂, e₂, ho₂, hh₂, hz₂, hL₂⟩ :=
      handOut_rep (d := ⟨f.addr, sz, true⟩) (r := [s]) R e₁ hB₁ rfl rfl hf ht
        (by simp [hs, remainder]) (by simp [hd₁, hs₁]) (by simpa using hmem₁) hsort₁ hg₁
        (by simpa using hgs₁) (by simpa using ho₁)
    have hbins : allocateBins (pre ++ f :: post) f sz L = L₂ := by
      rw [allocateBins, if_pos hbig, ← hs, ← hL₁, hL₂]
    refine ⟨pre, f, post, h₂, rfl, hbest, ?_, hbins ▸ ha ▸ R₂, e₂, ho₂, ha ▸ hh₂, ?_⟩
    · simp only [kheapAlloc, hrun, bind, Except.bind, if_pos (hcond.mpr hbig), hrun₁, hrun₂]
    · rw [ha]
      rintro b ⟨⟩
      exact hz₂
  · have ha : allocate f sz = [{ f with live := true }] := by rw [allocate, if_neg hbig]
    have hin := R.inMem f hfm
    obtain ⟨h₂, L₂, hrun₂, R₂, e₂, ho₂, hh₂, hz₂, hL₂⟩ :=
      handOut_rep (d := { f with live := true }) (r := []) R (.refl _ _) R.bins rfl rfl hf
        ⟨rfl, rfl⟩ (by simp) (by simpa using ⟨hin.size, hin.foot⟩) (by simp) R.sorted
        (fun c hc => (R.inMem c (mem_middle hc)).size) (by simp) (by simp)
    have hbins : allocateBins (pre ++ f :: post) f sz L = L₂ := by
      rw [allocateBins, if_neg hbig, hL₂]
    refine ⟨pre, f, post, h₂, rfl, hbest, ?_, hbins ▸ ha ▸ R₂, e₂, ho₂, ha ▸ hh₂, ?_⟩
    · simp only [kheapAlloc, hrun, bind, Except.bind, if_neg (mt hcond.mp hbig), pure, Except.pure,
        hrun₂]
    · rw [ha]
      rintro b ⟨⟩
      exact hz₂

end

end ToeS.Kheap
