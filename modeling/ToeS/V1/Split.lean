import ToeS.Kheap.Alloc
import ToeS.Lib.Run
import ToeS.V1.Inv

/-!
# Splitting a block of the v1 heap

`alloc` (`v1/os/kheap.c`) computes the address of the remainder with a pointer to a node, so the size
that was asked for is counted sixteen times, and it splits as soon as more than four bytes are left over.
For which blocks and sizes the parts make up the block nevertheless is in `take_fits` and
`Partitions.zero`. What the other splits do is known as long as the remainder lands clear of what is in use
(`take_split`).
-/

namespace ToeS.V1
open Lib Kheap

/-- The block at `found` is still whole in `h'`, or it is in two parts that occupy the bytes it had in
`h`, with room in the second one for a header, a footer and more. -/
structure Partitions (h h' : Heap) (found size : Nat) : Prop where
  whole : splits h found size = false → (⟨found, h.size found, true⟩ : Blk).InMem h'
  parts : splits h found size = true → ∃ f r : Blk, f.addr = found ∧ f.size = size ∧ f.InMem h' ∧
    r.addr = splitAddr found size ∧ r.InMem h' ∧ r.addr = f.stop ∧ r.stop = found + 20 + h.size found
  room : splits h found size = true → size + 20 < h.size found

section
variable {h : Heap} {bs : List Blk} {L : Fin binCnt → List Nat} {i : Fin binCnt} {f : Blk}
  {found size n k : Nat}

/-- The bins offer a block of theirs that is large enough. -/
lemma searchBins_ok (hB : Bins h L) (hr : searchBins h size n k = .ok (i, found)) :
    found ∈ L i ∧ size ≤ h.size found := by
  induction n generalizing k with
  | zero => cases hr
  | succ n ih =>
    rw [searchBins] at hr
    split at hr
    · rename_i hk
      rw [getFirstFit_spec size (hB.bin ⟨k, hk⟩) (hB.fits _), ok_bind] at hr
      split at hr
      · cases hr
        rename_i hne
        cases hf : (L ⟨k, hk⟩).find? fun x => decide (size ≤ h.size x) with
        | none =>
          rw [hf] at hne
          exact absurd rfl hne
        | some a =>
          have hle := List.find?_some (p := fun x => decide (size ≤ h.size x)) hf
          exact ⟨List.mem_of_find?_eq_some hf, of_decide_eq_true hle⟩
      · exact ih hr
    · cases hr

/-- The block that `alloc` finds. -/
lemma Rep.search_ok (R : Rep h bs L) (hr : search h size = .ok (i, found)) :
    ∃ f ∈ bs, f.addr = found ∧ f.live = false ∧ found ∈ L i ∧ size ≤ f.size ∧
      h.size found = f.size := by
  obtain ⟨hm, hle⟩ := searchBins_ok R.bins hr
  obtain ⟨f, hf, rfl, hl⟩ := R.free i found hm
  have hs := (R.stands f hf).inMem.size
  exact ⟨f, hf, rfl, hl, hm, hs ▸ hle, hs⟩

/-- A block is split when more than four bytes are left over. -/
lemma splits_iff (hle : size ≤ h.size found) (hlt : h.size found < 4294967296) :
    splits h found size = true ↔ size + 4 < h.size found := by
  rw [splits, decide_eq_true_iff, sub32_eq hle hlt]
  omega

/-- The end of `take`: the block is marked as used and leaves its bin. -/
lemma removed_spec (hB : Bins h L) (hfit : f.stop ≤ 4294967296) (hin : f.InMem h)
    (hoff : ∀ x, Meta f x → ¬ Links L x) :
    ∃ h', removeNode (setHole h f.addr 0) i f.addr = .ok h' ∧
      Edit (fun x => Bytes f.addr (f.addr + 4) x ∨ Links L x) h h' ∧ f.InMem h' ∧
      hole h' f.addr = 0 := by
  unfold Blk.stop at hfit
  have e : Edit (Bytes f.addr (f.addr + 4)) h (setHole h f.addr 0) := edit_setHole (by omega)
  have hB' : Bins (setHole h f.addr 0) L := hB.edit e rfl fun x hx hw => by
    refine hoff x (.inl ?_) hx
    unfold Bytes at *
    omega
  obtain ⟨h', L', hrun, -, -, -, -, e'⟩ := removeNode_bins hB' i f.addr
  have hfields : ∀ x, f.Fields x → Meta f x := by
    unfold Blk.Fields Meta Bytes
    omega
  refine ⟨h', hrun, (e.mono fun _ => .inl).trans (e'.mono fun _ => .inr), ?_, ?_⟩
  · refine (hin.edit e (by unfold Blk.stop; omega) fun x hx => ?_).edit e'
      (by unfold Blk.stop; omega) fun x hx => hoff x (hfields x hx)
    unfold Blk.Fields Blk.foot Bytes at *
    omega
  · rw [hole_edit e' (by omega), hole_setHole (by omega) (by decide)]
    refine fun x hx => hoff x (.inl ?_)
    unfold Bytes at *
    omega

/-- A block that is not split. -/
lemma take_whole (R : Rep h bs L) (hf : f ∈ bs) (hs : splits h f.addr size = false) :
    ∃ h', take h i f.addr size = .ok h' ∧
      Edit (fun x => Bytes f.addr (f.addr + 4) x ∨ Links L x) h h' ∧ f.InMem h' ∧
      hole h' f.addr = 0 := by
  obtain ⟨h', hrun, hin⟩ := removed_spec (i := i) R.bins (R.stop_le hf) (R.stands f hf).inMem
    fun x hx => R.meta_not_links hf hx
  refine ⟨h', ?_, hin⟩
  rw [take, hs, if_neg Bool.false_ne_true]
  exact hrun

/-- The size and the footer of a block that is cut off. -/
lemma resized_spec (hfit : f.stop ≤ 4294967296) :
    ∃ h', createFoot (h.setSize f.addr f.size) f.addr = h' ∧ h'.bins = h.bins ∧ f.InMem h' ∧
      Edit (Meta f) h h' := by
  have e₁ : Edit (Bytes (f.addr + 4) (f.addr + 8)) h (h.setSize f.addr f.size) :=
    .setSize (by unfold Blk.stop at hfit; omega)
  have s₁ : (h.setSize f.addr f.size).size f.addr = f.size :=
    size_setSize (by unfold Blk.stop at hfit; omega) (by unfold Blk.stop at hfit; omega)
  obtain ⟨hin, e₂⟩ := createFoot_spec s₁ hfit
  refine ⟨_, rfl, by rw [bins_createFoot, bins_setSize], hin, (e₁.mono fun x hx => .inl ?_).trans
    (e₂.mono fun x => .inr)⟩
  unfold Bytes at *
  omega

/-- The flag as well, wherever the block lands; its footer may land in its own header. -/
lemma marked_spec {r v : Nat} (hr : r + 16 ≤ 4294967296) (hv : v < 4294967296)
    (hft : u32 (r + 16 + v) + 4 ≤ 4294967296) :
    ∃ h', createFoot (setHole (h.setSize r v) r 1) r = h' ∧ h'.bins = h.bins ∧
      Edit (fun x => Bytes r (r + 8) x ∨ Bytes (u32 (r + 16 + v)) (u32 (r + 16 + v) + 4) x) h h' ∧
      (r + v + 20 ≤ 4294967296 → (⟨r, v, false⟩ : Blk).InMem h') := by
  have e₁ : Edit (Bytes (r + 4) (r + 8)) h (h.setSize r v) := .setSize (by omega)
  have e₂ : Edit (Bytes r (r + 4)) (h.setSize r v) (setHole (h.setSize r v) r 1) :=
    edit_setHole (by omega)
  have s₂ : (setHole (h.setSize r v) r 1).size r = v := by
    rw [e₂.size (by omega) (by unfold Bytes; omega)]
    exact size_setSize (by omega) hv
  have e₃ : Edit (Bytes (u32 (r + 16 + v)) (u32 (r + 16 + v) + 4)) (setHole (h.setSize r v) r 1)
      (createFoot (setHole (h.setSize r v) r 1) r) := by
    rw [createFoot, getFoot, s₂]
    exact .setHeader hft
  refine ⟨_, rfl, by rw [bins_createFoot, bins_setHole, bins_setSize],
    ((e₁.mono fun x hx => .inl ?_).trans (e₂.mono fun x hx => .inl ?_)).trans (e₃.mono fun x => .inr),
    fun hfit => (createFoot_spec (b := ⟨r, v, false⟩) s₂ (by unfold Blk.stop; simp only; omega)).1⟩
  all_goals
    unfold Bytes at *
    omega

/-! ## Where the remainder lands -/

/-- The size that the remainder gets. -/
def splitSize (h : Heap) (found size : Nat) : Nat :=
  sub32 (sub32 (sub32 (h.size found) size) blockSz) footerSz

/-- Where its footer is written. -/
def splitFoot (h : Heap) (found size : Nat) : Nat :=
  u32 (splitAddr found size + blockSz + splitSize h found size)

/-- The bytes of the remainder's header and footer. -/
def Stray (h : Heap) (found size x : Nat) : Prop :=
  Bytes (splitAddr found size) (splitAddr found size + 16) x ∨
    Bytes (splitFoot h found size) (splitFoot h found size + 4) x

/-- The remainder's header and footer meet no links of the bins, and not the part that is taken. -/
structure Landed (h : Heap) (L : Fin binCnt → List Nat) (found size : Nat) : Prop where
  pos : splitAddr found size ≠ 0
  head : splitAddr found size + 16 ≤ 4294967296
  foot : splitFoot h found size + 4 ≤ 4294967296
  apart : ∀ k, ∀ a ∈ L k, Apart (splitAddr found size) a
  links : ∀ x, Stray h found size x → ¬ Links L x
  taken : ∀ x, Stray h found size x → ¬ Meta ⟨found, size, true⟩ x

/-- The fields of the part that is taken are no links. -/
lemma Rep.taken_not_links {x : Nat} (R : Rep h bs L) (hf : f ∈ bs) (hroom : size + 4 < f.size)
    (hx : Meta ⟨f.addr, size, true⟩ x) : ¬ Links L x := by
  intro hl
  obtain ⟨c, hc, -, hx'⟩ := R.of_links hl
  have := R.apart hf hc
  unfold Meta Blk.foot Blk.stop Bytes at *
  simp only at hx
  rcases this with rfl | h | h <;> omega

/-- The remainder gets its fields and comes to a bin, wherever it lands outside of the links. -/
lemma remainder_spec {r v ft : Nat} (hB : Bins h L) (hpos : r ≠ 0) (hhead : r + 16 ≤ 4294967296)
    (hv : v < 4294967296) (hft : u32 (r + 16 + v) = ft) (hfit : ft + 4 ≤ 4294967296)
    (hap : ∀ k, ∀ a ∈ L k, Apart r a)
    (hlinks : ∀ x, Bytes r (r + 16) x ∨ Bytes ft (ft + 4) x → ¬ Links L x) :
    ∃ h₁ h' L', createFoot (setHole (h.setSize r v) r 1) r = h₁ ∧
      addNode h₁ (getBinIndex (h₁.size r)) r = .ok h' ∧ Bins h' L' ∧
      (∀ x, Links L' x → Bytes (r + 8) (r + 16) x ∨ Links L x) ∧
      Edit (fun x => (Bytes r (r + 16) x ∨ Bytes ft (ft + 4) x) ∨ Links L x) h h' ∧
      (r + v + 20 ≤ 4294967296 → (⟨r, v, false⟩ : Blk).InMem h') := by
  obtain ⟨h₁, hmark, hbins₁, e₁, hin₁⟩ := marked_spec (h := h) hhead hv (hft ▸ hfit)
  rw [hft] at e₁
  have hB₁ : Bins h₁ L := hB.edit e₁ hbins₁ fun x hx hw => by
    refine hlinks x ?_ hx
    unfold Bytes at *
    omega
  have hnot : ∀ k, r ∉ L k := fun k hk =>
    hlinks (r + 8) (.inl (by unfold Bytes; omega)) ⟨k, r, hk, by unfold Bytes; omega⟩
  obtain ⟨h₂, L₂, hrun₂, hB₂, hmem₂, -, e₂, -⟩ := hB₁.add (i := getBinIndex (h₁.size r)) (b := r)
    hhead hap hnot hpos
  refine ⟨h₁, h₂, L₂, hmark, hrun₂, hB₂, ?_, ?_, fun hend => ?_⟩
  · rintro x ⟨k, a, ha, hx⟩
    rcases (hmem₂ k a).mp ha with ha | ⟨rfl, -⟩
    · exact .inr ⟨k, a, ha, hx⟩
    · exact .inl hx
  · refine (e₁.mono fun x hx => ?_).trans (e₂.mono fun x hx => ?_)
    · unfold Bytes at *
      omega
    · refine hx.imp_left fun hx => ?_
      unfold Bytes at *
      omega
  · -- the links that are written are those of the remainder itself, or of blocks apart from it
    have hft' : ft = r + 16 + v := by rw [← hft, u32_eq (by omega)]
    refine (hin₁ hend).edit e₂ hend fun x hx hw => ?_
    have hfields : (Bytes r (r + 16) x ∨ Bytes ft (ft + 4) x) ∧ ¬ Bytes (r + 8) (r + 16) x := by
      unfold Blk.Fields Blk.foot Blk.stop Bytes at *
      simp only at hx
      omega
    exact hw.elim hfields.2 (hlinks x hfields.1)

/-- A block that is split, when the remainder lands on nothing that counts. -/
lemma take_split (R : Rep h bs L) (hf : f ∈ bs) (hroom : size + 4 < f.size)
    (Z : Landed h L f.addr size) :
    ∃ h', take h i f.addr size = .ok h' ∧
      Edit (fun x => Stray h f.addr size x ∨ Meta ⟨f.addr, size, true⟩ x ∨ Links L x) h h' ∧
      (⟨f.addr, size, true⟩ : Blk).InMem h' ∧ hole h' f.addr = 0 ∧
      (splitAddr f.addr size + splitSize h f.addr size + 20 ≤ 4294967296 →
        (⟨splitAddr f.addr size, splitSize h f.addr size, false⟩ : Blk).InMem h') := by
  have hstop := R.stop_le hf
  have hsize := (R.stands f hf).inMem.size
  have hs : splits h f.addr size = true :=
    (splits_iff (by omega) (readWord_lt ..)).mpr (by omega)
  obtain ⟨r, hr⟩ : ∃ r, r = splitAddr f.addr size := ⟨_, rfl⟩
  obtain ⟨v, hv⟩ : ∃ v, v = splitSize h f.addr size := ⟨_, rfl⟩
  obtain ⟨ft, hft⟩ : ∃ ft, ft = splitFoot h f.addr size := ⟨_, rfl⟩
  obtain ⟨g, hg⟩ : ∃ g : Blk, g = ⟨f.addr, size, true⟩ := ⟨_, rfl⟩
  have ga : g.addr = f.addr := by rw [hg]
  have gs : g.size = size := by rw [hg]
  have gstop : g.stop = f.addr + size + 20 := by rw [hg]; rfl
  have hfoot : u32 (r + 16 + v) = ft := by rw [hft, splitFoot, ← hr, ← hv]; rfl
  have hstray : ∀ x, Stray h f.addr size x ↔ Bytes r (r + 16) x ∨ Bytes ft (ft + 4) x := by
    intro x
    rw [Stray, ← hr, ← hft]
  obtain ⟨hpos, hhead, hfit, hap, hlinks, htaken⟩ := Z
  rw [← hr] at hpos hhead hap
  rw [← hft] at hfit
  rw [← hg] at htaken
  have hgl : ∀ x, Meta g x → ¬ Links L x := fun x hx => R.taken_not_links hf hroom (hg ▸ hx)
  rw [← hr, ← hv, ← hg]
  simp only [hstray] at hlinks htaken ⊢
  obtain ⟨h₁, h₂, L₂, hmark, hrun₂, hB₂, hL₂, e₂, hin₂⟩ := remainder_spec R.bins hpos hhead
    (by rw [hv]; exact sub32_lt _ _) hfoot hfit hap hlinks
  -- then the part that is taken gets its own fields, and leaves its bin
  obtain ⟨h₃, hfoot₃, hbins₃, hin₃, e₃⟩ := resized_spec (h := h₂) (f := g) (by unfold Blk.stop at *; omega)
  have hoff : ∀ x, Meta g x → ¬ Links L₂ x := by
    intro x hx hl
    rcases hL₂ x hl with hl | hl
    · exact htaken x (.inl (by unfold Bytes at *; omega)) hx
    · exact hgl x hx hl
  have hB₃ : Bins h₃ L₂ := hB₂.edit e₃ hbins₃ fun x hx hw => hoff x hw hx
  obtain ⟨h', hrun', e', m', hhole⟩ := removed_spec (i := i) hB₃ (by unfold Blk.stop at *; omega) hin₃ hoff
  have hg₀ : ∀ x, Bytes g.addr (g.addr + 4) x → Meta g x := fun x hx => .inl <| by
    unfold Bytes at *
    omega
  refine ⟨h', ?_, ?_, m', ga ▸ hhole, fun hend => ?_⟩
  · have hsz : sub32 (sub32 (sub32 (h.size f.addr) size) blockSz) footerSz = v := hv.symm
    rw [ga, gs] at hfoot₃
    rw [ga] at hrun'
    rw [take, hs, if_pos rfl, splitNode, ← hr]
    simp only
    rw [hsz, hmark, hrun₂, ok_bind, hfoot₃]
    exact hrun'
  · refine ((e₂.mono fun x hx => ?_).trans (e₃.mono fun x hx => ?_)).trans (e'.mono fun x hx => ?_)
    · exact hx.imp_right .inr
    · exact .inr (.inl hx)
    · rcases hx with hx | hx
      · exact .inr (.inl (hg₀ x hx))
      · refine (hL₂ x hx).imp (fun hx => .inl ?_) .inr
        unfold Bytes at *
        omega
  · -- the fields of the remainder are not written again
    have hft' : ft = r + 16 + v := by
      rw [← hfoot, u32_eq (by omega)]
    have hfields : ∀ x, (⟨r, v, false⟩ : Blk).Fields x →
        (Bytes r (r + 16) x ∨ Bytes ft (ft + 4) x) ∧ ¬ Bytes (r + 8) (r + 16) x := by
      unfold Blk.Fields Blk.foot Blk.stop Bytes
      simp only
      omega
    refine ((hin₂ hend).edit e₃ hend fun x hx => htaken x (hfields x hx).1).edit e' hend
      fun x hx hw => ?_
    rcases hw with hw | hw
    · exact htaken x (hfields x hx).1 (hg₀ x hw)
    · exact (hL₂ x hw).elim (hfields x hx).2 (hlinks x (hfields x hx).1)

/-- The remainder of a block that is split for nothing, when there is room for it, lands inside. -/
lemma landed_zero (R : Rep h bs L) (hf : f ∈ bs) (hroom : 20 < f.size) :
    Landed h L f.addr 0 ∧ splitAddr f.addr 0 = f.addr + 20 ∧ splitSize h f.addr 0 = f.size - 20 := by
  have hstop := R.stop_le hf
  unfold Blk.stop at hstop
  have haddr : splitAddr f.addr 0 = f.addr + 20 := by
    rw [splitAddr, u32_eq (by simp only [blockSz, footerSz]; omega)]
    rfl
  have hsize : splitSize h f.addr 0 = f.size - 20 := by
    rw [splitSize, (R.stands f hf).inMem.size]
    unfold sub32 blockSz footerSz
    omega
  have hfoot : splitFoot h f.addr 0 = f.addr + 16 + f.size := by
    rw [splitFoot, haddr, hsize, u32_eq (by simp only [blockSz]; omega)]
    simp only [blockSz]
    omega
  have hoff : ∀ k, ∀ a ∈ L k, a = f.addr ∨ a + 20 ≤ f.addr ∨ f.stop ≤ a := by
    intro k a ha
    obtain ⟨c, hc, rfl, -⟩ := R.free k a ha
    have := R.apart hf hc
    unfold Blk.stop at *
    rcases this with rfl | h | h <;> omega
  refine ⟨⟨by omega, by omega, by omega, fun k a ha => ?_, ?_, ?_⟩, haddr, hsize⟩
  · have := hoff k a ha
    unfold Apart
    unfold Blk.stop at this
    omega
  · rintro x hx ⟨k, a, ha, hl⟩
    have := hoff k a ha
    rw [Stray, haddr, hfoot] at hx
    unfold Blk.stop at this
    unfold Bytes at *
    omega
  · intro x hx
    rw [Stray, haddr, hfoot] at hx
    unfold Meta Blk.foot Blk.stop Bytes at *
    simp only
    omega

/-- When the block is not split, or split for nothing with room for the remainder, its parts are the
block, and nothing else but links is written. -/
lemma take_fits (R : Rep h bs L) (hf : f ∈ bs) (hle : size ≤ f.size)
    (hc : f.size ≤ size + 4 ∨ size = 0 ∧ 20 < f.size) :
    ∃ h', take h i f.addr size = .ok h' ∧ Edit (fun x => f.Inside x ∨ Links L x) h h' ∧
      hole h' f.addr = 0 ∧ Partitions h h' f.addr size := by
  have hsize := (R.stands f hf).inMem.size
  have hstop := R.stop_le hf
  have hsplits := splits_iff (hsize ▸ hle) (readWord_lt ..)
  rw [hsize] at hsplits
  by_cases hs : splits h f.addr size = true
  · have hlt := hsplits.mp hs
    obtain ⟨rfl, hroom⟩ : size = 0 ∧ 20 < f.size := by omega
    obtain ⟨Z, haddr, hrest⟩ := landed_zero R hf hroom
    obtain ⟨h', hrun, e, hin, hhole, hr⟩ := take_split (i := i) R hf hlt Z
    unfold Blk.stop at hstop
    rw [haddr, hrest] at hr
    have hr := hr (by omega)
    refine ⟨h', hrun, e.mono fun x hx => ?_, hhole, ⟨fun h => absurd (h ▸ hs) Bool.false_ne_true,
      fun _ => ⟨⟨f.addr, 0, true⟩, ⟨f.addr + 20, f.size - 20, false⟩, rfl, rfl, hin, haddr.symm, hr, rfl, ?_⟩,
      fun _ => by omega⟩⟩
    · rw [Stray, splitFoot, haddr, hrest, u32_eq (by simp only [blockSz]; omega)] at hx
      rcases hx with hx | hx | hx
      · refine .inl ?_
        unfold Blk.Inside Blk.stop Bytes at *
        simp only [blockSz] at hx
        omega
      · refine .inl ?_
        unfold Meta Blk.Inside Blk.foot Blk.stop Bytes at *
        simp only at hx
        omega
      · exact .inr hx
    · rw [hsize, Blk.stop]
      simp only
      omega
  · have hs : splits h f.addr size = false := Bool.not_eq_true _ ▸ hs
    obtain ⟨h', hrun, e, hin, hhole⟩ := take_whole (i := i) R hf hs
    refine ⟨h', hrun, e.mono fun x hx => hx.imp_left fun hx => ?_, hhole,
      ⟨fun _ => ⟨?_, ?_⟩, fun h => absurd (hs ▸ h) Bool.false_ne_true,
        fun h => absurd (hs ▸ h) Bool.false_ne_true⟩⟩
    · unfold Blk.Inside Blk.stop Bytes at *
      omega
    · exact hin.size.trans hsize.symm
    · rw [Blk.foot, hsize]
      exact hin.foot

/-- The parts of a block that is split only fit together if no bytes were asked for. -/
lemma Partitions.zero {h' : Heap} (P : Partitions h h' found size) (hs : splits h found size = true)
    (hfit : found + 20 + h.size found ≤ 4294967296) : size = 0 ∧ 20 < h.size found := by
  obtain ⟨g, r, hg, hgs, -, hr, -, hrg, -⟩ := P.parts hs
  have hroom := P.room hs
  have haddr : splitAddr found size = found + 20 + size := by
    rw [← hr, hrg, Blk.stop, hg, hgs]
    omega
  -- sixteen times the size is the size, modulo 2 ^ 32
  unfold splitAddr u32 blockSz footerSz at haddr
  omega

/-- The bins of a heap with one free block offer it for every size up to its own. -/
lemma search_lone {v : Nat} (R : Rep h bs fun i => if i = getBinIndex v then [found] else [])
    (hsize : h.size found = v) (hs : size ≤ v) (hv : v < 4294967296) :
    search h size = .ok (getBinIndex v, found) := by
  obtain ⟨i, a, hrun, -⟩ := searchBins_spec (h := h) (n := binCnt + 1) R.bins
    (by have := (getBinIndex size).isLt; omega)
    ⟨getBinIndex v, getBinIndex_mono hs hv, found, by simp, hsize ▸ hs⟩
  obtain ⟨ha, -⟩ := searchBins_ok R.bins hrun
  split at ha
  · rename_i hi
    rw [search, hrun, hi, List.mem_singleton.mp ha]
  · cases ha

/-- The small heap offers its free block for every size up to 64. -/
lemma search_small (hs : size ≤ 64) : search small size = .ok (getBinIndex 64, 0x1030) :=
  search_lone rep_small (by decide) hs (by decide)

end

end ToeS.V1
