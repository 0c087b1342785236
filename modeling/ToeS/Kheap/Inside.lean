import ToeS.Kheap.Access
import ToeS.Kheap.Safety

/-!
# `kheap_free` and the bounds of the heap

In a legal run `kheap_free` (`kern/mm/kheap.c`) stays inside the heap, except that for the last
block it takes the byte behind the heap for the `hole` field of a next block. The first block is
never merged, so the one block that is first and last is no exception.
-/

namespace ToeS.Kheap
open Lib Traced

namespace Access

/-! ## Where a bin is touched -/

/-- The headers of the blocks of `l` lie in the address space and in `W`. -/
structure Cover (W : Nat → Prop) (l : List Nat) : Prop where
  fits : ∀ b ∈ l, b + 16 ≤ 4294967296
  mem : ∀ b ∈ l, ∀ x, Bytes b (b + 16) x → W x

section
variable {W : Nat → Prop} {h : Heap} {bin : Fin binCnt} {blck : Nat} {l : List Nat}

/-- A word that lies in a range stays within it. -/
lemma word_within {a b c : Nat} (hab : a ≤ b) (hbc : b + 4 ≤ c) (hc : c ≤ 4294967296)
    (hW : ∀ x, Bytes a c x → W x) : ∀ i ∈ word b, W i := by
  intro i hi
  have hi' : i = b ∨ i = b + 1 ∨ i = b + 2 ∨ i = b + 3 := by
    simpa [word, u32_eq (n := b) (by omega), u32_eq (n := b + 1) (by omega),
      u32_eq (n := b + 2) (by omega), u32_eq (n := b + 3) (by omega)] using hi
  refine hW i ?_
  unfold Bytes
  omega

/-- A word of a header. -/
lemma Cover.word (hC : Cover W l) {b k : Nat} (hb : b ∈ l) (hk : k + 4 ≤ 16) :
    ∀ i ∈ word (b + k), W i :=
  word_within (Nat.le_add_right b k) (by omega) (hC.fits b hb) (hC.mem b hb)

/-- Some of the blocks are covered as well. -/
lemma Cover.mono {l' : List Nat} (hC : Cover W l) (hsub : l' ⊆ l) : Cover W l' :=
  ⟨fun b hb => hC.fits b (hsub hb), fun b hb => hC.mem b (hsub hb)⟩

/-- Clearing the links writes them only. -/
lemma clearLinks_within (hC : Cover W l) (hb : blck ∈ l) : Within W (clearLinks blck) h :=
  Within.store_bind (hC.word hb (by decide)) (hC.word hb (by decide))

/-- The loop of `add_block_sorted` reads the blocks of the bin and the new one. -/
lemma sortedPos_within {n p t : Nat} (hC : Cover W (blck :: l)) (hc : Chain 0 h.next t l) :
    Within W (sortedPos blck n p t) h := by
  induction n generalizing p t l with
  | zero => exact within_fail
  | succ n ih =>
    rw [sortedPos]
    split
    · exact within_pure
    · rename_i h0
      cases l with
      | nil => exact absurd hc h0
      | cons a l =>
        obtain ⟨rfl, -, hc⟩ := hc
        have hC' : Cover W (blck :: l) := hC.mono fun x hx => by simp at hx ⊢; tauto
        refine .load_bind (hC.word (by simp) (by decide)) ?_
        refine .load_bind (hC.word (by simp) (by decide)) ?_
        split
        · exact .load_bind (hC.word (by simp) (by decide)) (ih hC' hc)
        · exact within_pure

/-- The loop of `remove_block` reads the blocks of the bin. -/
lemma findBlock_within {n t : Nat} (hC : Cover W l) (hc : Chain 0 h.next t l) :
    Within W (findBlock blck n t) h := by
  induction n generalizing t l with
  | zero => exact within_fail
  | succ n ih =>
    rw [findBlock]
    split
    · exact within_pure
    · rename_i h0
      split
      · exact within_pure
      · cases l with
        | nil => exact absurd hc h0
        | cons a l =>
          obtain ⟨rfl, -, hc⟩ := hc
          have hC' : Cover W l := hC.mono fun x hx => List.mem_cons_of_mem _ hx
          exact .load_bind (hC.word (by simp) (by decide)) (ih hC' hc)

/-- A block is linked with its neighbours only. -/
lemma linkBetween_within {prev temp : Nat} (hC : Cover W l) (hb : blck ∈ l)
    (hp : temp = 0 ∨ prev ≠ 0 → prev ∈ l) (ht : temp ≠ 0 → temp ∈ l)
    (hf : prev = 0 → h.bins bin ∈ l) : Within W (linkBetween bin blck prev temp) h := by
  rw [linkBetween]
  split
  · rename_i h0
    exact .store_bind (hC.word (hp (.inl h0)) (by decide)) (hC.word hb (by decide))
  · rename_i h0
    split
    · rename_i hp0
      refine .store_bind (hC.word hb (by decide)) ?_
      refine .store_bind (hC.word (hp (.inr hp0)) (by decide)) ?_
      exact .store_bind (hC.word hb (by decide)) (hC.word (ht h0) (by decide))
    · rename_i hp0
      refine .load_bind (by simp) (.store_bind (hC.word hb (by decide)) ?_)
      refine .load_bind (by simp) (.store_bind (hC.word (hf (not_not.mp hp0)) (by decide)) ?_)
      exact fun i hi => by cases hi

/-- `add_block_sorted` touches headers of the bin and of the block. -/
lemma addBlockSorted_within (hb : IsBin h bin l) (hs : Spread (blck :: l)) (hm : blck ∉ l)
    (hC : Cover W (blck :: l)) : Within W (addBlockSorted bin blck) h := by
  obtain ⟨-, -, hnext, hprev⟩ := clearLinks_spec (h := h) hs hm
  have hb₁ : IsBin (Kheap.clearLinks h blck) bin l := hb.congr rfl hnext hprev
  have hself : blck ∈ blck :: l := List.mem_cons_self
  refine (clearLinks_within hC hself).bind run_clearLinks (.load_bind (by simp) ?_)
  split
  · exact fun i hi => by cases hi
  · rename_i hhead
    obtain ⟨pre, post, rfl, -, -, hpos⟩ := sortedPos_spec blck (p := 0) hb₁.chain
      (hb₁.length_lt fun x hx => hs.fits x (List.mem_cons_of_mem _ hx))
    have hrun : (sortedPos blck chainFuel 0 ((Kheap.clearLinks h blck).bins bin)).run
        (Kheap.clearLinks h blck) = .ok ((pre.getLastD 0, post.headD 0), Kheap.clearLinks h blck) := by
      rw [run_sortedPos, hpos]
      rfl
    refine (sortedPos_within hC hb₁.chain).bind hrun (linkBetween_within hC hself ?_ ?_ ?_)
    · intro hp
      rcases List.eq_nil_or_concat pre with rfl | ⟨pre, p, rfl⟩
      · rcases hp with hp | hp
        · cases post with
          | nil => exact absurd (hb₁.chain.head_eq_null.mpr rfl) hhead
          | cons a post => exact absurd hp (hb₁.chain.ne_null (by simp))
        · exact absurd rfl hp
      · simp
    · intro ht
      cases post with
      | nil => exact absurd rfl ht
      | cons a post => simp
    · intro hp
      rcases List.eq_nil_or_concat pre with rfl | ⟨pre, p, rfl⟩
      · cases post with
        | nil => exact absurd (hb₁.chain.head_eq_null.mpr rfl) hhead
        | cons a post =>
          rw [hb₁.chain.1]
          simp
      · exact absurd (by simpa using hp) (hb₁.chain.ne_null (a := p) (by simp))

/-- A block is unlinked from its neighbours only. -/
lemma unlink_within {p : Nat} {pre post : List Nat} (hb : IsBin h bin (pre ++ p :: blck :: post))
    (hs : Spread (pre ++ p :: blck :: post)) (hC : Cover W (pre ++ p :: blck :: post)) :
    Within W (unlink blck) h := by
  have mp : p ∈ pre ++ p :: blck :: post := by simp
  have mb : blck ∈ pre ++ p :: blck :: post := by simp
  have hprev : h.prev blck = p := hb.back.prev_eq
  have hchain : Chain 0 h.next (h.bins bin) ((pre ++ [p]) ++ blck :: post) := by simpa using hb.chain
  have hnext : h.next blck = post.headD 0 := hchain.next_eq
  have hpb : blck ≠ p := by
    rintro rfl
    simpa using (List.nodup_append.mp hb.chain.nodup).2.1
  refine .load_bind (hC.word mb (by decide)) ?_
  split
  · refine .load_bind (hC.word mb (by decide)) ?_
    rw [hprev]
    exact hC.word mp (by decide)
  · rename_i h0
    refine .load_bind (hC.word mb (by decide)) (.load_bind (hC.word mb (by decide)) ?_)
    rw [hprev]
    refine .store_bind (hC.word mp (by decide)) ?_
    refine .load_bind (hC.word mb (by decide)) (.load_bind (hC.word mb (by decide)) ?_)
    cases post with
    | nil => exact absurd hnext h0
    | cons t post =>
      have mt : t ∈ pre ++ p :: blck :: t :: post := by simp
      have hnext : h.next blck = t := hnext
      rw [hnext, hs.next_setNext mp mb (hs.lt mt), if_neg hpb, hnext]
      exact hC.word mt (by decide)

/-- `remove_block` touches headers of the bin. -/
lemma removeBlock_within (hb : IsBin h bin l) (hs : Spread l) (hm : blck ∈ l) (hC : Cover W l) :
    Within W (removeBlock bin blck) h := by
  refine .load_bind (by simp) ?_
  obtain ⟨pre, post, rfl⟩ := List.append_of_mem hm
  split
  · exact within_pure
  · cases pre with
    | nil =>
      have hhead : h.bins bin = blck := hb.chain.1
      rw [if_pos hhead, hhead]
      exact .load_bind (hC.word hm (by decide)) (.store_bind (by simp) (clearLinks_within hC hm))
    | cons a pre =>
      have hhead : h.bins bin = a := hb.chain.1
      have hne : h.bins bin ≠ blck := by
        rw [hhead]
        rintro rfl
        simpa using hb.chain.nodup
      have hfind : Kheap.findBlock h blck chainFuel (h.next (h.bins bin)) = .ok true := by
        refine findBlock_mem (l := pre ++ blck :: post) (by rw [hhead]; exact hb.chain.2.2) ?_ (by simp)
        exact Nat.lt_of_succ_lt (hb.length_lt hs.fits)
      have hrun : (findBlock blck chainFuel (h.next (h.bins bin))).run h = .ok (true, h) := by
        rw [run_findBlock, hfind]
        rfl
      have hC' : Cover W (pre ++ blck :: post) := hC.mono fun x hx => List.mem_cons_of_mem _ hx
      have ha : h.bins bin ∈ a :: pre ++ blck :: post := by simp [hhead]
      obtain ⟨pre', p, hp⟩ : ∃ pre' p, a :: pre = pre' ++ [p] :=
        ⟨_, _, (List.dropLast_append_getLast (List.cons_ne_nil a pre)).symm⟩
      have hl : a :: pre ++ blck :: post = pre' ++ p :: blck :: post := by simp [hp]
      rw [if_neg hne]
      refine .load_bind (hC.word ha (by decide)) ?_
      refine (findBlock_within hC' (by rw [hhead]; exact hb.chain.2.2)).bind hrun ?_
      rw [if_pos rfl]
      rw [hl] at hb hs hC hm
      exact (unlink_within hb hs hC).bind run_unlink (clearLinks_within hC hm)

end

/-! ## Where `kheap_free` stays inside -/

/-- The bytes of the heap. -/
abbrev InHeap : Nat → Prop := Bytes kheapStart kheapEnd

section
variable {h : Heap} {pre post : List Blk} {L : Fin binCnt → List Nat} {b : Blk}

/-- The headers of any blocks of the heap lie in it. -/
lemma cover_of_blks {bs : List Blk} {l : List Nat} (R : Rep h bs L)
    (hl : ∀ a ∈ l, ∃ c ∈ bs, c.addr = a) : Cover InHeap l := by
  refine ⟨fun a ha => ?_, fun a ha x hx => ?_⟩
  all_goals
    obtain ⟨c, hc, rfl⟩ := hl a ha
    have := R.bounds hc
    unfold Blk.stop at this
  · omega
  · rw [InHeap, kheapStart_eq, kheapEnd_eq]
    unfold Bytes at *
    omega

/-- The block itself lies in the heap. -/
lemma cover_self {bs : List Blk} (R : Rep h bs L) (hb : b ∈ bs) : Cover InHeap [b.addr] :=
  cover_of_blks R fun _ ha => ⟨b, hb, (List.mem_singleton.mp ha).symm⟩

/-- The hole byte of a block. -/
lemma hole_within {bs : List Blk} (R : Rep h bs L) (hb : b ∈ bs) : ∀ i ∈ [u32 b.addr], InHeap i := by
  intro i hi
  have := R.bounds hb
  have := b.addr_lt_stop
  rw [List.mem_singleton.mp hi, u32_eq (by omega), InHeap, kheapStart_eq, kheapEnd_eq]
  unfold Bytes
  omega

/-- The footer of a block. -/
lemma foot_within {bs : List Blk} (R : Rep h bs L) (hb : b ∈ bs) : ∀ i ∈ word b.foot, InHeap i := by
  have := R.bounds hb
  refine word_within (c := b.stop) (b := b.foot) le_rfl ?_ (by omega) fun x hx => ?_
  · unfold Blk.foot Blk.stop
    omega
  · rw [InHeap, kheapStart_eq, kheapEnd_eq]
    unfold Blk.foot Blk.stop Bytes at *
    omega

/-- A free block is removed within the heap. -/
lemma removeBlock_inHeap (R : Rep h (pre ++ b :: post) L) (hf : b.live = false) :
    Within InHeap (removeBlock (getBinIndex b.size) b.addr) h :=
  removeBlock_within (R.bin _) (R.bins.spread _) (R.mem_bin (by simp) hf)
    (cover_of_blks R (R.blk_of_mem _))

/-- A block that is freed is put in its bin within the heap. -/
lemma settle_inHeap (R : Rep h (pre ++ b :: post) L) (hb : b.live = true) :
    Within InHeap (settle b.addr) h := by
  have hbm : b ∈ pre ++ b :: post := by simp
  have R₁ : Rep (h.setHole b.addr 1) (pre ++ b :: post) L := R.setHole hbm
  refine .store_bind (hole_within R hbm) (.load_bind ((cover_self R hbm).word (by simp) (by decide)) ?_)
  rw [(R₁.inMem b hbm).size]
  have hC : Cover InHeap (b.addr :: L (getBinIndex b.size)) := by
    refine cover_of_blks R₁ fun a ha => ?_
    rcases List.mem_cons.mp ha with rfl | ha
    · exact ⟨b, hbm, rfl⟩
    · exact R₁.blk_of_mem _ a ha
  refine addBlockSorted_within (R₁.bin _) ⟨hC.fits, fun a ha c hc => ?_⟩ (R₁.not_mem_bin hbm hb _) hC
  rcases List.mem_cons.mp ha with rfl | ha <;> rcases List.mem_cons.mp hc with rfl | hc
  · exact .inl rfl
  · exact R₁.link_apart hbm hc
  · exact (R₁.link_apart hbm ha).symm
  · exact R₁.bins.apart _ _ a ha c hc

/-- Joining with the block before touches the heap only. -/
lemma mergePrev_inHeap {p : Blk} (R : Rep h (pre ++ p :: b :: post) L)
    (hp : h.hole p.addr = 0 ↔ p.live = true) : Within InHeap (mergePrev b.addr p.addr) h := by
  have pm : p ∈ pre ++ p :: b :: post := by simp
  have bm : b ∈ pre ++ p :: b :: post := by simp
  have hbp := R.bounds pm
  have hbb := R.bounds bm
  have hadj := R.adjacent_prev
  have hCp := cover_self R pm
  have hCb := cover_self R bm
  refine .load_bind (hole_within R pm) ?_
  split
  · rename_i hhole
    have hf : p.live = false := by
      cases hl : p.live with
      | true => exact absurd (hp.mpr hl) hhole
      | false => rfl
    obtain ⟨h₁, L₁, hrun, R₁, -, -⟩ := R.remove hf
    refine .load_bind (hCp.word (by simp) (by decide)) ?_
    rw [(R.inMem p pm).size]
    refine (removeBlock_inHeap R hf).bind (by rw [run_removeBlock, hrun]; rfl) ?_
    refine .load_bind (hCp.word (by simp) (by decide)) ?_
    refine .load_bind (hCb.word (by simp) (by decide)) ?_
    refine .store_bind (hCp.word (by simp) (by decide)) ?_
    obtain ⟨v, hv⟩ : ∃ v, v = u32 (h₁.size p.addr + (blckOverhead + h₁.size b.addr)) := ⟨_, rfl⟩
    rw [← hv]
    have s₂ : (h₁.setSize p.addr v).size b.addr = b.size := by
      rw [(Edit.setSize (by unfold Blk.stop at *; omega)).size (by unfold Blk.stop at *; omega)]
      · exact (R₁.inMem b (by simp)).size
      · unfold Blk.stop Bytes at *
        omega
    have f₂ : Kheap.getFoot (h₁.setSize p.addr v) b.addr = b.foot := by
      rw [Kheap.getFoot, s₂]
      unfold Blk.stop at *
      rw [u32_eq (by simp only [blockSz]; omega)]
      rfl
    refine Within.bind (x := getFoot b.addr) ?_ run_getFoot ?_
    · exact .load_bind (hCb.word (by simp) (by decide)) within_pure
    · rw [f₂]
      exact .store_bind (foot_within R bm) within_pure
  · exact within_pure

/-- Joining with the block behind touches the heap only. -/
lemma mergeNext_inHeap {n : Blk} (R : Rep h (pre ++ b :: n :: post) L)
    (hn : h.hole n.addr = 0 ↔ n.live = true) : Within InHeap (mergeNext b.addr n.addr) h := by
  have nm : n ∈ pre ++ b :: n :: post := by simp
  have bm : b ∈ pre ++ b :: n :: post := by simp
  have hbn := R.bounds nm
  have hbb := R.bounds bm
  have hadj := R.adjacent_prev
  have hCn := cover_self R nm
  have hCb := cover_self R bm
  refine .load_bind (hole_within R nm) ?_
  split
  · rename_i hhole
    have hf : n.live = false := by
      cases hl : n.live with
      | true => exact absurd (hn.mpr hl) hhole
      | false => rfl
    have R' : Rep h ((pre ++ [b]) ++ n :: post) L := by simpa using R
    obtain ⟨h₁, L₁, hrun, R₁, -, -⟩ := R'.remove hf
    have s₁b : h₁.size b.addr = b.size := (R₁.inMem b (by simp)).size
    have s₁n : h₁.size n.addr = n.size := (R₁.inMem { n with live := true } (by simp)).size
    have hsum := joined_size s₁b s₁n (by unfold Blk.stop at *; omega)
    refine .load_bind (hCn.word (by simp) (by decide)) ?_
    rw [(R.inMem n nm).size]
    refine (removeBlock_inHeap R' hf).bind (by rw [run_removeBlock, hrun]; rfl) ?_
    refine .load_bind (hCb.word (by simp) (by decide)) ?_
    refine .load_bind (hCn.word (by simp) (by decide)) ?_
    rw [hsum]
    refine .store_bind (hCb.word (by simp) (by decide)) ?_
    obtain ⟨h₂, eh₂⟩ : ∃ h₂, h₂ = h₁.setSize b.addr (b.size + 20 + n.size) := ⟨_, rfl⟩
    rw [← eh₂]
    have s₂b : h₂.size b.addr = b.size + 20 + n.size := by
      rw [eh₂]
      exact size_setSize (by unfold Blk.stop at *; omega) (by unfold Blk.stop at *; omega)
    have f₂ : Kheap.getFoot h₂ n.addr = n.foot := by
      rw [Kheap.getFoot, eh₂, (Edit.setSize (by unfold Blk.stop at *; omega)).size
        (by unfold Blk.stop at *; omega) (by unfold Blk.stop Bytes at *; omega), s₁n]
      unfold Blk.stop at *
      rw [u32_eq (by simp only [blockSz]; omega)]
      rfl
    refine Within.bind (x := getFoot n.addr) ?_ run_getFoot ?_
    · exact .load_bind (hCn.word (by simp) (by decide)) within_pure
    rw [f₂]
    refine .store_bind (foot_within R nm) (.store_bind (hCn.word (by simp) (by decide)) ?_)
    obtain ⟨h₃, eh₃⟩ : ∃ h₃, h₃ = (h₂.setHeader n.foot 0).setSize n.addr 0 := ⟨_, rfl⟩
    rw [← eh₃]
    have f₃ : Kheap.getFoot h₃ b.addr = n.foot := by
      rw [Kheap.getFoot, eh₃, (Edit.setSize (by unfold Blk.stop at *; omega)).size
        (by unfold Blk.stop at *; omega) (by unfold Blk.stop Bytes at *; omega),
        (Edit.setHeader (by unfold Blk.foot Blk.stop at *; omega)).size
        (by unfold Blk.stop at *; omega) (by unfold Blk.foot Blk.stop Bytes at *; omega), s₂b]
      unfold Blk.foot Blk.stop at *
      rw [u32_eq (by simp only [blockSz]; omega)]
      simp only [blockSz]
      omega
    refine Within.bind (x := getFoot b.addr) ?_ run_getFoot ?_
    · exact .load_bind (hCb.word (by simp) (by decide)) within_pure
    rw [f₃]
    exact foot_within R nm
  · exact within_pure

/-- What `kheap_free` does before it looks at the block behind. -/
lemma run_mergePrev_blk (R : Rep h (pre ++ b :: post) L) (hb : b.live = true) (hpre : pre ≠ [])
    (hh : Holes h (pre ++ post)) :
    ∃ h₁ L₁, (mergePrev b.addr (h.header (sub32 b.addr footerSz))).run h =
        .ok ((joinPrev pre b).2.addr, h₁) ∧
      (joinPrev pre b).2.live = true ∧ Rep h₁ ((joinPrev pre b).1 ++ (joinPrev pre b).2 :: post) L₁ ∧
      Holes h₁ ((joinPrev pre b).1 ++ post) := by
  obtain ⟨h₁, L₁, hrun, hl, -, R₁, -, hh₁, -⟩ := mergePrev_spec R hb hpre hh
  exact ⟨h₁, L₁, by rw [run_mergePrev, hrun]; rfl, hl, R₁, hh₁⟩

/-- Freeing the first block, or one that is not the last, touches bytes of the heap only. -/
lemma kheapFree_inHeap (R : Rep h (pre ++ b :: post) L) (hb : b.live = true)
    (hh : Holes h (pre ++ b :: post)) (hend : pre = [] ∨ post ≠ []) :
    Within InHeap (kheapFree (b.addr + offset)) h := by
  have bm : b ∈ pre ++ b :: post := by simp
  have hbb := R.bounds bm
  have hlt := b.addr_lt_stop
  have haddr : sub32 (b.addr + offset) offset = b.addr := by unfold sub32 offset; omega
  have hh' : Holes h (pre ++ post) := fun c hc => hh c (mem_middle hc)
  rw [kheapFree, haddr]
  refine .load_bind (by simp) ?_
  split
  · exact settle_inHeap R hb
  · rename_i hne
    have hpre : pre ≠ [] := mt R.start_iff.mpr hne
    obtain ⟨n, post, rfl⟩ := List.exists_cons_of_ne_nil (hend.resolve_left hpre)
    obtain ⟨h₁, L₁, hrun₁, hl₁, R₁, hh₁⟩ := run_mergePrev_blk R hb hpre hh'
    refine Within.bind (x := getFoot b.addr) ?_ run_getFoot ?_
    · exact .load_bind ((cover_self R bm).word (by simp) (by decide)) within_pure
    rw [next_addr R]
    obtain ⟨pre', p, rfl⟩ : ∃ pre' p, pre = pre' ++ [p] :=
      ⟨_, _, (List.dropLast_append_getLast hpre).symm⟩
    have Rp : Rep h (pre' ++ p :: b :: n :: post) L := by simpa using R
    have hp : sub32 b.addr footerSz = p.foot := by
      have hadj := Rp.adjacent_prev
      unfold sub32 footerSz Blk.foot
      unfold Blk.stop at *
      omega
    refine .load_bind (by rw [hp]; exact foot_within R (by simp)) ?_
    refine Within.bind (x := mergePrev _ _) ?_ hrun₁ ?_
    · rw [prev_header Rp]
      exact mergePrev_inHeap Rp (hh p (by simp))
    have hn : n.addr = b.stop := R.adjacent_prev
    obtain ⟨h₂, L₂, hrun₂, ha₂, hl₂, R₂, -⟩ := mergeNext_spec R₁ hl₁ hh₁ (by simp)
    have hstop : (joinPrev (pre' ++ [p]) b).2.stop = b.stop :=
      hn ▸ R₁.adjacent_prev.symm
    rw [hstop, ← hn] at hrun₂
    rw [← hn]
    refine Within.bind (x := mergeNext _ _) (mergeNext_inHeap R₁ (hh₁ n (by simp)))
      (by rw [run_mergeNext, hrun₂]; rfl) ?_
    rw [← ha₂]
    exact settle_inHeap R₂ hl₂

/-- Freeing the last block, when it is not the first, reads the byte behind the heap. -/
lemma kheapFree_reads_end (R : Rep h (pre ++ [b]) L) (hb : b.live = true)
    (hh : Holes h (pre ++ [b])) (hpre : pre ≠ []) :
    kheapEnd ∈ (kheapFree (b.addr + offset)).log h := by
  have hbb := R.bounds (b := b) (by simp)
  have hlt := b.addr_lt_stop
  have haddr : sub32 (b.addr + offset) offset = b.addr := by unfold sub32 offset; omega
  have hh' : Holes h (pre ++ []) := fun c hc => hh c (mem_middle hc)
  obtain ⟨h₁, L₁, hrun₁, -, -, -⟩ := run_mergePrev_blk R hb hpre hh'
  have hstop : b.stop = kheapEnd := (tiles_middle.mp R.tiles).2
  have hnext : u32 (Kheap.getFoot h b.addr + footerSz) = kheapEnd := (next_addr R).trans hstop
  rw [kheapFree, haddr]
  refine mem_log_bind.mpr (.inr ⟨_, _, rfl, ?_⟩)
  rw [if_neg (mt R.start_iff.mp hpre)]
  refine mem_log_bind.mpr (.inr ⟨_, _, run_getFoot, ?_⟩)
  rw [hnext]
  refine mem_log_bind.mpr (.inr ⟨_, _, rfl, mem_log_bind.mpr (.inr ⟨_, _, hrun₁, ?_⟩)⟩)
  refine mem_log_bind.mpr (.inl (mem_log_bind.mpr (.inl ?_)))
  show kheapEnd ∈ [u32 kheapEnd]
  rw [u32_eq (by decide)]
  exact List.mem_singleton_self _

end

end Access

/-! ## Runs -/

/-- `kheap_free(p)` touches bytes of the heap only, and does the same whatever the bytes outside. -/
def StaysInside (h : Heap) (p : Nat) : Prop :=
  (∀ x ∈ (Access.kheapFree p).log h, Bytes h.start h.end_ x) ∧
    ∀ h', Agree (Bytes h.start h.end_) h h' →
      (∀ e, kheapFree h p = .error e → kheapFree h' p = .error e) ∧
      ∀ t, kheapFree h p = .ok t → ∃ t', kheapFree h' p = .ok t' ∧ Agree (Bytes h.start h.end_) t t'

/-- What touches the heap only does not depend on the rest. -/
lemma staysInside_of_log {h : Heap} {p : Nat}
    (hw : ∀ x ∈ (Access.kheapFree p).log h, Bytes h.start h.end_ x) : StaysInside h p := by
  refine ⟨hw, fun h' ag => ?_⟩
  obtain ⟨-, ha⟩ := Access.local_kheapFree _ h h' hw ag
  rw [Access.run_kheapFree, Access.run_kheapFree] at ha
  constructor
  · intro e he
    rw [he] at ha
    cases hr : kheapFree h' p with
    | error e' =>
      rw [hr] at ha
      cases ha
      rfl
    | ok t' =>
      rw [hr] at ha
      cases ha
  · intro t ht
    rw [ht] at ha
    cases hr : kheapFree h' p with
    | error e' =>
      rw [hr] at ha
      cases ha
    | ok t' =>
      rw [hr] at ha
      cases ha with
      | ok _ hag => exact ⟨t', rfl, hag⟩

/-- A release stays inside the heap exactly when it is not of the last block, or is of the first. -/
lemma Pic.staysInside_iff {s : Sys} {bs : List Blk} {L : Fin binCnt → List Nat} {p : Nat}
    (P : Pic s bs L) (hh : bs = [wholeHeap] ∨ Holes s.heap bs) (hp : p ∈ s.live) :
    StaysInside s.heap p ↔ Enclosed s.heap p := by
  obtain ⟨b, hb, hbl, rfl⟩ := (P.live p).mp hp
  have hh : Holes s.heap bs := by
    rcases hh with rfl | hh
    · rw [List.mem_singleton.mp hb] at hbl
      cases hbl
    · exact hh
  obtain ⟨pre, post, rfl⟩ := List.append_of_mem hb
  rw [P.enclosed_iff]
  constructor
  · intro hs
    by_contra hend
    obtain ⟨hpre, hpost⟩ := not_or.mp hend
    obtain rfl : post = [] := not_not.mp hpost
    have := hs.1 _ (Access.kheapFree_reads_end P.rep hbl hh hpre)
    rw [P.rep.end_] at this
    exact absurd this.2 (lt_irrefl _)
  · intro hend
    refine staysInside_of_log ?_
    rw [P.rep.start, P.rep.end_]
    exact Access.kheapFree_inHeap P.rep hbl hh hend

/-- Every release of `ops` stays inside the heap when its turn comes. -/
def FreesInside (m : Mem) (ops : List Op) : Prop :=
  ∀ s, boot m = .ok s →
    LegalRun step (fun s op => match op with | .free p => StaysInside s.heap p | _ => True) s ops

section
variable {m : Mem} {ops : List Op}

/-- The releases of a legal run all stay inside the heap exactly when each is of the first block or
not of the last one; and in the states that such a run reaches this decides about every live
pointer. -/
theorem freesInside_iff (hl : LegalFrom m ops) :
    (FreesInside m ops ↔ EnclosedFrom m ops) ∧
      (m kheapEnd = 0 ∨ EnclosedFrom m ops → ∃ s, runFrom m ops = .ok s ∧
        ∀ p ∈ s.live, StaysInside s.heap p ↔ Enclosed s.heap p) := by
  obtain ⟨s₀, hboot, -, P₀, -⟩ := boot_spec m
  refine ⟨forall_congr' fun s => forall_congr' fun hs => ?_, fun he => ?_⟩
  · obtain rfl : s₀ = s := Except.ok.inj (hboot.symm.trans hs)
    refine (hl s₀ hs).iff_of_inv (I := Sound) ?_ ?_ ⟨_, _, P₀, .inl rfl⟩
    · rintro s op ⟨bs, L, P, hh⟩ hlop
      cases op with
      | free p => exact P.staysInside_iff hh hlop
      | _ => exact Iff.rfl
    · intro s op s' hs hlop henc hrun
      have hf : Fenced s op := by
        cases op with
        | free p => exact .inl henc
        | _ => trivial
      obtain ⟨s'', hrun', ⟨bs, L, P, hh⟩, -⟩ := sound_step hs hlop hf
      obtain rfl : s'' = s' := Except.ok.inj (hrun'.symm.trans hrun)
      exact ⟨bs, L, P, .inr hh⟩
  · obtain ⟨s, hrun, ⟨bs, L, P, hh⟩, -⟩ := runFrom_sound hl he
    exact ⟨s, hrun, fun p hp => P.staysInside_iff hh hp⟩

/-- A byte other than 0 behind the heap. -/
theorem freesInside_iff_alloc_free :
    (FreesInside (fun _ => 7) [.alloc 100, .free (kheapStart + offset)] ↔
        EnclosedFrom (fun _ => 7) [.alloc 100, .free (kheapStart + offset)]) ∧
      ((7 : UInt8) = 0 ∨ EnclosedFrom (fun _ => 7) [.alloc 100, .free (kheapStart + offset)] →
        ∃ s, runFrom (fun _ => 7) [.alloc 100, .free (kheapStart + offset)] = .ok s ∧
          ∀ p ∈ s.live, StaysInside s.heap p ↔ Enclosed s.heap p) :=
  freesInside_iff (legal_alloc_free fun _ => 7)

/-- The heap cut into two live blocks. -/
lemma boot_fill (m : Mem) :
    ∃ s₀ s₁ s₂ L, boot m = .ok s₀ ∧ Legal s₀ (.alloc 100) ∧ step s₀ (.alloc 100) = .ok s₁ ∧
      Legal s₁ (.alloc 1048436) ∧ step s₁ (.alloc 1048436) = .ok s₂ ∧
      Pic s₂ [⟨kheapStart, 100, true⟩, ⟨kheapStart + 120, 1048436, true⟩] L ∧
      Holes s₂.heap [⟨kheapStart, 100, true⟩, ⟨kheapStart + 120, 1048436, true⟩] := by
  obtain ⟨s₀, s₁, L, hboot, hl₀, hrun₀, -, P, hh⟩ := boot_alloc m 100 (by decide)
  have hcut : allocate wholeHeap 100 =
      [⟨kheapStart, 100, true⟩, ⟨kheapStart + 120, 1048436, false⟩] := rfl
  rw [hcut] at P hh
  have hl₁ : Legal s₁ (.alloc 1048436) := 
    P.legal_alloc.mpr ⟨⟨kheapStart + 120, 1048436, false⟩, by simp, rfl, le_rfl⟩
  obtain ⟨pre, f, post, h, hbs, hbest, hrun₁, P', -, ho, hh'⟩ := P.alloc hl₁
  obtain ⟨rfl, rfl, rfl⟩ : pre = [⟨kheapStart, 100, true⟩] ∧
      f = ⟨kheapStart + 120, 1048436, false⟩ ∧ post = [] := by
    cases pre with
    | nil =>
      obtain ⟨rfl, -⟩ := List.cons.inj hbs
      cases hbest.free
    | cons a pre =>
      obtain ⟨rfl, htail⟩ := List.cons.inj hbs
      cases pre with
      | nil =>
        obtain ⟨rfl, rfl⟩ := List.cons.inj htail
        exact ⟨rfl, rfl, rfl⟩
      | cons a pre => simp at htail
  refine ⟨s₀, s₁, _, _, hboot, hl₀, hrun₀, hl₁, hrun₁, P', fun c hc => ?_⟩
  rcases List.mem_cons.mp hc with rfl | hc
  · show h.hole _ = 0 ↔ _
    rw [ho _ (by simp)]
    exact hh _ (by simp)
  · exact hh' c hc

/-- Freeing the second of two blocks that fill the heap. -/
theorem not_freesInside_fill :
    ∃ ops, LegalFrom (fun _ => 0) ops ∧ ¬ FreesInside (fun _ => 0) ops := by
  obtain ⟨s₀, s₁, s₂, L, hboot, hl₀, hrun₀, hl₁, hrun₁, P, hh⟩ := boot_fill fun _ => 0
  have hp : kheapStart + 120 + offset ∈ s₂.live :=
    (P.live _).mpr ⟨⟨kheapStart + 120, 1048436, true⟩, by simp, rfl, rfl⟩
  refine ⟨[.alloc 100, .alloc 1048436, .free (kheapStart + 120 + offset)], fun s hs => ?_,
    fun hf => ?_⟩
  · obtain rfl : s₀ = s := Except.ok.inj (hboot.symm.trans hs)
    refine ⟨hl₀, fun s hs => ?_⟩
    obtain rfl : s₁ = s := Except.ok.inj (hrun₀.symm.trans hs)
    refine ⟨hl₁, fun s hs => ⟨?_, fun _ _ => trivial⟩⟩
    obtain rfl : s₂ = s := Except.ok.inj (hrun₁.symm.trans hs)
    exact hp
  · have hin : StaysInside s₂.heap (kheapStart + 120 + offset) :=
      (((hf s₀ hboot).2 s₁ hrun₀).2 s₂ hrun₁).1
    have P' : Pic s₂ ([⟨kheapStart, 100, true⟩] ++ ⟨kheapStart + 120, 1048436, true⟩ :: []) L := P
    have henc := P'.enclosed_iff.mp ((P.staysInside_iff (.inr hh) hp).mp hin)
    simp at henc

end

end ToeS.Kheap
