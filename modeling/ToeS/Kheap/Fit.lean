import ToeS.Kheap.Safety

/-!
# Which block `kheap_alloc` takes

`kheap_alloc` (`kern/mm/kheap.c`) is best fit over the whole heap: bins are searched upwards from the
bin of the request, each is sorted, and a bin of larger index holds larger blocks only. Among equally
large blocks it takes the one that has been in the bin longest (`ByAge`), because `add_block_sorted`
puts a block behind its equals.

When no free block is large enough the search runs off the end of `kheap->bins`: the loop has no exit
but success (`exhausted_never_handled`).
-/

namespace ToeS.Kheap
open Lib

/-! ## The order in which blocks came -/

/-- Equally large blocks of a bin are in the order in which they came, by the times `since`. -/
def ByAge (size : Nat → Nat) (L : Fin binCnt → List Nat) (since : Nat → Nat) : Prop :=
  ∀ i, (L i).Pairwise fun a c => size a = size c → since a ≤ since c

namespace ByAge
variable {size size' since since' : Nat → Nat} {L : Fin binCnt → List Nat} {i : Fin binCnt} {b now : Nat}

/-- The order depends on the sizes and the times of the blocks in the bins. -/
lemma congr (hA : ByAge size L since) (h : ∀ k, ∀ a ∈ L k, size' a = size a)
    (h' : ∀ k, ∀ a ∈ L k, since' a = since a) : ByAge size' L since' := by
  intro k
  refine (hA k).imp_of_mem fun {a c} ha hc hac => ?_
  rwa [h k a ha, h k c hc, h' k a ha, h' k c hc]

/-- A sorted list splits at a size into what is at most as large and what is larger. -/
lemma split_at (n : Nat) {l : List Nat} (hs : l.Pairwise fun a c => size a ≤ size c) :
    ∃ pre post, l = pre ++ post ∧ (∀ x ∈ pre, size x ≤ n) ∧ ∀ x ∈ post, n < size x := by
  induction l with
  | nil => exact ⟨[], [], rfl, by simp, by simp⟩
  | cons a l ih =>
    obtain ⟨ha, hl⟩ := List.pairwise_cons.mp hs
    by_cases hle : size a ≤ n
    · obtain ⟨pre, post, rfl, hpre, hpost⟩ := ih hl
      refine ⟨a :: pre, post, rfl, fun x hx => ?_, hpost⟩
      rcases List.mem_cons.mp hx with rfl | hx
      · exact hle
      · exact hpre x hx
    · refine ⟨[], a :: l, rfl, by simp, fun x hx => ?_⟩
      rcases List.mem_cons.mp hx with rfl | hx
      · omega
      · have := ha x hx
        omega

/-- A block that is added is the youngest of its size, and comes behind its equals. -/
lemma putIn (hA : ByAge size L since) (hs : Sorted size L) (hb : ∀ k, b ∉ L k)
    (hnow : ∀ k, ∀ a ∈ L k, since a ≤ now) :
    ByAge size (putIn size i b L) (Function.update since b now) := by
  obtain ⟨since', hsince⟩ : ∃ since', since' = Function.update since b now := ⟨_, rfl⟩
  have hnew : since' b = now := by rw [hsince, Function.update_self]
  have hold : ∀ k, ∀ a ∈ L k, since' a = since a := by
    intro k a ha
    rw [hsince, Function.update_of_ne]
    rintro rfl
    exact hb k ha
  have hA' : ByAge size L since' := hA.congr (fun _ _ _ => rfl) hold
  rw [← hsince]
  intro k
  by_cases hk : k = i
  · subst hk
    -- in front of the new block nothing is larger, behind it everything is
    obtain ⟨pre, post, hl, hpre, hpost⟩ := split_at (size b) (hs k)
    have hput : Kheap.putIn size k b L k = pre ++ b :: post := by
      rw [Kheap.putIn, Function.update_self, hl]
      exact orderedInsert_middle hpre fun x hx => hpost x (List.mem_of_mem_head? hx)
    have hAk := hA' k
    rw [hl] at hAk
    obtain ⟨h₁, h₂, h₃⟩ := List.pairwise_append.mp hAk
    rw [hput]
    refine List.pairwise_append.mpr ⟨h₁, List.pairwise_cons.mpr ⟨fun x hx e => ?_, h₂⟩,
      fun x hx y hy e => ?_⟩
    · exact absurd e (hpost x hx).ne
    · rcases List.mem_cons.mp hy with rfl | hy
      · have hxk : x ∈ L k := by simp [hl, hx]
        rw [hnew, hold k x hxk]
        exact hnow k x hxk
      · exact h₃ x hx y hy e
  · rw [Kheap.putIn, Function.update_of_ne hk]
    exact hA' k

/-- Taking a block out keeps the order of the others. -/
lemma takeOut (hA : ByAge size L since) : ByAge size (takeOut i b L) since := by
  intro k
  by_cases hk : k = i
  · subst hk
    rw [Kheap.takeOut, Function.update_self]
    exact (hA k).sublist List.erase_sublist
  · rw [Kheap.takeOut, Function.update_of_ne hk]
    exact hA k

end ByAge

section
variable {h : Heap} {bs : List Blk} {L : Fin binCnt → List Nat} {f : Blk} {sz : Nat}
  {since : Nat → Nat}

/-- The block taken is the oldest of its size. -/
lemma BestFit.oldest (hf : BestFit bs L sz f) (hA : ByAge (sizeIn bs) L since)
    (hsize : sizeIn bs f.addr = f.size) :
    ∀ c ∈ L (getBinIndex f.size), sizeIn bs c = f.size → since f.addr ≤ since c := by
  obtain ⟨older, younger, hl, hold⟩ := hf.first
  intro c hc he
  have hA := hA (getBinIndex f.size)
  rw [hl] at hc hA
  have hfits := hf.fits
  rcases List.mem_append.mp hc with hc | hc
  · have := hold c hc
    omega
  · rcases List.mem_cons.mp hc with rfl | hc
    · exact le_refl _
    · exact List.rel_of_pairwise_cons (List.pairwise_append.mp hA).2.1 hc (by rw [hsize, he])

/-- The state of the heap determines which block is taken. -/
lemma BestFit.unique {f' : Blk} (R : Rep h bs L) (hf : BestFit bs L sz f)
    (hf' : BestFit bs L sz f') : f = f' := by
  have hsize : f.size = f'.size := le_antisymm (hf.least f' hf'.mem hf'.free hf'.fits)
    (hf'.least f hf.mem hf.free hf.fits)
  obtain ⟨l, r, hl, hlt⟩ := hf.first
  obtain ⟨l', r', hl', hlt'⟩ := hf'.first
  rw [← hsize, hl] at hl'
  refine R.eq_of_addr hf.mem hf'.mem ?_
  -- whichever comes first is not among the ones that are too small
  have hfits := hf.fits
  have hfits' := hf'.fits
  rcases List.append_eq_append_iff.mp hl' with ⟨m, rfl, hm⟩ | ⟨m, rfl, hm⟩
  · cases m with
    | nil => exact (List.cons.inj hm).1
    | cons a m =>
      obtain ⟨rfl, -⟩ := List.cons.inj hm
      have := hlt' f.addr (by simp)
      rw [R.sizeIn_eq hf.mem] at this
      omega
  · cases m with
    | nil => exact (List.cons.inj hm).1.symm
    | cons a m =>
      obtain ⟨rfl, -⟩ := List.cons.inj hm
      have := hlt f'.addr (by simp)
      rw [R.sizeIn_eq hf'.mem] at this
      omega

/-! ## The allocation -/

/-- The block `f` has been cut into the block `d`, which is handed out, and what is left over. -/
structure Cut (f : Blk) (sz : Nat) (d : Blk) (rest : List Blk) : Prop where
  addr : d.addr = f.addr
  live : d.live = true
  fits : sz ≤ d.size
  tight : d.size ≤ sz + blckOverhead + minAllocSz
  rest : rest = [] ∧ d.size = f.size ∨
    ∃ r, rest = [r] ∧ r.live = false ∧ d.size + r.size + blckOverhead = f.size

/-- The block that is handed out is cut so. -/
lemma allocate_cut (hsz : sz ≤ f.size) : ∃ d rest, allocate f sz = d :: rest ∧ Cut f sz d rest := by
  unfold allocate
  by_cases hbig : f.size - sz > 24
  · refine ⟨_, _, if_pos hbig, rfl, rfl, le_refl _, ?_, .inr ⟨_, rfl, rfl, ?_⟩⟩
    · exact Nat.le_add_right_of_le (Nat.le_add_right ..)
    · simp only [blckOverhead_eq]
      omega
  · refine ⟨_, _, if_neg hbig, rfl, rfl, hsz, ?_, .inl ⟨rfl, rfl⟩⟩
    simp only [blckOverhead_eq, minAllocSz]
    omega

/-- `kheap_alloc` is best fit over all bins: wherever some free block is large enough it returns, and
takes a free block of least size among all those that fit, the oldest of its size. What it hands out
is at most `BLCK_OVERHEAD + MIN_ALLOC_SZ` larger than asked for and zeroed; what is left over becomes
one free block. -/
theorem kheapAlloc_bestFit (R : Rep h bs L) (hex : ∃ b ∈ bs, b.live = false ∧ sz ≤ b.size) :
    ∃ pre f post d rest h' L', bs = pre ++ f :: post ∧ f.live = false ∧ sz ≤ f.size ∧
      (∀ c ∈ bs, c.live = false → sz ≤ c.size → f.size ≤ c.size) ∧
      (∀ since, ByAge h.size L since → ∀ c ∈ L (getBinIndex f.size),
        h.size c = f.size → since f.addr ≤ since c) ∧
      kheapAlloc h sz = .ok (d.addr + offset, h') ∧ Cut f sz d rest ∧
      Rep h' (pre ++ d :: rest ++ post) L' ∧
      ∀ x, Bytes (d.addr + offset) (d.addr + offset + d.size + 8) x → h'.mem x = 0 := by
  obtain ⟨pre, f, post, h', rfl, hf, hrun, R', -, -, -, hz⟩ := kheapAlloc_spec R hex
  obtain ⟨d, rest, ha, hcut⟩ := allocate_cut hf.fits
  have hsize : ∀ k, ∀ a ∈ L k, sizeIn (pre ++ f :: post) a = h.size a := by
    intro k a ha
    obtain ⟨c, hc, rfl⟩ := R.blk_of_mem k a ha
    rw [R.sizeIn_eq hc, (R.inMem c hc).size]
  rw [ha] at R' hz
  refine ⟨pre, f, post, d, rest, h', _, rfl, hf.free, hf.fits, hf.least, fun since hA c hc he => ?_,
    hcut.addr ▸ hrun, hcut, R', fun x hx => hz d rfl x ?_⟩
  · exact hf.oldest (hA.congr hsize fun _ _ _ => rfl) (R.sizeIn_eq hf.mem) c hc (by rw [hsize _ c hc, he])
  · unfold Bytes offset at *
    omega

/-- Four free blocks between live ones. -/
def severalBlks : List Blk := [⟨kheapStart, 100, true⟩, ⟨kheapStart + 120, 300, false⟩,
  ⟨kheapStart + 440, 40, true⟩, ⟨kheapStart + 500, 52, false⟩, ⟨kheapStart + 572, 20, true⟩,
  ⟨kheapStart + 612, 260, false⟩, ⟨kheapStart + 892, 32, true⟩, ⟨kheapStart + 944, 1047612, false⟩]

/-- Two of them are in one bin. -/
def severalBins (i : Fin binCnt) : List Nat :=
  if i = getBinIndex 52 then [kheapStart + 500]
  else if i = getBinIndex 260 then [kheapStart + 612, kheapStart + 120]
  else if i = getBinIndex 1047612 then [kheapStart + 944] else []

/-- Their heap. -/
def several : Heap where
  mem := (severalBlks.flatMap fun b =>
      [(b.addr, if b.live then 0 else 1), (b.addr + 4, b.size), (b.foot, b.addr)]) ++
    [(kheapStart + 620, kheapStart + 120), (kheapStart + 132, kheapStart + 612)]
    |>.foldl (fun m (w : Nat × Nat) => writeWord m w.1 w.2) fun _ => 0
  start := kheapStart
  end_ := kheapEnd
  bins i := (severalBins i).headD 0

/-- These blocks are a heap. -/
lemma rep_several : Rep several severalBlks severalBins where
  start := rfl
  end_ := rfl
  tiles := by
    refine ⟨rfl, rfl, rfl, rfl, rfl, rfl, rfl, rfl, rfl⟩
  inMem b hb := by
    have h : ∀ b ∈ severalBlks, several.size b.addr = b.size ∧ several.header b.foot = b.addr := by
      decide +kernel
    exact ⟨(h b hb).1, (h b hb).2⟩
  bin i := by
    have hhead : several.bins i = (severalBins i).headD 0 := rfl
    have hnext : several.next (kheapStart + 500) = 0 ∧ several.next (kheapStart + 944) = 0 ∧
        several.next (kheapStart + 120) = 0 ∧ several.next (kheapStart + 612) = kheapStart + 120 ∧
        several.prev (kheapStart + 120) = kheapStart + 612 := by
      decide +kernel
    obtain ⟨h₁, h₂, h₃, h₄, h₅⟩ := hnext
    unfold severalBins at hhead ⊢
    split_ifs at hhead ⊢
    · exact ⟨⟨hhead, by decide, h₁⟩, trivial⟩
    · exact ⟨⟨hhead, by decide, h₄, by decide, h₃⟩, h₅, trivial⟩
    · exact ⟨⟨hhead, by decide, h₂⟩, trivial⟩
    · exact ⟨hhead, trivial⟩
  mem_iff i a := by
    have hfrom : ∀ i, ∀ a ∈ severalBins i, ∃ b ∈ severalBlks, b.addr = a ∧ b.live = false ∧
        getBinIndex b.size = i := by
      decide +kernel
    have hto : ∀ b ∈ severalBlks, b.live = false → b.addr ∈ severalBins (getBinIndex b.size) := by
      decide +kernel
    constructor
    · exact hfrom i a
    · rintro ⟨b, hb, rfl, hl, rfl⟩
      exact hto b hb hl
  sorted := by
    have h : ∀ i, (severalBins i).Pairwise fun a c => several.size a ≤ several.size c := by
      decide +kernel
    exact h

/-- The request is for the bin below that of the two blocks, of which it takes the smaller one. -/
theorem kheapAlloc_bestFit_several :
    ∃ pre f post d rest h' L', severalBlks = pre ++ f :: post ∧ f.live = false ∧ 200 ≤ f.size ∧
      (∀ c ∈ severalBlks, c.live = false → 200 ≤ c.size → f.size ≤ c.size) ∧
      (∀ since, ByAge several.size severalBins since → ∀ c ∈ severalBins (getBinIndex f.size),
        several.size c = f.size → since f.addr ≤ since c) ∧
      kheapAlloc several 200 = .ok (d.addr + offset, h') ∧ Cut f 200 d rest ∧
      Rep h' (pre ++ d :: rest ++ post) L' ∧
      ∀ x, Bytes (d.addr + offset) (d.addr + offset + d.size + 8) x → h'.mem x = 0 :=
  kheapAlloc_bestFit rep_several ⟨⟨kheapStart + 612, 260, false⟩, by simp [severalBlks], rfl, by decide⟩

end

/-! ## The order is kept -/

/-- Since when a block is in its bin, after a call made at time `now`: a block that is there with the
size it had keeps its time. -/
def arrive (h h' : Heap) (L : Fin binCnt → List Nat) (since : Nat → Nat) (now a : Nat) : Nat :=
  if (∃ k, a ∈ L k) ∧ h'.size a = h.size a then since a else now

section
variable {h h' : Heap} {bs pre post : List Blk} {L : Fin binCnt → List Nat} {b f : Blk}
  {sz now : Nat} {since : Nat → Nat}

/-- What remains is in the same order. -/
lemma takeOut_sublist {i k : Fin binCnt} {a : Nat} : (takeOut i a L k).Sublist (L k) := by
  by_cases hk : k = i
  · subst hk
    rw [takeOut, Function.update_self]
    exact List.erase_sublist
  · rw [takeOut, Function.update_of_ne hk]

/-- What was in a bin stays there in its order when a block joins. -/
lemma sublist_putIn {size : Nat → Nat} {i k : Fin binCnt} {a : Nat} :
    (L k).Sublist (putIn size i a L k) := by
  by_cases hk : k = i
  · subst hk
    rw [putIn, Function.update_self]
    exact List.sublist_orderedInsert ..
  · rw [putIn, Function.update_of_ne hk]

/-- Only the new block joins. -/
lemma mem_putIn {size : Nat → Nat} {i k : Fin binCnt} {a x : Nat} (h : x ∈ putIn size i a L k) :
    x = a ∨ x ∈ L k := by
  by_cases hk : k = i
  · subst hk
    rw [putIn, Function.update_self] at h
    exact (List.mem_orderedInsert _).mp h
  · rw [putIn, Function.update_of_ne hk] at h
    exact .inr h

/-- A block that stays with its size keeps its time. -/
lemma arrive_kept {a : Nat} {k : Fin binCnt} (ha : a ∈ L k) (he : h'.size a = h.size a) :
    arrive h h' L since now a = since a := if_pos ⟨⟨k, ha⟩, he⟩

/-- A block that is new, or has another size, gets the present time. -/
lemma arrive_new {a : Nat} (hnew : (∀ k, a ∉ L k) ∨ h'.size a ≠ h.size a) :
    arrive h h' L since now a = now := by
  refine if_neg ?_
  rintro ⟨⟨k, ha⟩, he⟩
  exact hnew.elim (fun h => h k ha) fun h => h he

/-- After an allocation. -/
lemma byAge_allocate (R : Rep h (pre ++ f :: post) L)
    (R' : Rep h' (pre ++ allocate f sz ++ post) (allocateBins (pre ++ f :: post) f sz L))
    (hA : ByAge h.size L since) (hnow : ∀ k, ∀ a ∈ L k, since a ≤ now) :
    ByAge h'.size (allocateBins (pre ++ f :: post) f sz L) (arrive h h' L since now) := by
  have hfm : f ∈ pre ++ f :: post := by simp
  -- what stays in a bin is not touched
  have hstay : ∀ c ∈ pre ++ post, ∀ k, c.addr ∈ L k → h'.size c.addr = h.size c.addr ∧
      arrive h h' L since now c.addr = since c.addr := by
    intro c hc k hk
    have hc' : c ∈ pre ++ allocate f sz ++ post := by simp at hc ⊢; tauto
    have he : h'.size c.addr = h.size c.addr := by
      rw [(R'.inMem c hc').size, (R.inMem c (mem_middle hc)).size]
    exact ⟨he, arrive_kept hk he⟩
  unfold allocateBins at R' ⊢
  by_cases hbig : f.size - sz > 24
  · obtain ⟨s, hs⟩ : ∃ s, s = remainder f sz := ⟨_, rfl⟩
    have ha : allocate f sz = [⟨f.addr, sz, true⟩, s] := by rw [allocate, if_pos hbig, hs]; rfl
    rw [if_pos hbig, ← hs] at R' ⊢
    rw [ha] at R'
    have hsm : s ∈ pre ++ [⟨f.addr, sz, true⟩, s] ++ post := by simp
    have hsa : ∀ c ∈ pre ++ f :: post, c.addr ≠ s.addr := by
      intro c hc e
      have hap := R.apart hfm hc
      have sa : s.addr = f.addr + 20 + sz := by rw [hs]; rfl
      unfold Blk.stop at hap
      rcases hap with rfl | h | h <;> omega
    have hsL : ∀ k, s.addr ∉ L k := fun k hk => by
      obtain ⟨c, hc, e⟩ := R.blk_of_mem k _ hk
      exact hsa c hc e
    have hg : ∀ k, ∀ a ∈ L k, sizeIn (s :: (pre ++ f :: post)) a = h.size a := by
      intro k a hk
      obtain ⟨c, hc, rfl⟩ := R.blk_of_mem k a hk
      have hcons : sizeIn (s :: (pre ++ f :: post)) c.addr = sizeIn (pre ++ f :: post) c.addr := by
        simp [sizeIn, List.find?_cons, (hsa c hc).symm]
      rw [hcons, R.sizeIn_eq hc, (R.inMem c hc).size]
    have hA₁ := ((hA.congr hg fun _ _ _ => rfl).putIn (i := getBinIndex s.size) (b := s.addr)
      (R.sorted.congr hg) hsL hnow).takeOut (i := getBinIndex f.size) (b := f.addr)
    have hback : ∀ k, ∀ a ∈ takeOut (getBinIndex f.size) f.addr
        (putIn (sizeIn (s :: (pre ++ f :: post))) (getBinIndex s.size) s.addr L) k,
        a = s.addr ∨ a ∈ L k ∧ ∃ c ∈ pre ++ post, c.addr = a := by
      intro k a hk
      refine (mem_putIn (takeOut_sublist.subset hk)).imp id fun hL => ⟨hL, ?_⟩
      obtain ⟨c, hc, rfl, hf, -⟩ := (R'.mem_iff k a).mp hk
      refine ⟨c, ?_, rfl⟩
      have hcs : c ≠ s := fun e => hsL k (e ▸ hL)
      have hcd : c ≠ ⟨f.addr, sz, true⟩ := fun e => by rw [e] at hf; cases hf
      simp at hc ⊢
      tauto
    have hsz : h'.size s.addr = s.size := (R'.inMem s hsm).size
    refine hA₁.congr (fun k a hk => ?_) fun k a hk => ?_
    · rcases hback k a hk with rfl | ⟨hL, c, hc, rfl⟩
      · rw [hsz]
        simp [sizeIn]
      · rw [(hstay c hc k hL).1, hg k _ hL]
    · rcases hback k a hk with rfl | ⟨hL, c, hc, rfl⟩
      · rw [arrive_new (.inl hsL), Function.update_self]
      · rw [(hstay c hc k hL).2, Function.update_of_ne]
        rintro e
        exact hsL k (e ▸ hL)
  · have ha : allocate f sz = [{ f with live := true }] := by rw [allocate, if_neg hbig]
    rw [if_neg hbig] at R' ⊢
    rw [ha] at R'
    have hback : ∀ k, ∀ a ∈ takeOut (getBinIndex f.size) f.addr L k,
        a ∈ L k ∧ ∃ c ∈ pre ++ post, c.addr = a := by
      intro k a hk
      obtain ⟨c, hc, rfl, hf, -⟩ := (R'.mem_iff k a).mp hk
      refine ⟨takeOut_sublist.subset hk, c, ?_, rfl⟩
      have hcd : c ≠ { f with live := true } := fun e => by rw [e] at hf; cases hf
      simp at hc ⊢
      tauto
    refine hA.takeOut.congr (fun k a hk => ?_) fun k a hk => ?_
    · obtain ⟨hL, c, hc, rfl⟩ := hback k a hk
      exact (hstay c hc k hL).1
    · obtain ⟨hL, c, hc, rfl⟩ := hback k a hk
      exact (hstay c hc k hL).2

/-- What a release does, whichever neighbours are joined. -/
lemma release_shape (pre : List Blk) (b : Blk) (post : List Blk) (L : Fin binCnt → List Nat) :
    ∃ pre' b' post' L', release pre b post = pre' ++ { b' with live := false } :: post' ∧
      releaseBins pre b post L =
        putIn (sizeIn (pre' ++ b' :: post')) (getBinIndex b'.size) b'.addr L' ∧
      (∀ k, (L' k).Sublist (L k)) ∧ (∀ c ∈ pre' ++ post', c ∈ pre ++ post) ∧
      (b'.addr = b.addr ∨ ∃ p ∈ pre, p.addr = b'.addr ∧ p.size < b'.size) := by
  have hprev : (∀ k, (binsPrev pre L k).Sublist (L k)) ∧ (∀ c ∈ (joinPrev pre b).1, c ∈ pre) ∧
      ((joinPrev pre b).2.addr = b.addr ∨
        ∃ p ∈ pre, p.addr = (joinPrev pre b).2.addr ∧ p.size < (joinPrev pre b).2.size) := by
    rcases List.eq_nil_or_concat pre with rfl | ⟨pre, p, rfl⟩
    · exact ⟨fun _ => .refl _, fun _ h => h, .inl rfl⟩
    · rw [List.concat_eq_append]
      cases hp : p.live with
      | true => simp [binsPrev, joinPrev, hp]
      | false =>
        have hlt : p.size < p.size + 20 + b.size := by omega
        simp only [binsPrev, joinPrev, hp, List.getLast?_concat, List.dropLast_concat,
          Bool.false_eq_true, if_false]
        exact ⟨fun k => takeOut_sublist, fun c hc => by simp [hc], .inr ⟨p, by simp, rfl, hlt⟩⟩
  have hnext : ∀ L : Fin binCnt → List Nat, ∀ d : Blk, (∀ k, (binsNext L post k).Sublist (L k)) ∧
      (∀ c ∈ (joinNext d post).2, c ∈ post) ∧ (joinNext d post).1.addr = d.addr ∧
      d.size ≤ (joinNext d post).1.size := by
    intro L d
    cases post with
    | nil => exact ⟨fun _ => .refl _, fun _ h => h, rfl, le_refl _⟩
    | cons n post =>
      cases hn : n.live with
      | true => simp [binsNext, joinNext, hn]
      | false =>
        have hle : d.size ≤ d.size + 20 + n.size := by omega
        simp only [binsNext, joinNext, hn, Bool.false_eq_true, if_false]
        exact ⟨fun k => takeOut_sublist, fun c hc => by simp [hc], trivial, hle⟩
  obtain ⟨p₁, p₂, p₃⟩ := hprev
  obtain ⟨n₁, n₂, n₃, n₄⟩ := hnext (binsPrev pre L) (joinPrev pre b).2
  by_cases hpre : pre = []
  · subst hpre
    exact ⟨[], b, post, L, if_pos rfl, if_pos rfl, fun _ => .refl _, fun _ h => h, .inl rfl⟩
  · refine ⟨(joinPrev pre b).1, (joinNext (joinPrev pre b).2 post).1,
      (joinNext (joinPrev pre b).2 post).2, binsNext (binsPrev pre L) post, if_neg hpre, if_neg hpre,
      fun k => (n₁ k).trans (p₁ k), fun c hc => ?_, ?_⟩
    · exact List.mem_append.mpr ((List.mem_append.mp hc).imp (p₂ c) (n₂ c))
    · rw [n₃]
      rcases p₃ with he | ⟨p, hp, he, hlt⟩
      · exact .inl he
      · exact .inr ⟨p, hp, he, hlt.trans_le n₄⟩

/-- Sizes do not depend on the flag. -/
lemma sizeIn_live {v : Bool} :
    sizeIn (pre ++ { b with live := v } :: post) = sizeIn (pre ++ b :: post) := by
  funext a
  unfold sizeIn
  rw [List.find?_append, List.find?_append, List.find?_cons, List.find?_cons]
  cases pre.find? fun b => decide (b.addr = a) with
  | some c => rfl
  | none =>
    by_cases h : b.addr = a
    · simp [h]
    · simp [h]

/-- After a release. -/
lemma byAge_release (R : Rep h (pre ++ b :: post) L) (hb : b.live = true)
    (R' : Rep h' (release pre b post) (releaseBins pre b post L)) (hA : ByAge h.size L since)
    (hnow : ∀ k, ∀ a ∈ L k, since a ≤ now) :
    ByAge h'.size (releaseBins pre b post L) (arrive h h' L since now) := by
  obtain ⟨pre', b', post', L₁, hrel, hbins, hsub, hkeep, hnew⟩ := release_shape pre b post L
  rw [hrel, hbins] at R'
  rw [hbins]
  obtain ⟨g, hg⟩ : ∃ g, g = sizeIn (pre' ++ b' :: post') := ⟨_, rfl⟩
  rw [← hg] at R' ⊢
  have hgsz : ∀ c ∈ pre' ++ { b' with live := false } :: post', h'.size c.addr = g c.addr := by
    intro c hc
    rw [(R'.inMem c hc).size, hg, ← sizeIn_live (v := false), R'.sizeIn_eq hc]
  -- the block that comes to its bin was not there before
  have hfresh : ∀ k, b'.addr ∉ L₁ k := by
    intro k hk
    have hput : b'.addr ∈ putIn g (getBinIndex b'.size) b'.addr L₁ (getBinIndex b'.size) := by
      rw [putIn, Function.update_self]
      exact (List.mem_orderedInsert _).mpr (.inl rfl)
    have hki : k = getBinIndex b'.size := R'.bins.disj _ _ _ (sublist_putIn.subset hk) hput
    have hnd := (R'.bin (getBinIndex b'.size)).chain.nodup
    rw [putIn, Function.update_self] at hnd
    have hperm := (List.perm_orderedInsert (fun a c => g a < g c) b'.addr
      (L₁ (getBinIndex b'.size))).nodup_iff.mp hnd
    exact (List.nodup_cons.mp hperm).1 (hki ▸ hk)
  have hstay : ∀ k, ∀ a ∈ L₁ k, h'.size a = h.size a ∧ g a = h.size a := by
    intro k a ha
    obtain ⟨c, hc, rfl⟩ := R'.blk_of_mem k a (sublist_putIn.subset ha)
    have hcb : c ≠ { b' with live := false } := by
      rintro rfl
      exact hfresh k ha
    have hcm := hkeep c (mem_of_middle hc hcb)
    have he : h'.size c.addr = h.size c.addr := by
      rw [(R'.inMem c hc).size, (R.inMem c (mem_middle hcm)).size]
    exact ⟨he, by rw [← hgsz c hc, he]⟩
  have hA₁ : ByAge g L₁ since := by
    have : ByAge h.size L₁ since := fun k => (hA k).sublist (hsub k)
    exact this.congr (fun k a ha => (hstay k a ha).2) fun _ _ _ => rfl
  have hs₁ : Sorted g L₁ := by
    have : Sorted h.size L₁ := fun k => (R.sorted k).sublist (hsub k)
    exact this.congr fun k a ha => (hstay k a ha).2
  have hsz' : h'.size b'.addr = b'.size := (R'.inMem { b' with live := false } (by simp)).size
  have harr : arrive h h' L since now b'.addr = now := by
    refine arrive_new ?_
    rcases hnew with e | ⟨p, hp, e, hlt⟩
    · exact .inl fun k hk => R.not_mem_bin (b := b) (by simp) hb k (e ▸ hk)
    · right
      have hpsz : h.size p.addr = p.size := (R.inMem p (by simp [hp])).size
      rw [hsz', ← e, hpsz]
      omega
  refine (hA₁.putIn hs₁ hfresh fun k a ha => hnow k a ((hsub k).subset ha)).congr
    (fun k a ha => ?_) fun k a ha => ?_
  · obtain ⟨c, hc, rfl⟩ := R'.blk_of_mem k a ha
    exact hgsz c hc
  · rcases mem_putIn ha with rfl | ha
    · rw [harr, Function.update_self]
    · rw [arrive_kept ((hsub k).subset ha) (hstay k a ha).1, Function.update_of_ne]
      rintro rfl
      exact hfresh k ha

/-- The order by age is kept by every legal call. -/
theorem byAge_step {s : Sys} {op : Op} (P : Pic s bs L) (hh : bs = [wholeHeap] ∨ Holes s.heap bs)
    (hl : Legal s op) (hf : Fenced s op) (hA : ByAge s.heap.size L since)
    (hnow : ∀ k, ∀ a ∈ L k, since a ≤ now) :
    ∃ s' bs' L', step s op = .ok s' ∧ Pic s' bs' L' ∧
      ByAge s'.heap.size L' (arrive s.heap s'.heap L since now) := by
  cases op with
  | alloc sz =>
    obtain ⟨pre, f, post, h, rfl, -, hrun, P', -⟩ := P.alloc hl
    exact ⟨_, _, _, hrun, P', byAge_allocate P.rep P'.rep hA hnow⟩
  | free p =>
    have hholes : Holes s.heap bs := by
      rcases hh with rfl | hh
      · obtain ⟨b, hb, hbl, -⟩ := (P.live p).mp hl
        rw [List.mem_singleton.mp hb] at hbl
        cases hbl
      · exact hh
    obtain ⟨pre, b, post, h, rfl, hb, -, hrun, P', -⟩ := P.free hholes hl hf
    exact ⟨_, _, _, hrun, P', byAge_release P.rep hb P'.rep hA hnow⟩
  | store p off v =>
    obtain ⟨h, hrun, P', -⟩ := P.store hl
    have hsz : ∀ k, ∀ a ∈ L k, h.size a = s.heap.size a := fun k a ha => by
      obtain ⟨c, hc, rfl⟩ := P.rep.blk_of_mem k a ha
      rw [(P'.rep.inMem c hc).size, (P.rep.inMem c hc).size]
    exact ⟨_, _, _, hrun, P', hA.congr hsz fun k a ha => arrive_kept ha (hsz k a ha)⟩

end

/-! ## Exhaustion -/

/-- `kheap_alloc` returns `NULL` and leaves the heap as it was. -/
def FailsCleanly (h : Heap) (sz : Nat) : Prop := kheapAlloc h sz = .ok (0, h)

/-- Where no bin from `idx` on holds a block that fits, the search runs off the end of the bins. -/
lemma searchBins_none {h : Heap} {L : Fin binCnt → List Nat} {sz n idx : Nat} (hB : Bins h L)
    (hno : ∀ k, ∀ a ∈ L k, h.size a < sz) : searchBins h sz n idx = .error .outOfBounds := by
  induction n generalizing idx with
  | zero => rfl
  | succ n ih =>
    by_cases hi : idx < binCnt
    · have hnone : (L ⟨idx, hi⟩).find? (fun x => decide (sz ≤ h.size x)) = none :=
        List.find?_eq_none.mpr fun c hc => by simpa using hno _ c hc
      have hff := getFirstFit_spec sz (hB.bin ⟨idx, hi⟩) (hB.fits ⟨idx, hi⟩)
      rw [hnone] at hff
      simp only [searchBins, dif_pos hi, hff, bind, Except.bind]
      exact (if_neg (by simp)).trans ih
    · rw [searchBins, dif_neg hi]

section
variable {h : Heap} {bs : List Blk} {L : Fin binCnt → List Nat} {sz : Nat}

/-- `kheap_alloc` reads beyond `kheap->bins` when no free block is large enough. -/
theorem kheapAlloc_exhausted (R : Rep h bs L) (hno : ∀ b ∈ bs, b.live = false → b.size < sz) :
    kheapAlloc h sz = .error .outOfBounds := by
  have hsearch : searchBins h sz (binCnt + 1) (getBinIndex sz) = .error .outOfBounds := by
    refine searchBins_none R.bins fun k a ha => ?_
    obtain ⟨b, hb, rfl, hf, -⟩ := (R.mem_iff k a).mp ha
    rw [(R.inMem b hb).size]
    exact hno b hb hf
  simp only [kheapAlloc, hsearch, bind, Except.bind]

end

section
variable {m : Mem} {ops : List Op}

/-- In no state that a legal run reaches is a request handled that is too large for every free block:
`kheap_alloc` reads beyond the last bin. -/
theorem exhausted_never_handled (hl : LegalFrom m ops) (hf : m kheapEnd = 0 ∨ EnclosedFrom m ops) :
    ∃ s, runFrom m ops = .ok s ∧ ∀ sz, sz < 4294967296 → ¬ Legal s (.alloc sz) →
      kheapAlloc s.heap sz = .error .outOfBounds ∧ ¬ FailsCleanly s.heap sz := by
  obtain ⟨s, hrun, ⟨bs, L, P, -⟩, -, -⟩ := runFrom_sound hl hf
  refine ⟨s, hrun, fun sz _ hno => ?_⟩
  have he : kheapAlloc s.heap sz = .error .outOfBounds := by
    refine kheapAlloc_exhausted P.rep fun b hb hbf => ?_
    by_contra hsz
    exact hno (P.legal_alloc.mpr ⟨b, hb, hbf, not_lt.mp hsz⟩)
  refine ⟨he, fun hok => ?_⟩
  rw [FailsCleanly, he] at hok
  cases hok

/-- After an allocation and its release. -/
theorem exhausted_never_handled_alloc_free :
    ∃ s, runFrom (fun _ => 0) [.alloc 100, .free (kheapStart + offset)] = .ok s ∧
      ∀ sz, sz < 4294967296 → ¬ Legal s (.alloc sz) →
        kheapAlloc s.heap sz = .error .outOfBounds ∧ ¬ FailsCleanly s.heap sz :=
  exhausted_never_handled (legal_alloc_free _) (.inl rfl)

/-- A request for one byte more than the initialised heap has. -/
theorem not_failsCleanly_boot :
    ∃ s, runFrom (fun _ => 0) [] = .ok s ∧ ¬ Legal s (.alloc (wholeHeap.size + 1)) ∧
      ¬ FailsCleanly s.heap (wholeHeap.size + 1) := by
  obtain ⟨s, hboot, -, P, -⟩ := boot_spec fun _ => 0
  have hno : ∀ b ∈ [wholeHeap], b.live = false → b.size < wholeHeap.size + 1 := by
    intro b hb _
    rw [List.mem_singleton.mp hb]
    exact Nat.lt_succ_self _
  refine ⟨s, ?_, fun hl => ?_, fun hok => ?_⟩
  · show (boot _ >>= fun s => exec step s []) = _
    rw [hboot]
    rfl
  · obtain ⟨b, hb, hbf, hsz⟩ := P.legal_alloc.mp hl
    have := hno b hb hbf
    omega
  · rw [FailsCleanly, kheapAlloc_exhausted P.rep hno] at hok
    cases hok

end

end ToeS.Kheap
