import ToeS.Kheap.Inv

/-!
# `kheap_free` on the abstract picture

`kheap_free` (`kern/mm/kheap.c`) on a heap that satisfies the invariant is the list operation
`release`: the freed block is joined with the block before it and with the block behind it where
these are free, except that the first block of the heap is joined with nothing. All writes stay in
free blocks and in the freed block (`Room`).
-/

namespace ToeS.Kheap
open Lib

/-- Joining with the block before. -/
def joinPrev (pre : List Blk) (b : Blk) : List Blk × Blk :=
  match pre.getLast? with
  | some p => if p.live then (pre, b) else (pre.dropLast, ⟨p.addr, p.size + 20 + b.size, true⟩)
  | none => (pre, b)

/-- Joining with the block behind. -/
def joinNext (b : Blk) : List Blk → Blk × List Blk
  | [] => (b, [])
  | n :: post => if n.live then (b, n :: post) else (⟨b.addr, b.size + 20 + n.size, true⟩, post)

/-- The blocks after `b` has been freed. -/
def release (pre : List Blk) (b : Blk) (post : List Blk) : List Blk :=
  if pre = [] then { b with live := false } :: post
  else
    let (pre, b) := joinPrev pre b
    let (b, post) := joinNext b post
    pre ++ { b with live := false } :: post

/-- The bins once the block before is no longer on its own. -/
def binsPrev (pre : List Blk) (L : Fin binCnt → List Nat) : Fin binCnt → List Nat :=
  match pre.getLast? with
  | some p => if p.live then L else takeOut (getBinIndex p.size) p.addr L
  | none => L

/-- The bins once the block behind is no longer on its own. -/
def binsNext (L : Fin binCnt → List Nat) : List Blk → Fin binCnt → List Nat
  | [] => L
  | n :: _ => if n.live then L else takeOut (getBinIndex n.size) n.addr L

/-- The bins after `b` has been freed. -/
def releaseBins (pre : List Blk) (b : Blk) (post : List Blk) (L : Fin binCnt → List Nat) :
    Fin binCnt → List Nat :=
  if pre = [] then putIn (sizeIn (b :: post)) (getBinIndex b.size) b.addr L
  else
    let L := binsNext (binsPrev pre L) post
    let (pre, b) := joinPrev pre b
    let (b, post) := joinNext b post
    putIn (sizeIn (pre ++ b :: post)) (getBinIndex b.size) b.addr L

/-- The bytes a release may write: the block itself and the free blocks around it. -/
def Room (pre : List Blk) (b : Blk) (post : List Blk) (x : Nat) : Prop :=
  FreeIn (pre ++ post) x ∨ b.Inside x

/-- The hole byte of every block says whether it is live. -/
def Holes (h : Heap) (bs : List Blk) : Prop := ∀ b ∈ bs, (h.hole b.addr = 0 ↔ b.live = true)

/-- The free bytes of two lists of blocks. -/
lemma freeIn_append {bs cs : List Blk} {x : Nat} : FreeIn (bs ++ cs) x ↔ FreeIn bs x ∨ FreeIn cs x := by
  unfold FreeIn
  simp only [List.mem_append]
  constructor
  · rintro ⟨b, hb | hb, h⟩
    · exact .inl ⟨b, hb, h⟩
    · exact .inr ⟨b, hb, h⟩
  · rintro (⟨b, hb, h⟩ | ⟨b, hb, h⟩)
    · exact ⟨b, .inl hb, h⟩
    · exact ⟨b, .inr hb, h⟩

/-- The free bytes of a block and others. -/
lemma freeIn_cons {b : Blk} {bs : List Blk} {x : Nat} :
    FreeIn (b :: bs) x ↔ b.live = false ∧ b.Inside x ∨ FreeIn bs x := by
  unfold FreeIn
  simp

namespace Rep
variable {h h' : Heap} {pre post : List Blk} {L : Fin binCnt → List Nat} {b c n p : Blk}

/-- A block header is no link. -/
lemma addr_not_links {bs : List Blk} (R : Rep h bs L) (hb : b ∈ bs) : ¬ Links L b.addr := by
  intro hl
  obtain ⟨c, hc, -, hx⟩ := R.of_links hl
  have := R.apart hb hc
  unfold Blk.stop Bytes at *
  rcases this with rfl | h | h <;> omega

/-- The hole byte of a block is no part of the picture. -/
lemma setHole {bs : List Blk} {v : UInt8} (R : Rep h bs L) (hb : b ∈ bs) :
    Rep (h.setHole b.addr v) bs L := by
  have hbb := R.bounds hb
  have hlt := b.addr_lt_stop
  refine R.edit (Edit.setHole (by omega)) rfl ?_ ?_
  · intro c hc x hx hw
    have := R.apart hb hc
    unfold Blk.Fields Blk.foot Blk.stop Bytes at *
    rcases this with rfl | h | h <;> omega
  · intro x hx hw
    have hxa : x = b.addr := by unfold Bytes at hw; omega
    exact R.addr_not_links hb (hxa ▸ hx)

/-- Links lie in the room of a block that is in no bin. -/
lemma links_room (R : Rep h (pre ++ b :: post) L) (hb : b.live = true) {x : Nat} (hx : Links L x) :
    Room pre b post x := by
  have := R.links_freeIn hx
  rw [freeIn_append, freeIn_cons, hb] at this
  unfold Room
  rw [freeIn_append]
  tauto

/-- The byte behind the heap is in no block. -/
lemma end_not_inside {bs : List Blk} (R : Rep h bs L) (hb : b ∈ bs) : ¬ b.Inside kheapEnd := by
  intro hx
  have := R.bounds hb
  rw [kheapEnd_eq] at hx
  unfold Blk.Inside Bytes at hx
  omega

/-- The byte behind the heap is in no block. -/
lemma end_not_freeIn {bs : List Blk} (R : Rep h bs L) : ¬ FreeIn bs kheapEnd := by
  rintro ⟨b, hb, -, hx⟩
  exact R.end_not_inside hb hx

/-- A release does not write the byte behind the heap. -/
lemma end_not_room (R : Rep h (pre ++ b :: post) L) : ¬ Room pre b post kheapEnd := by
  rintro (⟨c, hc, -, hx⟩ | hx)
  · exact R.end_not_inside (mem_middle hc) hx
  · exact R.end_not_inside (by simp) hx

/-- A block begins where the one before ends. -/
lemma adjacent_prev (R : Rep h (pre ++ p :: b :: post) L) : b.addr = p.stop :=
  (tiles_middle.mp R.tiles).2.1

/-- The first block is the one at `kheap->start`. -/
lemma start_iff (R : Rep h (pre ++ b :: post) L) : b.addr = h.start ↔ pre = [] := by
  rw [R.start]
  have ht := (tiles_middle.mp R.tiles).1
  constructor
  · intro e
    rw [e] at ht
    cases pre with
    | nil => rfl
    | cons p pre =>
      have := (ht.bounds Blk.addr_lt_stop (b := p) (by simp))
      have := p.addr_lt_stop
      omega
  · rintro rfl
    exact ht.symm

end Rep

section
variable {h : Heap} {pre post : List Blk} {L : Fin binCnt → List Nat} {b : Blk}

/-- What `kheap_free` finds before a block: the block the preceding footer names. -/
lemma prev_header {p : Blk} (R : Rep h (pre ++ p :: b :: post) L) :
    h.header (sub32 b.addr footerSz) = p.addr := by
  have hp := R.bounds (b := p) (by simp)
  have hadj := R.adjacent_prev
  have := p.addr_lt_stop
  have e : sub32 b.addr footerSz = p.foot := by
    unfold sub32 footerSz Blk.foot
    unfold Blk.stop at *
    omega
  rw [e]
  exact (R.inMem p (by simp)).foot

/-- What `kheap_free` computes as the next block. -/
lemma next_addr (R : Rep h (pre ++ b :: post) L) : u32 (getFoot h b.addr + footerSz) = b.stop := by
  have hb := R.bounds (b := b) (by simp)
  rw [getFoot, (R.inMem b (by simp)).size]
  unfold Blk.stop at *
  rw [u32_eq (n := b.addr + blockSz + b.size) (by simp only [blockSz]; omega),
    u32_eq (by simp only [blockSz, footerSz]; omega)]
  simp only [blockSz, footerSz]
  omega

/-- The footer is found from the header. -/
lemma getFoot_eq (R : Rep h (pre ++ b :: post) L) : getFoot h b.addr = b.foot := by
  have hb := R.bounds (b := b) (by simp)
  rw [getFoot, (R.inMem b (by simp)).size]
  unfold Blk.stop at *
  rw [u32_eq (by simp only [blockSz]; omega)]
  simp only [blockSz, Blk.foot]

/-- The size field of two blocks that become one. -/
lemma joined_size {n : Blk} (hb : h.size b.addr = b.size) (hn : h.size n.addr = n.size)
    (hfit : b.size + 20 + n.size < 4294967296) :
    u32 (h.size b.addr + (blckOverhead + h.size n.addr)) = b.size + 20 + n.size := by
  rw [hb, hn, blckOverhead_eq, u32_eq (by omega)]
  omega

/-- The stores that make `b` a part of the block `p` before it. -/
lemma joinedPrev_spec {h₁ : Heap} {p m : Blk} (sp : h.size p.addr = p.size)
    (sb : h.size b.addr = b.size) (hadj : b.addr = p.stop) (hfit : b.stop < 4294967296)
    (hm : m = ⟨p.addr, p.size + 20 + b.size, true⟩)
    (e : h₁ = (h.setSize p.addr m.size).setHeader (getFoot (h.setSize p.addr m.size) b.addr) p.addr) :
    m.InMem h₁ ∧ Edit (fun x => p.Inside x ∨ b.Inside x) h h₁ ∧ h₁.bins = h.bins := by
  have ma : m.addr = p.addr := by rw [hm]
  have ms : m.size = p.size + 20 + b.size := by rw [hm]
  obtain ⟨h₂, eh₂⟩ : ∃ h₂, h₂ = h.setSize p.addr m.size := ⟨_, rfl⟩
  have e₂ : Edit (Bytes (p.addr + 4) (p.addr + 8)) h h₂ := by
    rw [eh₂]
    exact .setSize (by unfold Blk.stop at *; omega)
  have s₂b : h₂.size b.addr = b.size := by
    rw [e₂.size (by unfold Blk.stop at *; omega), sb]
    unfold Blk.stop Bytes at *
    omega
  have f₂ : getFoot h₂ b.addr = b.foot := by
    rw [getFoot, s₂b]
    unfold Blk.stop at *
    rw [u32_eq (by simp only [blockSz]; omega)]
    simp only [blockSz, Blk.foot]
  rw [← eh₂, f₂] at e
  have e₃ : Edit (Bytes b.foot b.stop) h₂ h₁ := by
    have hstop : b.stop = b.foot + 4 := by unfold Blk.foot Blk.stop; omega
    rw [e, hstop]
    exact .setHeader (by rw [← hstop]; omega)
  refine ⟨⟨?_, ?_⟩, ?_, by rw [e, eh₂]; rfl⟩
  · rw [ma, e₃.size (by unfold Blk.stop at *; omega), eh₂]
    · exact size_setSize (by unfold Blk.stop at *; omega) (by unfold Blk.stop at *; omega)
    · unfold Blk.foot Blk.stop Bytes at *
      omega
  · have hfoot : m.foot = b.foot := by unfold Blk.foot Blk.stop at *; omega
    rw [hfoot, ma, e]
    exact header_setHeader (by unfold Blk.foot Blk.stop at *; omega) (by unfold Blk.stop at *; omega)
  · exact (e₂.mono fun x hx => .inl (p.inside_size x hx)).trans
      (e₃.mono fun x hx => .inr (b.inside_foot x hx))

/-- The stores that make the block `n` behind `b` a part of it; the header and the footer that are
swallowed are scratched. -/
lemma joinedNext_spec {h₁ h₂ : Heap} {n m : Blk} (sb : h.size b.addr = b.size)
    (sn : h.size n.addr = n.size) (hadj : n.addr = b.stop) (hfit : n.stop < 4294967296)
    (hm : m = ⟨b.addr, b.size + 20 + n.size, true⟩)
    (e₁ : h₁ = ((h.setSize b.addr m.size).setHeader
      (getFoot (h.setSize b.addr m.size) n.addr) 0).setSize n.addr 0)
    (e₂ : h₂ = h₁.setHeader (getFoot h₁ b.addr) b.addr) :
    m.InMem h₂ ∧ Edit (fun x => b.Inside x ∨ n.Inside x) h h₂ ∧ h₂.bins = h.bins := by
  have ma : m.addr = b.addr := by rw [hm]
  have ms : m.size = b.size + 20 + n.size := by rw [hm]
  have hstop : n.stop = n.foot + 4 := by unfold Blk.foot Blk.stop; omega
  have hnf : n.foot + 4 ≤ 4294967296 := by omega
  obtain ⟨h₃, eh₃⟩ : ∃ h₃, h₃ = h.setSize b.addr m.size := ⟨_, rfl⟩
  have w₃ : Edit (Bytes (b.addr + 4) (b.addr + 8)) h h₃ := by
    rw [eh₃]
    exact .setSize (by unfold Blk.stop at *; omega)
  have s₃n : h₃.size n.addr = n.size := by
    rw [w₃.size (by unfold Blk.stop at *; omega), sn]
    unfold Blk.stop Bytes at *
    omega
  have f₃ : getFoot h₃ n.addr = n.foot := by
    rw [getFoot, s₃n]
    unfold Blk.stop at *
    rw [u32_eq (by simp only [blockSz]; omega)]
    simp only [blockSz, Blk.foot]
  rw [← eh₃, f₃] at e₁
  have w₁ : Edit n.Inside h₃ h₁ := by
    have w : Edit (Bytes n.foot n.stop) h₃ (h₃.setHeader n.foot 0) := hstop ▸ .setHeader hnf
    have w' : Edit (Bytes (n.addr + 4) (n.addr + 8)) (h₃.setHeader n.foot 0) h₁ := by
      rw [e₁]
      exact .setSize (by unfold Blk.stop at *; omega)
    exact (w.mono n.inside_foot).trans (w'.mono n.inside_size)
  have s₁b : h₁.size b.addr = m.size := by
    rw [w₁.size (by unfold Blk.stop at *; omega), eh₃]
    · exact size_setSize (by unfold Blk.stop at *; omega) (by unfold Blk.stop at *; omega)
    · unfold Blk.Inside Blk.stop Bytes at *
      omega
  have hfoot : m.foot = n.foot := by unfold Blk.foot Blk.stop at *; omega
  have f₁ : getFoot h₁ b.addr = n.foot := by
    rw [getFoot, s₁b, ← hfoot]
    unfold Blk.foot Blk.stop at *
    rw [u32_eq (by simp only [blockSz]; omega)]
    simp only [blockSz]
    omega
  rw [f₁] at e₂
  have w₂ : Edit (Bytes n.foot n.stop) h₁ h₂ := by
    rw [e₂, hstop]
    exact .setHeader hnf
  refine ⟨⟨?_, ?_⟩, ?_, by rw [e₂, e₁, eh₃]; rfl⟩
  · rw [ma, w₂.size (by unfold Blk.stop at *; omega), s₁b]
    unfold Blk.foot Blk.stop Bytes at *
    omega
  · rw [hfoot, ma, e₂]
    exact header_setHeader hnf (by unfold Blk.stop at *; omega)
  · exact ((w₃.mono fun x hx => .inl (b.inside_size x hx)).trans (w₁.mono fun _ => .inr)).trans
      (w₂.mono fun x hx => .inr (n.inside_foot x hx))

/-- Joining two blocks changes no hole byte of the others. -/
lemma joined_holes {h₁ h₂ : Heap} {bs cs : List Blk} {L₁ : Fin binCnt → List Nat} {p q m : Blk}
    (R : Rep h (bs ++ p :: q :: cs) L) (e₁ : Edit (Links L) h h₁)
    (e₂ : Edit (fun x => p.Inside x ∨ q.Inside x) h₁ h₂) (R₂ : Rep h₂ (bs ++ m :: cs) L₁)
    (hm : m.addr = p.addr ∧ m.stop = q.stop) (hadj : q.addr = p.stop) :
    ∀ c ∈ bs ++ cs, h₂.hole c.addr = h.hole c.addr := by
  intro c hc
  have hc' : c ∈ bs ++ p :: q :: cs := by simp at hc ⊢; tauto
  have hbc := R.bounds hc'
  have := c.addr_lt_stop
  have h₁₂ := R₂.around hc
  rw [e₂.hole (by omega), e₁.hole (by omega) (R.addr_not_links hc')]
  unfold Blk.Inside Bytes
  unfold Blk.stop at *
  omega

/-- The block before is joined when it is free. -/
lemma mergePrev_spec (R : Rep h (pre ++ b :: post) L) (hb : b.live = true) (hpre : pre ≠ [])
    (hh : Holes h (pre ++ post)) :
    ∃ h' L', mergePrev h b.addr (h.header (sub32 b.addr footerSz)) =
        .ok (h', (joinPrev pre b).2.addr) ∧
      (joinPrev pre b).2.live = true ∧ (joinPrev pre b).2.stop = b.stop ∧
      Rep h' ((joinPrev pre b).1 ++ (joinPrev pre b).2 :: post) L' ∧
      Edit (Room pre b post) h h' ∧ Holes h' ((joinPrev pre b).1 ++ post) ∧
      (∀ x, Room (joinPrev pre b).1 (joinPrev pre b).2 post x → Room pre b post x) ∧
      L' = binsPrev pre L := by
  obtain ⟨pre, p, rfl⟩ : ∃ pre' p, pre = pre' ++ [p] :=
    ⟨_, _, (List.dropLast_append_getLast hpre).symm⟩
  rw [List.append_assoc, List.singleton_append] at R
  have hadj := R.adjacent_prev
  have hp := hh p (by simp)
  have hbp := R.bounds (b := p) (by simp)
  have hbb := R.bounds (b := b) (by simp)
  rw [prev_header R]
  cases hf : p.live with
  | true =>
    have hj : joinPrev (pre ++ [p]) b = (pre ++ [p], b) := by simp [joinPrev, hf]
    rw [hj]
    refine ⟨h, L, ?_, hb, rfl, by simpa using R, .refl _ _, hh, fun _ hx => hx,
      by simp [binsPrev, hf]⟩
    rw [mergePrev, if_neg (by simp [hp.mpr hf])]
  | false =>
    obtain ⟨m, hm⟩ : ∃ m : Blk, m = ⟨p.addr, p.size + 20 + b.size, true⟩ := ⟨_, rfl⟩
    have ma : m.addr = p.addr := by rw [hm]
    have ms : m.size = p.size + 20 + b.size := by rw [hm]
    have hj : joinPrev (pre ++ [p]) b = (pre, m) := by simp [joinPrev, hf, hm]
    rw [hj]
    -- out of its bin first
    obtain ⟨h₁, L₁, hrun, R₁, e₁, hL⟩ := R.remove hf
    have s₁p : h₁.size p.addr = p.size := (R₁.inMem { p with live := true } (by simp)).size
    have s₁b : h₁.size b.addr = b.size := (R₁.inMem b (by simp)).size
    have hsum := joined_size s₁p s₁b (by unfold Blk.stop at *; omega)
    obtain ⟨h₃, eh₃⟩ : ∃ h₃, h₃ = (h₁.setSize p.addr m.size).setHeader
        (getFoot (h₁.setSize p.addr m.size) b.addr) p.addr := ⟨_, rfl⟩
    obtain ⟨hin, e₂₃, hbins⟩ := joinedPrev_spec s₁p s₁b hadj (by omega) hm eh₃
    have hwin : ∀ x, p.Inside x ∨ b.Inside x → Room (pre ++ [p]) b post x := by
      rintro x (hx | hx)
      · exact .inl ⟨p, by simp, hf, hx⟩
      · exact .inr hx
    have e : Edit (Room (pre ++ [p]) b post) h h₃ := by
      refine (e₁.mono fun x hx => ?_).trans (e₂₃.mono hwin)
      have R' : Rep h ((pre ++ [p]) ++ b :: post) L := by simpa using R
      exact R'.links_room hb hx
    have hmstop : m.stop = b.stop := by unfold Blk.stop at *; omega
    have R₃ : Rep h₃ (pre ++ m :: post) L₁ :=
      R₁.merge rfl hb hm e₂₃ hbins (fun x hx => hx) hin
    refine ⟨h₃, L₁, ?_, by rw [hm], hmstop, R₃, e, fun c hc => ?_, ?_, by simp [binsPrev, hf, hL]⟩
    · have hhole : h.hole p.addr ≠ 0 := fun e => by rw [hp.mp e] at hf; cases hf
      rw [mergePrev, if_pos hhole, (R.inMem p (by simp)).size, hrun]
      simp only [bind, Except.bind, pure, Except.pure, hsum, ← ms]
      rw [← eh₃, ma]
    · rw [← hh c (by simp at hc ⊢; tauto), joined_holes R e₁ e₂₃ R₃ ⟨ma, hmstop⟩ hadj c hc]
    · intro x hx
      rcases hx with hx | hx
      · left
        rw [freeIn_append] at hx ⊢
        rw [freeIn_append]
        tauto
      · refine hwin x ?_
        have hx : m.Inside x := hx
        unfold Blk.Inside Blk.stop Bytes at *
        omega

/-- The block behind is joined when it is free. Behind the last block a byte that is not of the heap
is read. -/
lemma mergeNext_spec (R : Rep h (pre ++ b :: post) L) (hb : b.live = true)
    (hh : Holes h (pre ++ post)) (hend : post = [] → h.mem kheapEnd = 0) :
    ∃ h' L', mergeNext h b.addr b.stop = .ok h' ∧ (joinNext b post).1.addr = b.addr ∧
      (joinNext b post).1.live = true ∧
      Rep h' (pre ++ (joinNext b post).1 :: (joinNext b post).2) L' ∧
      Edit (Room pre b post) h h' ∧ Holes h' (pre ++ (joinNext b post).2) ∧
      (∀ x, Room pre (joinNext b post).1 (joinNext b post).2 x → Room pre b post x) ∧
      L' = binsNext L post := by
  have hbb := R.bounds (b := b) (by simp)
  cases post with
  | nil =>
    have hstop : b.stop = kheapEnd := (tiles_middle.mp R.tiles).2
    refine ⟨h, L, ?_, rfl, hb, R, .refl _ _, hh, fun _ hx => hx, rfl⟩
    have hhole : h.hole b.stop = 0 := by
      rw [Heap.hole, hstop, u32_eq (by decide)]
      exact hend rfl
    rw [mergeNext, if_neg (by simp [hhole])]
  | cons n post =>
    have hadj : n.addr = b.stop := R.adjacent_prev
    have hn := hh n (by simp)
    have hbn := R.bounds (b := n) (by simp)
    rw [← hadj]
    cases hf : n.live with
    | true =>
      have hj : joinNext b (n :: post) = (b, n :: post) := by simp [joinNext, hf]
      rw [hj]
      refine ⟨h, L, ?_, rfl, hb, R, .refl _ _, hh, fun _ hx => hx, by simp [binsNext, hf]⟩
      rw [mergeNext, if_neg (by simp [hn.mpr hf])]
    | false =>
      obtain ⟨m, hm⟩ : ∃ m : Blk, m = ⟨b.addr, b.size + 20 + n.size, true⟩ := ⟨_, rfl⟩
      have ma : m.addr = b.addr := by rw [hm]
      have ms : m.size = b.size + 20 + n.size := by rw [hm]
      have hj : joinNext b (n :: post) = (m, post) := by simp [joinNext, hf, hm]
      rw [hj]
      -- out of its bin first
      have R' : Rep h ((pre ++ [b]) ++ n :: post) L := by simpa using R
      obtain ⟨h₁, L₁, hrun, R₁, e₁, hL⟩ := R'.remove hf
      rw [List.append_assoc, List.singleton_append] at R₁
      have s₁n : h₁.size n.addr = n.size := (R₁.inMem { n with live := true } (by simp)).size
      have s₁b : h₁.size b.addr = b.size := (R₁.inMem b (by simp)).size
      have hsum := joined_size s₁b s₁n (by unfold Blk.stop at *; omega)
      obtain ⟨h₃, eh₃⟩ : ∃ h₃, h₃ = ((h₁.setSize b.addr m.size).setHeader
          (getFoot (h₁.setSize b.addr m.size) n.addr) 0).setSize n.addr 0 := ⟨_, rfl⟩
      obtain ⟨h₄, eh₄⟩ : ∃ h₄, h₄ = h₃.setHeader (getFoot h₃ b.addr) b.addr := ⟨_, rfl⟩
      obtain ⟨hin, e₂₄, hbins⟩ := joinedNext_spec s₁b s₁n hadj (by omega) hm eh₃ eh₄
      have hmstop : m.stop = n.stop := by unfold Blk.stop at *; omega
      have hwin : ∀ x, b.Inside x ∨ n.Inside x → Room pre b (n :: post) x := by
        rintro x (hx | hx)
        · exact .inr hx
        · exact .inl ⟨n, by simp, hf, hx⟩
      have R₄ : Rep h₄ (pre ++ m :: post) L₁ :=
        R₁.merge hb rfl hm e₂₄ hbins (fun x hx => hx) hin
      refine ⟨h₄, L₁, ?_, ma, by rw [hm], R₄,
        (e₁.mono fun x hx => R.links_room hb hx).trans (e₂₄.mono hwin), fun c hc => ?_, ?_,
        by simp [binsNext, hf, hL]⟩
      · have hhole : h.hole n.addr ≠ 0 := fun e => by rw [hn.mp e] at hf; cases hf
        rw [mergeNext, if_pos hhole, (R.inMem n (by simp)).size, hrun]
        simp only [bind, Except.bind, pure, Except.pure, hsum, ← ms]
        rw [← eh₃, ← eh₄]
      · rw [← hh c (by simp at hc ⊢; tauto), joined_holes R e₁ e₂₄ R₄ ⟨ma, hmstop⟩ hadj c hc]
      · rintro x (hx | hx)
        · left
          rw [freeIn_append] at hx ⊢
          rw [freeIn_cons]
          tauto
        · refine hwin x ?_
          have hx : m.Inside x := hx
          unfold Blk.Inside Blk.stop Bytes at *
          omega

/-- The end of `kheap_free`: the block is marked free and put into its bin. -/
lemma settle_spec (R : Rep h (pre ++ b :: post) L) (hb : b.live = true)
    (hh : Holes h (pre ++ post)) :
    ∃ h' L', addBlockSorted (h.setHole b.addr 1) (getBinIndex ((h.setHole b.addr 1).size b.addr))
        b.addr = .ok h' ∧
      Rep h' (pre ++ { b with live := false } :: post) L' ∧ Edit (Room pre b post) h h' ∧
      Holes h' (pre ++ { b with live := false } :: post) ∧
      L' = putIn (sizeIn (pre ++ b :: post)) (getBinIndex b.size) b.addr L := by
  have hbm : b ∈ pre ++ b :: post := by simp
  have hbb := R.bounds hbm
  have hlt := b.addr_lt_stop
  have e₁ : Edit (Bytes b.addr (b.addr + 1)) h (h.setHole b.addr 1) := .setHole (by omega)
  have hole₁ : (h.setHole b.addr 1).hole b.addr = 1 := hole_setHole (by omega)
  have R₁ : Rep (h.setHole b.addr 1) (pre ++ b :: post) L := R.setHole hbm
  rw [(R₁.inMem b hbm).size]
  obtain ⟨h₂, L₂, hrun, R₂, e₂, hL⟩ := R₁.add hb
  have hside : ∀ {c : Blk}, c ∈ pre ++ post → h₂.hole c.addr = h.hole c.addr := by
    intro c hc
    have hc' : c ∈ pre ++ b :: post := by simp at hc ⊢; tauto
    have hbc := R.bounds hc'
    have := c.addr_lt_stop
    have har := R.around hc
    rw [e₂.hole (by omega), e₁.hole (by omega)]
    · unfold Bytes; omega
    · rintro (hx | hx)
      · unfold Blk.stop Bytes at *; omega
      · exact R₁.addr_not_links hc' hx
  have hw₁ : ∀ x, Bytes b.addr (b.addr + 1) x → Room pre b post x := by
    intro x hx
    right
    unfold Blk.Inside Bytes at *
    omega
  have hw₂ : ∀ x, Bytes (b.addr + 8) (b.addr + 16) x ∨ Links L x → Room pre b post x := by
    rintro x (hx | hx)
    · right
      unfold Blk.Inside Blk.stop Bytes at *
      omega
    · exact R₁.links_room hb hx
  refine ⟨h₂, L₂, hrun, R₂, (e₁.mono hw₁).trans (e₂.mono hw₂), fun c hc => ?_, hL⟩
  · by_cases hcb : c = { b with live := false }
    · have : h₂.hole b.addr = 1 := by
        rw [e₂.hole (by omega), hole₁]
        rintro (hx | hx)
        · unfold Bytes at hx; omega
        · exact R₁.addr_not_links hbm hx
      rw [hcb]
      simp [this]
    · have hc' : c ∈ pre ++ post := by simp at hc ⊢; tauto
      rw [hside hc']
      exact hh c hc'

/-- `kheap_free` on a live block returns, and acts on the blocks as `release`, provided the byte behind
the heap reads as no hole where it is looked at. -/
theorem kheapFree_spec (R : Rep h (pre ++ b :: post) L) (hb : b.live = true)
    (hh : Holes h (pre ++ b :: post)) (hend : pre = [] ∨ post ≠ [] ∨ h.mem kheapEnd = 0) :
    ∃ h', kheapFree h (b.addr + offset) = .ok h' ∧
      Rep h' (release pre b post) (releaseBins pre b post L) ∧ Holes h' (release pre b post) ∧
      Edit (Room pre b post) h h' := by
  have hbb := R.bounds (b := b) (by simp)
  have hlt := b.addr_lt_stop
  have hh' : Holes h (pre ++ post) := fun c hc => hh c (by simp at hc ⊢; tauto)
  have haddr : sub32 (b.addr + offset) offset = b.addr := by unfold sub32 offset; omega
  rw [kheapFree]
  simp only [haddr]
  by_cases hpre : pre = []
  · obtain ⟨h', L', hrun, R', e, hh'', rfl⟩ := settle_spec R hb hh'
    rw [if_pos (R.start_iff.mpr hpre), release, if_pos hpre, releaseBins, if_pos hpre]
    subst hpre
    exact ⟨h', hrun, R', hh'', e⟩
  · rw [if_neg (mt R.start_iff.mp hpre), release, if_neg hpre, releaseBins, if_neg hpre, next_addr R]
    obtain ⟨h₁, L₁, hrun₁, hl₁, hs₁, R₁, e₁, hh₁, hw₁, rfl⟩ := mergePrev_spec R hb hpre hh'
    rw [← hs₁, hrun₁]
    have hend₁ : post = [] → h₁.mem kheapEnd = 0 := fun hpost => by
      rw [e₁.mem _ R.end_not_room]
      exact (hend.resolve_left hpre).resolve_left (not_not.mpr hpost)
    obtain ⟨h₂, L₂, hrun₂, ha₂, hl₂, R₂, e₂, hh₂, hw₂, rfl⟩ := mergeNext_spec R₁ hl₁ hh₁ hend₁
    obtain ⟨h₃, L₃, hrun₃, R₃, e₃, hh₃, rfl⟩ := settle_spec R₂ hl₂ hh₂
    refine ⟨h₃, ?_, R₃, hh₃, (e₁.trans (e₂.mono hw₁)).trans (e₃.mono fun x hx => ?_)⟩
    · simp only [bind, Except.bind, hrun₂]
      rw [ha₂] at hrun₃
      exact hrun₃
    · exact hw₁ x (hw₂ x hx)

end

end ToeS.Kheap
