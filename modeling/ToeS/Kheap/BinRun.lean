import ToeS.Kheap.Bins
import ToeS.Lib.Run

/-!
# Runs of calls on one bin

What any sequence of `add_block_sorted` and `remove_block` (`kern/mm/kheap.c`) makes of a bin that is
empty at first. The blocks of the bin are kept beside the heap in the order of insertion. Between two
calls bytes may be stored anywhere but in the size and the links of a block of the bin.

Whatever the calls, the bin is a stable sorted list (`StableSorted`), because removal never reads the
`prev` field of the first block. That this field is right too (`Linked`) is another matter: taking out
the first block leaves its successor pointing back at it, and a run keeps `Linked` exactly when it
never takes out a first block that has a successor (`KeepsHead`).
-/

namespace ToeS.Kheap
open Lib

/-- A heap and the blocks that one bin holds, in the order of insertion. -/
structure BinState where
  heap : Heap
  blocks : List Nat

/-- A call on the bin, or a byte store by somebody else. -/
inductive BinCall where
  | add (blck : Nat)
  | remove (blck : Nat)
  | store (a : Nat) (v : UInt8)

/-- Make a call on bin `i`. -/
def binStep (i : Fin binCnt) (s : BinState) : BinCall → Except Fault BinState
  | .add blck => do
    let h ← addBlockSorted s.heap i blck
    return ⟨h, s.blocks ++ [blck]⟩
  | .remove blck => do
    let h ← removeBlock s.heap i blck
    return ⟨h, s.blocks.erase blck⟩
  | .store a v => .ok { s with heap := { s.heap with mem := writeByte s.heap.mem a v } }

/-- A block to be added is in memory and overlaps no header of the bin, a block to be removed is in
the bin, and stores spare the sizes and the links of its blocks. -/
def BinLegal (s : BinState) : BinCall → Prop
  | .add blck => blck ≠ 0 ∧ blck + 16 ≤ 4294967296 ∧
      ∀ b ∈ s.blocks, blck + 16 ≤ b ∨ b + 16 ≤ blck
  | .remove blck => blck ∈ s.blocks
  | .store a _ => a < 4294967296 ∧ ∀ b ∈ s.blocks, ¬ Bytes (b + 4) (b + 16) a

/-- `x` belongs before `y`: it is smaller, or as large and was inserted earlier. -/
def Before (s : BinState) (x y : Nat) : Prop :=
  s.heap.size x < s.heap.size y ∨ s.heap.size x = s.heap.size y ∧ [x, y].Sublist s.blocks

/-- Whatever the first block of bin `i` has in its `prev` field, `remove_block` does the same to all
of the rest of the heap. -/
def PrevUnread (h : Heap) (i : Fin binCnt) (blck : Nat) : Prop :=
  ∀ v < 4294967296, ∃ h₁ h₂, removeBlock h i blck = .ok h₁ ∧
    removeBlock (h.setPrev (h.bins i) v) i blck = .ok h₂ ∧ h₂.bins = h₁.bins ∧
    SameOff (Bytes (h.bins i + 12) (h.bins i + 16)) h₁.mem h₂.mem

/-- Following `next` from the head visits the blocks of the bin, each once, in the order of their
sizes and insertions; removal relies on `prev` fields that are up to date only. -/
def StableSorted (i : Fin binCnt) (s : BinState) : Prop :=
  ∃ l, Chain 0 s.heap.next (s.heap.bins i) l ∧ l.Perm s.blocks ∧ l.Nodup ∧ l.Pairwise (Before s) ∧
    Back s.heap.prev l ∧ ∀ b ∈ s.blocks, PrevUnread s.heap i b

/-- The head has no predecessor, every block is the predecessor of its successor, and no link leads
out of the bin. -/
structure Linked (i : Fin binCnt) (s : BinState) : Prop where
  head : s.heap.bins i ≠ 0 → s.heap.prev (s.heap.bins i) = 0
  back : ∀ b ∈ s.blocks, s.heap.next b ≠ 0 → s.heap.prev (s.heap.next b) = b
  next_mem : ∀ b ∈ s.blocks, s.heap.next b ≠ 0 → s.heap.next b ∈ s.blocks
  prev_mem : ∀ b ∈ s.blocks, s.heap.prev b ≠ 0 → s.heap.prev b ∈ s.blocks

/-- A call does not take out a first block that has a successor. -/
def KeepsHead (i : Fin binCnt) (s : BinState) : BinCall → Prop
  | .remove blck => blck = s.heap.bins i → s.heap.next blck = 0
  | _ => True

/-- What holds between two calls: the bin holds the blocks `l`, in this order. -/
structure Holds (i : Fin binCnt) (s : BinState) (l : List Nat) : Prop where
  bin : IsBin s.heap i l
  spread : Spread l
  perm : l.Perm s.blocks
  sorted : l.Pairwise (Before s)

/-! ## Removal and the first block -/

section
variable {h h' g : Heap} {i : Fin binCnt} {a b blck v : Nat} {l pre post : List Nat}
  {W : Nat → Prop}

/-- Clearing the links of a block in two heaps keeps their difference. -/
lemma sameOff_clearLinks (hm : SameOff W h.mem g.mem) :
    SameOff W (clearLinks h blck).mem (clearLinks g blck).mem :=
  hm.both_writeWord.both_writeWord

/-- A bin does not depend on the `prev` field of its first block. -/
lemma IsBin.setPrev_head (hb : IsBin h i (a :: l)) (hs : Spread (a :: l)) (hv : v < 4294967296) :
    IsBin (h.setPrev a v) i (a :: l) := by
  have ha : a ∈ a :: l := List.mem_cons_self
  refine ⟨hb.chain.congr fun x hx => hs.next_setPrev ha hx, hb.back.congr fun x hx => ?_⟩
  have hne : x ≠ a := fun e => (List.nodup_cons.mp hb.chain.nodup).1 (e ▸ hx)
  rw [hs.prev_setPrev ha (List.mem_cons_of_mem a hx) hv, if_neg hne]

/-- `remove_block` does not read the `prev` field of the first block. -/
lemma IsBin.prevUnread (hb : IsBin h i l) (hs : Spread l) (hm : blck ∈ l) :
    PrevUnread h i blck := by
  intro v hv
  obtain ⟨pre, post, rfl⟩ := List.append_of_mem hm
  obtain ⟨a, r, hl⟩ := List.exists_cons_of_ne_nil (List.ne_nil_of_mem hm)
  have hhead : h.bins i = a := by
    rw [hl] at hb
    exact hb.chain.1
  have ha : a ∈ pre ++ blck :: post := by rw [hl]; exact List.mem_cons_self
  have hg : IsBin (h.setPrev a v) i (pre ++ blck :: post) := by
    rw [hl] at hb hs ⊢
    exact hb.setPrev_head hs hv
  have hoff : SameOff (Bytes (a + 12) (a + 16)) h.mem (h.setPrev a v).mem :=
    SameOff.writeWord (by have := hs.fits a ha; omega)
  rw [hhead]
  rcases List.eq_nil_or_concat pre with rfl | ⟨pre, p, rfl⟩
  · exact ⟨_, _, removeBlock_first hb, removeBlock_first hg, rfl, sameOff_clearLinks hoff⟩
  · simp only [List.concat_eq_append, List.append_assoc, List.singleton_append] at hb hs hg
    refine ⟨_, _, removeBlock_behind hb hs, removeBlock_behind hg hs, ?_⟩
    rw [unlink_eq hb hs, unlink_eq hg hs]
    split_ifs with hpost
    · exact ⟨rfl, sameOff_clearLinks hoff.both_writeWord⟩
    · exact ⟨rfl, sameOff_clearLinks hoff.both_writeWord.both_writeWord⟩

/-- The first block has no predecessor. -/
def HeadClear (h : Heap) (i : Fin binCnt) : Prop := h.bins i ≠ 0 → h.prev (h.bins i) = 0

/-- The link back is `NULL` then. -/
lemma prev_clearLinks (hs : Spread (blck :: l)) : (clearLinks h blck).prev blck = 0 := by
  have hself : blck ∈ blck :: l := List.mem_cons_self
  rw [clearLinks, hs.prev_setPrev hself hself (by decide), if_pos rfl]

/-- Linking a block in behind another one leaves the head, and every `prev` field but that of the
block and of the one behind it. -/
lemma linkBetween_behind {S : List Nat} {p t : Nat} (hs : Spread S) (mb : blck ∈ S) (mp : p ∈ S)
    (mt : t ≠ 0 → t ∈ S) (hp : p ≠ 0) :
    (linkBetween h i blck p t).bins = h.bins ∧
      ∀ a ∈ S, a ≠ blck → a ≠ t → (linkBetween h i blck p t).prev a = h.prev a := by
  by_cases ht : t = 0
  · simp only [linkBetween, if_pos ht]
    refine ⟨rfl, fun a ha hab _ => ?_⟩
    rw [hs.prev_setPrev mb ha (hs.lt mp), if_neg hab, hs.prev_setNext mp ha]
  · simp only [linkBetween, if_neg ht, ne_eq, hp, not_false_eq_true, if_true]
    refine ⟨rfl, fun a ha hab hat => ?_⟩
    rw [hs.prev_setPrev (mt ht) ha (hs.lt mb), if_neg hat, hs.prev_setPrev mb ha (hs.lt mp),
      if_neg hab, hs.prev_setNext mp ha, hs.prev_setNext mb ha]

/-- Linking a block in at the front makes it the head, without a predecessor. -/
lemma linkBetween_front (hhead : h.bins i = a) (ha : a ≠ 0) (hs : Spread (blck :: a :: l))
    (hab : a ≠ blck) (hprev : h.prev blck = 0) :
    HeadClear (linkBetween h i blck 0 a) i := by
  have mb : blck ∈ blck :: a :: l := by simp
  have ma : a ∈ blck :: a :: l := by simp
  have e : linkBetween h i blck 0 a = ((h.setNext blck a).setPrev a blck).setHead i blck := by
    rw [linkBetween, if_neg ha, if_neg (by simp), ← hhead]
    rfl
  rw [e]
  intro _
  rw [bins_setHead_self, prev_setHead, hs.prev_setPrev ma mb (hs.lt mb), if_neg hab.symm,
    hs.prev_setNext mb mb, hprev]

/-- Adding a block leaves a head that has no predecessor. -/
lemma HeadClear.addBlockSorted (hc : HeadClear h i) (hb : IsBin h i l) (hs : Spread (blck :: l))
    (hm : blck ∉ l) (hr : addBlockSorted h i blck = .ok h') : HeadClear h' i := by
  obtain ⟨-, -, -, hprev⟩ := clearLinks_spec (h := h) hs hm
  have hself : (clearLinks h blck).prev blck = 0 := prev_clearLinks hs
  obtain ⟨pre, post, rfl, -, -, heq⟩ := addBlockSorted_eq hb hs hm
  obtain rfl := Except.ok.inj (hr.symm.trans heq)
  split_ifs with hl
  · intro _
    rw [bins_setHead_self]
    exact hself
  · cases pre with
    | nil =>
      -- the block becomes the first one
      obtain ⟨a, post, rfl⟩ := List.exists_cons_of_ne_nil (l := post) hl
      have hab : a ≠ blck := fun e => hm (by simp [e])
      exact linkBetween_front hb.chain.1 hb.chain.2.1 hs hab hself
    | cons a pre =>
      -- the first block stays, and is not the one behind the new block
      have hhead : h.bins i = a := hb.chain.1
      have ha : a ∈ a :: pre ++ post := by simp
      obtain ⟨p, hp, mp⟩ : ∃ p, (a :: pre).getLastD 0 = p ∧ p ∈ a :: pre ++ post := by
        refine ⟨_, List.getLastD_cons .., ?_⟩
        rcases List.eq_nil_or_concat pre with rfl | ⟨pre, q, rfl⟩ <;> simp
      have hhd : a ≠ post.headD 0 := by
        cases post with
        | nil => exact hb.chain.ne_null ha
        | cons t post => exact fun e => (List.nodup_cons.mp hb.chain.nodup).1 (by simp [e])
      have mt : post.headD 0 ≠ 0 → post.headD 0 ∈ blck :: (a :: pre ++ post) := by
        cases post <;> simp
      obtain ⟨hbins, hkeep⟩ := linkBetween_behind (h := clearLinks h blck) (i := i) hs
        List.mem_cons_self (List.mem_cons_of_mem blck mp) mt (hb.chain.ne_null mp)
      rw [hp, HeadClear, hbins]
      show h.bins i ≠ 0 → _
      intro hne
      rw [show (clearLinks h blck).bins i = a from hhead,
        hkeep a (List.mem_cons_of_mem blck ha) (fun e => hm (e ▸ ha)) hhd, hprev a ha, ← hhead]
      exact hc hne

/-- Taking a block out from behind another one leaves the head, and every `prev` field but that of
the block behind it. -/
lemma unlink_keeps {p : Nat} (hb : IsBin h i (pre ++ p :: blck :: post))
    (hs : Spread (pre ++ p :: blck :: post)) :
    (unlink h blck).bins = h.bins ∧
      ∀ a ∈ pre ++ p :: blck :: post, a ∉ post → (unlink h blck).prev a = h.prev a := by
  have mp : p ∈ pre ++ p :: blck :: post := by simp
  refine ⟨(unlink_spec hb hs).2.1, fun a ha hpost => ?_⟩
  rw [unlink_eq hb hs]
  cases post with
  | nil => rw [if_pos rfl, hs.prev_setNext mp ha]
  | cons t post =>
    have mt : t ∈ pre ++ p :: blck :: t :: post := by simp
    have hat : a ≠ t := fun e => hpost (by simp [e])
    rw [if_neg (List.cons_ne_nil t post), List.headD_cons, hs.prev_setPrev mt ha (hs.lt mp),
      if_neg hat, hs.prev_setNext mp ha]

/-- Taking out a block leaves a head that has no predecessor, unless it was the first one and has a
successor. -/
lemma HeadClear.removeBlock (hc : HeadClear h i) (hb : IsBin h i l) (hs : Spread l)
    (hm : blck ∈ l) (hr : removeBlock h i blck = .ok h') :
    HeadClear h' i ↔ (blck = h.bins i → h.next blck = 0) := by
  obtain ⟨pre, post, rfl⟩ := List.append_of_mem hm
  rcases List.eq_nil_or_concat pre with rfl | ⟨pre, p, rfl⟩
  · have hhead : h.bins i = blck := hb.chain.1
    have hnext : h.next blck = post.headD 0 := Chain.head_eq hb.chain.2.2
    obtain rfl := Except.ok.inj (hr.symm.trans (removeBlock_first hb))
    have hbins : (clearLinks (h.setHead i (post.headD 0)) blck).bins i = post.headD 0 :=
      bins_setHead_self
    rw [HeadClear, hbins, hnext]
    cases post with
    | nil => simp
    | cons t post =>
      have hbt : blck ∉ t :: post := (List.nodup_cons.mp hb.chain.nodup).1
      obtain ⟨-, -, -, hprev⟩ := clearLinks_spec (h := h.setHead i t) hs hbt
      have ht : (clearLinks (h.setHead i t) blck).prev t = blck := by
        rw [hprev t List.mem_cons_self]
        exact hb.back.1
      have ht0 : t ≠ 0 := hb.chain.ne_null (by simp)
      have hb0 : blck ≠ 0 := hb.chain.2.1
      simp [ht, ht0, hb0, hhead]
  · -- the first block stays, and is not the one that is pointed back from behind the gap
    simp only [List.concat_eq_append, List.append_assoc, List.singleton_append] at hb hs
    obtain ⟨a, r, hl, hr₁, hr₂⟩ : ∃ a r, pre ++ p :: blck :: post = a :: r ∧
        blck ∈ r ∧ ∀ x ∈ post, x ∈ r := by
      cases pre with
      | nil => exact ⟨p, blck :: post, rfl, by simp, fun x hx => by simp [hx]⟩
      | cons a pre => exact ⟨a, pre ++ p :: blck :: post, rfl, by simp, fun x hx => by simp [hx]⟩
    have hnd : a ∉ r := by
      have := hb.chain.nodup
      rw [hl] at this
      exact (List.nodup_cons.mp this).1
    have hhead : h.bins i = a := by
      have := hb.chain
      rw [hl] at this
      exact this.1
    have ma : a ∈ pre ++ p :: blck :: post := by rw [hl]; exact List.mem_cons_self
    have mb : blck ∈ pre ++ p :: blck :: post := by simp
    have hab : a ≠ blck := fun e => hnd (e ▸ hr₁)
    obtain rfl := Except.ok.inj (hr.symm.trans (removeBlock_behind hb hs))
    obtain ⟨hkept, hprev⟩ := unlink_keeps hb hs
    have hclr : (clearLinks (unlink h blck) blck).prev a = h.prev a := by
      rw [clearLinks, hs.prev_setPrev mb ma (by decide), if_neg hab, hs.prev_setNext mb ma,
        hprev a ma fun hx => hnd (hr₂ a hx)]
    have hbins : (clearLinks (unlink h blck) blck).bins i = a := by
      rw [clearLinks, bins_setPrev, bins_setNext, hkept, hhead]
    rw [HeadClear, hbins, hclr, hhead]
    refine ⟨fun _ e => absurd e.symm hab, fun _ ha => ?_⟩
    rw [← hhead] at ha ⊢
    exact hc ha

end

/-! ## Steps -/

section
variable {h : Heap} {i : Fin binCnt} {s s' : BinState} {l : List Nat} {blck a x y : Nat} {v : UInt8}

/-- The order of two blocks whose sizes stay is kept when the bin keeps the order of insertion. -/
lemma Before.keep (hb : Before s x y) (hx : s'.heap.size x = s.heap.size x)
    (hy : s'.heap.size y = s.heap.size y)
    (hsub : [x, y].Sublist s.blocks → [x, y].Sublist s'.blocks) : Before s' x y := by
  rcases hb with hlt | ⟨heq, hs⟩
  · exact .inl (by rwa [hx, hy])
  · exact .inr ⟨by rwa [hx, hy], hsub hs⟩

/-- A block that stands before another is not larger. -/
lemma Before.size_le (hb : Before s x y) : s.heap.size x ≤ s.heap.size y := by
  rcases hb with hlt | ⟨heq, -⟩
  · exact hlt.le
  · exact heq.le

/-- A sorted list stays sorted with a block put in between the blocks that are at most as large and
the larger ones, if that block is inserted last. -/
lemma pairwise_insert {pre post : List Nat} (hs : (pre ++ post).Pairwise (Before s))
    (hmem : ∀ x ∈ pre, x ∈ s.blocks) (hpre : ∀ x ∈ pre, s.heap.size x ≤ s.heap.size blck)
    (hpost : ∀ x ∈ post.head?, s.heap.size blck < s.heap.size x)
    (hsize : ∀ x ∈ blck :: (pre ++ post), s'.heap.size x = s.heap.size x)
    (hblocks : s'.blocks = s.blocks ++ [blck]) : (pre ++ blck :: post).Pairwise (Before s') := by
  have hkeep : (pre ++ post).Pairwise (Before s') := by
    refine hs.imp_of_mem fun hx hy hb => hb.keep (hsize _ (by simp [hx])) (hsize _ (by simp [hy])) ?_
    rw [hblocks]
    exact fun h => h.trans (List.sublist_append_left ..)
  obtain ⟨h₁, h₂, h₃⟩ := List.pairwise_append.mp hkeep
  have hself : s'.heap.size blck = s.heap.size blck := hsize blck List.mem_cons_self
  refine List.pairwise_append.mpr
    ⟨h₁, List.pairwise_cons.mpr ⟨fun y hy => .inl ?_, h₂⟩, fun x hx y hy => ?_⟩
  · -- everything behind the block is larger
    have hy' : s'.heap.size y = s.heap.size y := hsize y (by simp [hy])
    cases post with
    | nil => cases hy
    | cons t post =>
      have ht := hpost t rfl
      rw [hself, hy']
      rcases List.mem_cons.mp hy with rfl | hy
      · exact ht
      · have hty := List.rel_of_pairwise_cons (List.pairwise_append.mp hs).2.1 hy
        exact lt_of_lt_of_le ht hty.size_le
  · rcases List.mem_cons.mp hy with rfl | hy
    · have hx' : s'.heap.size x = s.heap.size x := hsize x (by simp [hx])
      rcases (hpre x hx).lt_or_eq with hlt | heq
      · exact .inl (by rwa [hx', hself])
      · refine .inr ⟨by rwa [hx', hself], ?_⟩
        rw [hblocks]
        exact (List.singleton_sublist.mpr (hmem x hx)).append (.refl [y])
    · exact h₃ x hx y hy

/-- The blocks of a bin are in memory. -/
lemma Holds.fits (hi : Holds i s l) : ∀ b ∈ l, b + 16 ≤ 4294967296 := hi.spread.fits

/-- `add_block_sorted` of a block that is in no bin. -/
lemma Holds.add (hi : Holds i s l) (hl : BinLegal s (.add blck)) :
    ∃ s' l', binStep i s (.add blck) = .ok s' ∧ Holds i s' l' ∧
      (HeadClear s.heap i → HeadClear s'.heap i) := by
  obtain ⟨h0, hfit, happ⟩ := hl
  have happ' : ∀ b ∈ l, blck + 16 ≤ b ∨ b + 16 ≤ blck := fun b hb => happ b (hi.perm.mem_iff.mp hb)
  have hm : blck ∉ l := fun h => by have := happ' blck h; omega
  have hs : Spread (blck :: l) := by
    refine ⟨List.forall_mem_cons.mpr ⟨hfit, hi.spread.fits⟩, List.forall_mem_cons.mpr
      ⟨List.forall_mem_cons.mpr ⟨.inl rfl, fun b hb => .inr (happ' b hb)⟩, fun b hb =>
        List.forall_mem_cons.mpr ⟨.inr (happ' b hb).symm, hi.spread.apart b hb⟩⟩⟩
  obtain ⟨h', pre, post, hr, rfl, hpre, hpost, hbin, -, e⟩ := addBlockSorted_spec hi.bin hs hm h0
  refine ⟨⟨h', s.blocks ++ [blck]⟩, pre ++ blck :: post, ?_, ⟨hbin, ?_, ?_, ?_⟩, fun hc => ?_⟩
  · rw [binStep, hr]
    rfl
  · exact hs.mono fun x hx => by simp at hx ⊢; tauto
  · exact List.perm_middle.trans ((hi.perm.cons blck).trans (List.perm_append_singleton ..).symm)
  · exact pairwise_insert hi.sorted (fun x hx => hi.perm.mem_iff.mp (by simp [hx])) hpre hpost
      (fun x hx => e.size_linkOf hs hx) rfl
  · exact hc.addBlockSorted hi.bin hs hm hr

/-- `remove_block` of a block of the bin. -/
lemma Holds.remove (hi : Holds i s l) (hl : BinLegal s (.remove blck)) :
    ∃ s' l', binStep i s (.remove blck) = .ok s' ∧ Holds i s' l' ∧
      (HeadClear s.heap i → (HeadClear s'.heap i ↔ KeepsHead i s (.remove blck))) := by
  have hm : blck ∈ l := hi.perm.mem_iff.mpr hl
  obtain ⟨h', hr, hbin, -, e⟩ := removeBlock_spec hi.bin hi.spread hm
  refine ⟨⟨h', s.blocks.erase blck⟩, l.erase blck, ?_, ⟨hbin, ?_, hi.perm.erase blck, ?_⟩,
    fun hc => hc.removeBlock hi.bin hi.spread hm hr⟩
  · rw [binStep, hr]
    rfl
  · exact hi.spread.mono List.erase_subset
  · have hnd := hi.bin.chain.nodup
    refine (hi.sorted.sublist List.erase_sublist).imp_of_mem fun {x y} hx hy hb => ?_
    obtain ⟨hxb, hx⟩ := (hnd.mem_erase_iff).mp hx
    obtain ⟨hyb, hy⟩ := (hnd.mem_erase_iff).mp hy
    refine hb.keep (e.size_linkOf hi.spread hx) (e.size_linkOf hi.spread hy) fun hsub => ?_
    have hne : blck ∉ [x, y] := by simp [hxb.symm, hyb.symm]
    have := hsub.erase blck
    rwa [List.erase_of_not_mem hne] at this

/-- A byte store off the sizes and the links of the bin. -/
lemma Holds.store (hi : Holds i s l) (hl : BinLegal s (.store a v)) :
    ∃ s', binStep i s (.store a v) = .ok s' ∧ Holds i s' l ∧
      (HeadClear s.heap i → HeadClear s'.heap i) := by
  obtain ⟨ha, hoff⟩ := hl
  have hoff' : ∀ b ∈ l, ¬ Bytes (b + 4) (b + 16) a := fun b hb => hoff b (hi.perm.mem_iff.mp hb)
  have e : Edit (Bytes a (a + 1)) s.heap { s.heap with mem := writeByte s.heap.mem a v } :=
    ⟨SameOff.writeByte ha, rfl, rfl⟩
  have hlink : ∀ b ∈ l, ∀ x, Bytes (b + 8) (b + 16) x → ¬ Bytes a (a + 1) x := by
    intro b hb x hx hxa
    have := hoff' b hb
    unfold Bytes at *
    omega
  have hsize : ∀ b ∈ l, (Heap.mk (writeByte s.heap.mem a v) s.heap.start s.heap.end_
      s.heap.bins).size b = s.heap.size b := by
    intro b hb
    refine e.size (by have := hi.fits b hb; omega) fun x hx hxa => ?_
    have := hoff' b hb
    unfold Bytes at *
    omega
  refine ⟨_, rfl, ⟨hi.bin.edit e rfl hi.fits hlink, hi.spread, hi.perm, ?_⟩, fun hc hne => ?_⟩
  · exact hi.sorted.imp_of_mem fun hx hy hb => hb.keep (hsize _ hx) (hsize _ hy) id
  · have hmem : s.heap.bins i ∈ l := by
      cases l with
      | nil => exact absurd hi.bin.chain hne
      | cons b l =>
        rw [hi.bin.chain.1]
        exact List.mem_cons_self
    rw [← hc hne]
    exact e.prev (hi.fits _ hmem) (hlink _ hmem)

/-- A bin in order is sorted, and stable. -/
lemma Holds.stableSorted (hi : Holds i s l) : StableSorted i s :=
  ⟨l, hi.bin.chain, hi.perm, hi.bin.chain.nodup, hi.sorted, hi.bin.back,
    fun _ hb => hi.bin.prevUnread hi.spread (hi.perm.mem_iff.mpr hb)⟩

/-- All links of a bin are right when the one back from its first block is. -/
lemma Holds.linked_iff (hi : Holds i s l) : Linked i s ↔ HeadClear s.heap i := by
  refine ⟨fun hl => hl.head, fun hc => ⟨hc, fun b hb hn => ?_, fun b hb hn => ?_, fun b hb hp => ?_⟩⟩
  all_goals
    obtain ⟨pre, post, rfl⟩ := List.append_of_mem (hi.perm.mem_iff.mpr hb)
    have hnext : s.heap.next b = post.headD 0 := hi.bin.chain.next_eq
  · obtain ⟨t, post, rfl⟩ := List.exists_cons_of_ne_nil (l := post) (by rintro rfl; exact hn hnext)
    rw [hnext]
    exact hi.bin.back.prev_eq
  · obtain ⟨t, post, rfl⟩ := List.exists_cons_of_ne_nil (l := post) (by rintro rfl; exact hn hnext)
    rw [hnext]
    exact hi.perm.mem_iff.mp (by simp)
  · rcases List.eq_nil_or_concat pre with rfl | ⟨pre, p, rfl⟩
    · have hhead : s.heap.bins i = b := hi.bin.chain.1
      rw [HeadClear, hhead] at hc
      exact absurd (hc hi.bin.chain.2.1) hp
    · have hback := hi.bin.back
      simp only [List.concat_eq_append, List.append_assoc, List.singleton_append] at hback
      rw [hback.prev_eq]
      exact hi.perm.mem_iff.mp (by simp)

/-- An empty bin is in order. -/
lemma Holds.empty (h0 : h.bins i = 0) : Holds i ⟨h, []⟩ [] :=
  ⟨⟨h0, trivial⟩, ⟨by simp, by simp⟩, .refl _, .nil⟩

/-- Every legal call returns, the bin still holds a sorted list, and a head without predecessor stays
one under the calls of `KeepsHead`. -/
lemma Holds.step {c : BinCall} (hi : Holds i s l) (hl : BinLegal s c) :
    ∃ s' l', binStep i s c = .ok s' ∧ Holds i s' l' ∧
      (HeadClear s.heap i → (HeadClear s'.heap i ↔ KeepsHead i s c)) := by
  cases c with
  | add blck =>
    obtain ⟨s', l', hr, hi', hc⟩ := hi.add hl
    exact ⟨s', l', hr, hi', fun h => iff_of_true (hc h) trivial⟩
  | remove blck => exact hi.remove hl
  | store a v =>
    obtain ⟨s', hr, hi', hc⟩ := hi.store hl
    exact ⟨s', l, hr, hi', fun h => iff_of_true (hc h) trivial⟩

/-- A run from a state whose bin is a sorted list with all links right keeps them right exactly when
it takes out no first block that has a successor. -/
lemma Holds.always_linked_iff {calls : List BinCall} (hi : Holds i s l) (hc : HeadClear s.heap i)
    (hl : LegalRun (binStep i) BinLegal s calls) :
    Always (binStep i) (Linked i) s calls ↔ LegalRun (binStep i) (KeepsHead i) s calls := by
  refine always_iff (I := fun s => ∃ l, Holds i s l) ?_ ⟨l, hi⟩ (hi.linked_iff.mpr hc) hl
  rintro s c ⟨l, hi⟩ hl hP
  obtain ⟨s', l', hr, hi', hc⟩ := hi.step hl
  exact ⟨s', hr, ⟨l', hi'⟩, hi'.linked_iff.trans (hc (hi.linked_iff.mp hP))⟩

end

/-! ## Runs -/

/-- Zeroed memory and empty bins. -/
def zeroHeap : Heap := ⟨fun _ => 0, kheapStart, kheapEnd, fun _ => 0⟩

/-- The first bin. -/
def bin0 : Fin binCnt := ⟨0, by decide⟩

/-- The state after two blocks of the same size: the first one in is the head. -/
lemma twoBlocks_eq {s : BinState}
    (hr : exec (binStep bin0) ⟨zeroHeap, []⟩ [.add 0xD0000000, .add 0xD0001000] = .ok s) :
    s.blocks = [0xD0000000, 0xD0001000] ∧ s.heap.bins bin0 = 0xD0000000 ∧
      s.heap.next 0xD0000000 = 0xD0001000 := by
  have hrun : (exec (binStep bin0) ⟨zeroHeap, []⟩ [.add 0xD0000000, .add 0xD0001000]).map
      (fun s => (s.blocks, s.heap.bins bin0, s.heap.next 0xD0000000)) =
        .ok ([0xD0000000, 0xD0001000], 0xD0000000, 0xD0001000) := by rfl
  rw [hr] at hrun
  injection hrun with hrun
  simpa using hrun

/-- Two blocks go in, and one of them comes out. -/
lemma twoBlocks_legal {r : Nat} (hr : r ∈ [0xD0000000, 0xD0001000]) :
    LegalRun (binStep bin0) BinLegal ⟨zeroHeap, []⟩
      [.add 0xD0000000, .add 0xD0001000, .remove r] := by
  refine ⟨⟨by decide, by decide, by simp⟩, fun s₁ h₁ => ⟨⟨by decide, by decide, ?_⟩,
    fun s₂ h₂ => ⟨?_, fun _ _ => trivial⟩⟩⟩
  · obtain ⟨h, -, hs⟩ := bind_ok.mp h₁
    obtain rfl := Except.ok.inj hs
    simp
  · have := (twoBlocks_eq ((exec_cons h₁).trans (exec_cons h₂))).1
    rwa [← this] at hr

section
variable (h : Heap) (i : Fin binCnt) (h0 : h.bins i = 0) (calls : List BinCall)
  (hl : LegalRun (binStep i) BinLegal ⟨h, []⟩ calls)
include h0 hl

/-- A bin is a stable sorted list after any calls on an empty bin. -/
theorem bin_stableSorted : Always (binStep i) (StableSorted i) ⟨h, []⟩ calls := by
  refine always_of_inv (I := fun s => ∃ l, Holds i s l) ?_ ?_ ⟨[], .empty h0⟩ hl
  · rintro s c ⟨l, hi⟩ hl
    obtain ⟨s', l', hr, hi', -⟩ := hi.step hl
    exact ⟨s', hr, l', hi'⟩
  · rintro s ⟨l, hi⟩
    exact hi.stableSorted

/-- A bin keeps all of its links right exactly as long as no first block with a successor is taken
out. -/
theorem bin_linked_iff :
    Always (binStep i) (Linked i) ⟨h, []⟩ calls ↔ LegalRun (binStep i) (KeepsHead i) ⟨h, []⟩ calls :=
  (Holds.empty h0).always_linked_iff (fun hne => absurd h0 hne) hl

end

/-- Two blocks of the same size, and the first one comes out again. -/
theorem bin_stableSorted_twoBlocks :
    zeroHeap.bins bin0 = 0 ∧
    LegalRun (binStep bin0) BinLegal ⟨zeroHeap, []⟩
      [.add 0xD0000000, .add 0xD0001000, .remove 0xD0000000] ∧
    Always (binStep bin0) (StableSorted bin0) ⟨zeroHeap, []⟩
      [.add 0xD0000000, .add 0xD0001000, .remove 0xD0000000] :=
  ⟨rfl, twoBlocks_legal (by simp),
    bin_stableSorted zeroHeap bin0 rfl _ (twoBlocks_legal (by simp))⟩

/-- Two blocks of the same size, and the last one comes out again. -/
theorem bin_linked_iff_twoBlocks :
    zeroHeap.bins bin0 = 0 ∧
    LegalRun (binStep bin0) BinLegal ⟨zeroHeap, []⟩
      [.add 0xD0000000, .add 0xD0001000, .remove 0xD0001000] ∧
    Always (binStep bin0) (Linked bin0) ⟨zeroHeap, []⟩
      [.add 0xD0000000, .add 0xD0001000, .remove 0xD0001000] := by
  have hl := twoBlocks_legal (r := 0xD0001000) (by simp)
  refine ⟨rfl, hl, (bin_linked_iff zeroHeap bin0 rfl _ hl).mpr ⟨trivial, fun s₁ h₁ => ⟨trivial,
    fun s₂ h₂ => ⟨fun he => ?_, fun _ _ => trivial⟩⟩⟩⟩
  rw [(twoBlocks_eq ((exec_cons h₁).trans (exec_cons h₂))).2.1] at he
  simp at he

/-- When the first of two blocks comes out, the other one, now the first, still points back at it. -/
theorem bin_not_linked :
    zeroHeap.bins bin0 = 0 ∧
    LegalRun (binStep bin0) BinLegal ⟨zeroHeap, []⟩
      [.add 0xD0000000, .add 0xD0001000, .remove 0xD0000000] ∧
    ¬ Always (binStep bin0) (Linked bin0) ⟨zeroHeap, []⟩
      [.add 0xD0000000, .add 0xD0001000, .remove 0xD0000000] := by
  have hl := twoBlocks_legal (r := 0xD0000000) (by simp)
  refine ⟨rfl, hl, fun halw => ?_⟩
  have hkeep := ((Holds.empty rfl).always_linked_iff (fun hne => absurd rfl hne) hl).mp halw
  cases hr : exec (binStep bin0) ⟨zeroHeap, []⟩ [.add 0xD0000000, .add 0xD0001000] with
  | error e => cases hr
  | ok s =>
    obtain ⟨-, hhead, hnext⟩ := twoBlocks_eq hr
    have hlast : KeepsHead bin0 s (.remove 0xD0000000) :=
      LegalRun.last (l := [.add 0xD0000000, .add 0xD0001000]) hkeep hr
    have := hlast hhead.symm
    rw [hnext] at this
    simp at this

end ToeS.Kheap
