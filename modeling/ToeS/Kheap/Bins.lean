import ToeS.Kheap.Defs
import ToeS.Lib.Chain

/-!
# Bins as doubly linked lists

Specifications of `add_block_sorted`, `remove_block` and `get_first_fit` (`kern/mm/kheap.c`) on a
bin that holds a list of blocks (`IsBin`). The head of a bin may carry a stale `prev`, so `IsBin`
says nothing about it; every other node points back at its predecessor, and these are the only
`prev` fields that the operations read.

The blocks of a bin are `Spread`: their 16-byte headers do not overlap. An operation on the bin
changes memory only in the link fields of its blocks (`LinkOf`).
-/

namespace ToeS.Kheap
open Lib

/-- Two headers coincide or do not overlap. -/
def Apart (b c : Nat) : Prop := b = c ∨ b + 16 ≤ c ∨ c + 16 ≤ b

/-- Apartness is symmetric. -/
lemma Apart.symm {b c : Nat} (h : Apart b c) : Apart c b := by unfold Apart at *; omega

/-- Block addresses whose headers lie in the address space and do not overlap. -/
structure Spread (l : List Nat) : Prop where
  fits : ∀ b ∈ l, b + 16 ≤ 4294967296
  apart : ∀ b ∈ l, ∀ c ∈ l, Apart b c

/-- Some of the blocks of a list are as far apart as all of them. -/
lemma Spread.mono {l l' : List Nat} (hs : Spread l) (hsub : l' ⊆ l) : Spread l' :=
  ⟨fun b hb => hs.fits b (hsub hb), fun b hb c hc => hs.apart b (hsub hb) c (hsub hc)⟩

/-- The window of the link fields of the blocks of `l`. -/
def LinkOf (l : List Nat) (x : Nat) : Prop := ∃ b ∈ l, Bytes (b + 8) (b + 16) x

/-- `h'` differs from `h` in the bin heads and in the bytes of `W`. -/
structure Edit (W : Nat → Prop) (h h' : Heap) : Prop where
  mem : SameOff W h.mem h'.mem
  start : h'.start = h.start
  end_ : h'.end_ = h.end_

namespace Edit
variable {W W' : Nat → Prop} {h h' h'' : Heap}

/-- Nothing was changed. -/
lemma refl (W : Nat → Prop) (h : Heap) : Edit W h h := ⟨.refl _ _, rfl, rfl⟩

/-- Two edits off the same addresses are one. -/
lemma trans (e : Edit W h h') (e' : Edit W h' h'') : Edit W h h'' :=
  ⟨e.mem.trans e'.mem, e'.start.trans e.start, e'.end_.trans e.end_⟩

/-- An edit may be said to touch more than it does. -/
lemma mono (e : Edit W h h') (hW : ∀ x, W x → W' x) : Edit W' h h' :=
  ⟨e.mem.mono hW, e.start, e.end_⟩

/-- An edit off the size of a block leaves it. -/
lemma size {b : Nat} (e : Edit W h h') (hb : b + 8 ≤ 4294967296)
    (hW : ∀ x, Bytes (b + 4) (b + 8) x → ¬ W x) : h'.size b = h.size b :=
  e.mem.readWord (by omega) hW

/-- An edit off the links of a block leaves its next block. -/
lemma next {b : Nat} (e : Edit W h h') (hb : b + 16 ≤ 4294967296)
    (hW : ∀ x, Bytes (b + 8) (b + 16) x → ¬ W x) : h'.next b = h.next b :=
  e.mem.readWord (by omega) fun x hx => hW x ⟨hx.1, by have := hx.2; omega⟩

/-- An edit off the links of a block leaves the block before it. -/
lemma prev {b : Nat} (e : Edit W h h') (hb : b + 16 ≤ 4294967296)
    (hW : ∀ x, Bytes (b + 8) (b + 16) x → ¬ W x) : h'.prev b = h.prev b :=
  e.mem.readWord (by omega) fun x hx => hW x ⟨by have := hx.1; omega, by have := hx.2; omega⟩

/-- An edit off the flag of a block leaves it. -/
lemma hole {b : Nat} (e : Edit W h h') (hb : b < 4294967296) (hW : ¬ W b) :
    h'.hole b = h.hole b := by
  unfold Heap.hole
  rw [u32_eq hb]
  exact e.mem b hW

/-- An edit off a footer leaves the header in it. -/
lemma header {a : Nat} (e : Edit W h h') (ha : a + 4 ≤ 4294967296)
    (hW : ∀ x, Bytes a (a + 4) x → ¬ W x) : h'.header a = h.header a :=
  e.mem.readWord ha hW

end Edit

/-! ## Field updates -/

section
variable {h : Heap} {b c v : Nat}

/-- Writing the head of a bin leaves the sizes. -/
@[simp] lemma size_setHead {i} : (h.setHead i v).size b = h.size b := rfl

/-- Writing the head of a bin leaves the links. -/
@[simp] lemma next_setHead {i} : (h.setHead i v).next b = h.next b := rfl

/-- Writing the head of a bin leaves the links back. -/
@[simp] lemma prev_setHead {i} : (h.setHead i v).prev b = h.prev b := rfl

/-- Writing a link leaves the heads of the bins. -/
@[simp] lemma bins_setNext : (h.setNext b v).bins = h.bins := rfl

/-- Writing a link back leaves the heads of the bins. -/
@[simp] lemma bins_setPrev : (h.setPrev b v).bins = h.bins := rfl

/-- The head that is written is read back. -/
@[simp] lemma bins_setHead_self {i} : (h.setHead i v).bins i = v := Function.update_self ..

/-- Writing one head leaves the others. -/
lemma bins_setHead_ne {i j} (hj : j ≠ i) : (h.setHead i v).bins j = h.bins j :=
  Function.update_of_ne hj ..

variable {S : List Nat} (hs : Spread S) (hb : b ∈ S) (hc : c ∈ S)
include hs hb

/-- A block of the list has an address of 32 bits. -/
lemma Spread.lt : b < 4294967296 := by
  have := hs.fits b hb
  omega

include hc

/-- A store to a link field leaves all other link fields alone. -/
lemma Spread.readWord_ne {m : Mem} {j k : Nat} (hj : j = 8 ∨ j = 12) (hk : k = 8 ∨ k = 12)
    (hne : c ≠ b ∨ k ≠ j) : readWord (writeWord m (b + j) v) (c + k) = readWord m (c + k) := by
  have := hs.fits b hb
  have := hs.fits c hc
  have := hs.apart b hb c hc
  unfold Apart at this
  exact readWord_writeWord_ne (by omega) (by omega) (by omega)

/-- The link that is written is read back, and no other block's changes. -/
lemma Spread.next_setNext (hv : v < 4294967296) :
    (h.setNext b v).next c = if c = b then v else h.next c := by
  split_ifs with he
  · subst he
    exact readWord_writeWord (by have := hs.fits c hc; omega) hv
  · exact hs.readWord_ne hb hc (.inl rfl) (.inl rfl) (.inl he)

/-- The link back that is written is read back, and no other block's changes. -/
lemma Spread.prev_setPrev (hv : v < 4294967296) :
    (h.setPrev b v).prev c = if c = b then v else h.prev c := by
  split_ifs with he
  · subst he
    exact readWord_writeWord (by have := hs.fits c hc; omega) hv
  · exact hs.readWord_ne hb hc (.inr rfl) (.inr rfl) (.inl he)

/-- Writing a link leaves the links back. -/
lemma Spread.prev_setNext : (h.setNext b v).prev c = h.prev c :=
  hs.readWord_ne hb hc (.inl rfl) (.inr rfl) (.inr (by decide))

/-- Writing a link back leaves the links. -/
lemma Spread.next_setPrev : (h.setPrev b v).next c = h.next c :=
  hs.readWord_ne hb hc (.inr rfl) (.inl rfl) (.inr (by decide))

end

/-- The head of a bin is not in memory. -/
lemma Edit.setHead {W : Nat → Prop} {h : Heap} {i v} : Edit W h (h.setHead i v) :=
  ⟨.refl _ _, rfl, rfl⟩

/-- A link is written in the links of its block. -/
lemma Edit.setNext {h : Heap} {l : List Nat} {b v : Nat} (hb : b ∈ l) (hs : Spread l) :
    Edit (LinkOf l) h (h.setNext b v) := by
  refine ⟨(SameOff.writeWord (by have := hs.fits b hb; omega)).mono fun x hx => ⟨b, hb, ?_⟩, rfl, rfl⟩
  unfold Bytes at *; omega

/-- A link back is written in the links of its block. -/
lemma Edit.setPrev {h : Heap} {l : List Nat} {b v : Nat} (hb : b ∈ l) (hs : Spread l) :
    Edit (LinkOf l) h (h.setPrev b v) := by
  refine ⟨(SameOff.writeWord (by have := hs.fits b hb; omega)).mono fun x hx => ⟨b, hb, ?_⟩, rfl, rfl⟩
  unfold Bytes at *; omega

section
variable {h : Heap} {b v : Nat}

/-- A size is written in four bytes of the header. -/
lemma Edit.setSize (hb : b + 8 ≤ 4294967296) : Edit (Bytes (b + 4) (b + 8)) h (h.setSize b v) :=
  ⟨SameOff.writeWord (by omega), rfl, rfl⟩

/-- A flag is written in the first byte of the header. -/
lemma Edit.setHole {v : UInt8} (hb : b < 4294967296) :
    Edit (Bytes b (b + 1)) h (h.setHole b v) :=
  ⟨SameOff.writeByte hb, rfl, rfl⟩

/-- A header is written in the four bytes of a footer. -/
lemma Edit.setHeader (hb : b + 4 ≤ 4294967296) : Edit (Bytes b (b + 4)) h (h.setHeader b v) :=
  ⟨SameOff.writeWord hb, rfl, rfl⟩

/-- The size that is written is read back. -/
lemma size_setSize (hb : b + 8 ≤ 4294967296) (hv : v < 4294967296) : (h.setSize b v).size b = v :=
  readWord_writeWord (by omega) hv

/-- The flag that is written is read back. -/
lemma hole_setHole {v : UInt8} (hb : b < 4294967296) : (h.setHole b v).hole b = v := by
  rw [Heap.hole, u32_eq hb]
  exact writeByte_same hb

/-- The header that is written in a footer is read back. -/
lemma header_setHeader (hb : b + 4 ≤ 4294967296) (hv : v < 4294967296) :
    (h.setHeader b v).header b = v :=
  readWord_writeWord hb hv

/-- Writing a size leaves the heads of the bins. -/
@[simp] lemma bins_setSize : (h.setSize b v).bins = h.bins := rfl

/-- Writing a flag leaves the heads of the bins. -/
@[simp] lemma bins_setHole {v : UInt8} : (h.setHole b v).bins = h.bins := rfl

/-- Writing to a footer leaves the heads of the bins. -/
@[simp] lemma bins_setHeader : (h.setHeader b v).bins = h.bins := rfl

/-- `create_foot` leaves the heads of the bins. -/
@[simp] lemma bins_createFoot : (createFoot h b).bins = h.bins := rfl

end

/-! ## Bins -/

/-- Bin `i` holds exactly the blocks `l`, in this order. -/
structure IsBin (h : Heap) (i : Fin binCnt) (l : List Nat) : Prop where
  chain : Chain 0 h.next (h.bins i) l
  back : Back h.prev l

/-- A bin is determined by its head and the links of its blocks. -/
lemma IsBin.congr {h h' : Heap} {i : Fin binCnt} {l : List Nat} (hb : IsBin h i l)
    (hhead : h'.bins i = h.bins i) (hn : ∀ b ∈ l, h'.next b = h.next b)
    (hp : ∀ b ∈ l, h'.prev b = h.prev b) : IsBin h' i l :=
  ⟨by rw [hhead]; exact hb.chain.congr hn,
    hb.back.congr fun b hm => hp b (List.mem_of_mem_tail hm)⟩

/-- A bin survives an edit off the links of its blocks. -/
lemma IsBin.edit {h h' : Heap} {i : Fin binCnt} {l : List Nat} {W : Nat → Prop} (hb : IsBin h i l)
    (e : Edit W h h') (hhead : h'.bins i = h.bins i) (hfit : ∀ b ∈ l, b + 16 ≤ 4294967296)
    (hW : ∀ b ∈ l, ∀ x, Bytes (b + 8) (b + 16) x → ¬ W x) : IsBin h' i l :=
  hb.congr hhead (fun b hm => e.next (hfit b hm) (hW b hm))
    fun b hm => e.prev (hfit b hm) (hW b hm)

/-- A bin of 32-bit addresses is followed to its end within the fuel. -/
lemma IsBin.length_lt {h : Heap} {i : Fin binCnt} {l : List Nat} (hb : IsBin h i l)
    (hs : ∀ b ∈ l, b + 16 ≤ 4294967296) : l.length < chainFuel := by
  refine hb.chain.length_lt (by decide) fun b hm => ?_
  have := hs b hm
  unfold chainFuel
  omega

/-! ## `add_block_sorted` -/

/-- The loop of `add_block_sorted` stops at the first block that is larger. -/
lemma sortedPos_spec {h : Heap} (blck : Nat) {n p t : Nat} {l : List Nat} (hc : Chain 0 h.next t l)
    (hn : l.length < n) :
    ∃ pre post, l = pre ++ post ∧ (∀ x ∈ pre, h.size x ≤ h.size blck) ∧
      (∀ x ∈ post.head?, h.size blck < h.size x) ∧
      sortedPos h blck n p t = .ok (pre.getLastD p, post.headD 0) := by
  induction l generalizing n p t with
  | nil =>
    obtain rfl : t = 0 := hc
    obtain ⟨n, rfl⟩ := Nat.exists_eq_succ_of_ne_zero (Nat.ne_zero_of_lt hn)
    exact ⟨[], [], rfl, by simp, by simp, by simp [sortedPos]⟩
  | cons a l ih =>
    obtain ⟨rfl, h0, hc⟩ := hc
    obtain ⟨n, rfl⟩ := Nat.exists_eq_succ_of_ne_zero (Nat.ne_zero_of_lt hn)
    by_cases hle : h.size t ≤ h.size blck
    · obtain ⟨pre, post, rfl, hpre, hpost, hr⟩ := ih (p := t) hc (Nat.lt_of_succ_lt_succ hn)
      refine ⟨t :: pre, post, rfl, ?_, hpost, ?_⟩
      · simpa using ⟨hle, hpre⟩
      · rw [sortedPos, if_pos ⟨h0, hle⟩, hr, List.getLastD_cons]
    · refine ⟨[], t :: l, rfl, by simp, by simpa using hle, ?_⟩
      rw [sortedPos, if_neg (by simp [hle])]
      rfl

/-- Linking `blck` in behind `p`: what the links must be afterwards. -/
lemma IsBin.insert {h h' : Heap} {i : Fin binCnt} {blck p : Nat} {pre post : List Nat}
    (hb : IsBin h i (pre ++ p :: post)) (h0 : blck ≠ 0) (hhead : h'.bins i = h.bins i)
    (hp : h'.next p = blck) (hn : h'.next blck = post.headD 0) (hpr : h'.prev blck = p)
    (hpost : ∀ x ∈ post.head?, h'.prev x = blck)
    (hnext : ∀ x, x ∈ pre ∨ x ∈ post → h'.next x = h.next x)
    (hprev : ∀ x, x ∈ pre ++ [p] ∨ x ∈ post.tail → h'.prev x = h.prev x) :
    IsBin h' i (pre ++ p :: blck :: post) := by
  constructor
  · rw [hhead]
    exact hb.chain.insert h0 hp (hn.trans hb.chain.next_eq.symm) hnext
  · exact hb.back.insert hpr hpost fun x hx => hprev x (hx.imp_left List.mem_of_mem_tail)

section
variable {h : Heap} {i : Fin binCnt} {blck : Nat}

/-- Clearing the links of a block that is in no bin changes no bin. -/
lemma clearLinks_spec {l : List Nat} (hs : Spread (blck :: l)) (hm : blck ∉ l) :
    Edit (LinkOf (blck :: l)) h (clearLinks h blck) ∧ (clearLinks h blck).next blck = 0 ∧
      (∀ x ∈ l, (clearLinks h blck).next x = h.next x) ∧
      ∀ x ∈ l, (clearLinks h blck).prev x = h.prev x := by
  have hself : blck ∈ blck :: l := List.mem_cons_self
  have ne : ∀ x ∈ l, x ≠ blck := fun x hx e => hm (e ▸ hx)
  refine ⟨(Edit.setNext hself hs).trans (Edit.setPrev hself hs), ?_, fun x hx => ?_, fun x hx => ?_⟩
  · rw [clearLinks, hs.next_setPrev hself hself, hs.next_setNext hself hself (by decide), if_pos rfl]
  · have hx' := List.mem_cons_of_mem blck hx
    rw [clearLinks, hs.next_setPrev hself hx', hs.next_setNext hself hx' (by decide),
      if_neg (ne x hx)]
  · have hx' := List.mem_cons_of_mem blck hx
    rw [clearLinks, hs.prev_setPrev hself hx' (by decide), if_neg (ne x hx),
      hs.prev_setNext hself hx']

/-- Linking in front of the whole bin. -/
lemma link_front {a : Nat} {post : List Nat} (hb : IsBin h i (a :: post))
    (hs : Spread (blck :: a :: post)) (hm : blck ∉ a :: post) (h0 : blck ≠ 0) :
    let h' := linkBetween h i blck 0 a
    IsBin h' i (blck :: a :: post) ∧ (∀ j, j ≠ i → h'.bins j = h.bins j) ∧
      Edit (LinkOf (blck :: a :: post)) h h' := by
  have mb : blck ∈ blck :: a :: post := by simp
  have ma : a ∈ blck :: a :: post := by simp
  have e : linkBetween h i blck 0 a = ((h.setNext blck a).setPrev a blck).setHead i blck := by
    have hhead : h.bins i = a := hb.chain.1
    rw [linkBetween, if_neg hb.chain.2.1, if_neg (by simp), ← hhead]
    rfl
  simp only [e]
  refine ⟨⟨?_, ?_⟩, fun j hj => ?_, ((Edit.setNext mb hs).trans (Edit.setPrev ma hs)).trans .setHead⟩
  · rw [bins_setHead_self]
    refine hb.chain.push h0 ?_ fun x hx => ?_
    · rw [next_setHead, hs.next_setPrev ma mb, hs.next_setNext mb mb (hs.lt ma), if_pos rfl]
      exact hb.chain.1.symm
    · have hx' := List.mem_cons_of_mem blck hx
      rw [next_setHead, hs.next_setPrev ma hx', hs.next_setNext mb hx' (hs.lt ma),
        if_neg fun e : x = blck => hm (e ▸ hx)]
  · refine hb.back.push (fun x hx => ?_) fun x hx => ?_
    · obtain rfl : a = x := by simpa using hx
      rw [prev_setHead, hs.prev_setPrev ma ma (hs.lt mb), if_pos rfl]
    · have hx' : x ∈ blck :: a :: post := by simp only [List.tail_cons] at hx; simp [hx]
      have hxa : x ≠ a := fun e => (List.nodup_cons.mp hb.chain.nodup).1 (e ▸ hx)
      rw [prev_setHead, hs.prev_setPrev ma hx' (hs.lt mb), if_neg hxa, hs.prev_setNext mb hx']
  · rw [bins_setHead_ne hj]
    rfl

/-- Linking in at the end of the bin. -/
lemma link_end {p : Nat} {pre : List Nat} (hb : IsBin h i (pre ++ [p]))
    (hs : Spread (blck :: (pre ++ [p]))) (hm : blck ∉ pre ++ [p]) (h0 : blck ≠ 0)
    (hnull : h.next blck = 0) :
    let h' := linkBetween h i blck p 0
    IsBin h' i (pre ++ [p, blck]) ∧ (∀ j, j ≠ i → h'.bins j = h.bins j) ∧
      Edit (LinkOf (blck :: (pre ++ [p]))) h h' := by
  have mb : blck ∈ blck :: (pre ++ [p]) := by simp
  have mp : p ∈ blck :: (pre ++ [p]) := by simp
  have ne : ∀ x ∈ pre ++ [p], x ≠ blck := fun x hx e => hm (e ▸ hx)
  have hpb : p ≠ blck := ne p (by simp)
  have hnp : ∀ x ∈ pre, x ≠ p := fun x hx e =>
    (List.nodup_append.mp hb.chain.nodup).2.2 x hx p (by simp) e
  simp only [linkBetween, if_pos]
  refine ⟨hb.insert h0 rfl ?_ ?_ ?_ (by simp) (fun x hx => ?_) (fun x hx => ?_), fun _ _ => rfl,
    (Edit.setNext mp hs).trans (Edit.setPrev mb hs)⟩
  · rw [hs.next_setPrev mb mp, hs.next_setNext mp mp (hs.lt mb), if_pos rfl]
  · rw [hs.next_setPrev mb mb, hs.next_setNext mp mb (hs.lt mb), if_neg hpb.symm, hnull]
    rfl
  · rw [hs.prev_setPrev mb mb (hs.lt mp), if_pos rfl]
  · have hx : x ∈ pre := by simpa using hx
    have hx' : x ∈ blck :: (pre ++ [p]) := by simp [hx]
    rw [hs.next_setPrev mb hx', hs.next_setNext mp hx' (hs.lt mb), if_neg (hnp x hx)]
  · have hx : x ∈ pre ++ [p] := by simpa using hx
    have hx' := List.mem_cons_of_mem blck hx
    rw [hs.prev_setPrev mb hx' (hs.lt mp), if_neg (ne x hx), hs.prev_setNext mp hx']

/-- Linking in between two blocks of the bin. -/
lemma link_mid {p t : Nat} {pre post : List Nat} (hb : IsBin h i (pre ++ p :: t :: post))
    (hs : Spread (blck :: (pre ++ p :: t :: post))) (hm : blck ∉ pre ++ p :: t :: post)
    (h0 : blck ≠ 0) :
    let h' := linkBetween h i blck p t
    IsBin h' i (pre ++ p :: blck :: t :: post) ∧ (∀ j, j ≠ i → h'.bins j = h.bins j) ∧
      Edit (LinkOf (blck :: (pre ++ p :: t :: post))) h h' := by
  have mb : blck ∈ blck :: (pre ++ p :: t :: post) := by simp
  have mp : p ∈ blck :: (pre ++ p :: t :: post) := by simp
  have mt : t ∈ blck :: (pre ++ p :: t :: post) := by simp
  have ne : ∀ x ∈ pre ++ p :: t :: post, x ≠ blck := fun x hx e => hm (e ▸ hx)
  have hpb : p ≠ blck := ne p (by simp)
  have htb : t ≠ blck := ne t (by simp)
  obtain ⟨_, hnd, hdis⟩ := List.nodup_append.mp hb.chain.nodup
  have hpt : p ≠ t := fun e => (List.nodup_cons.mp hnd).1 (e ▸ by simp)
  have hp0 : p ≠ 0 := hb.chain.ne_null (by simp)
  have ht0 : t ≠ 0 := hb.chain.ne_null (by simp)
  simp only [linkBetween, if_neg ht0, if_pos hp0, ne_eq]
  refine ⟨hb.insert h0 rfl ?_ ?_ ?_ (fun x hx => ?_) (fun x hx => ?_) (fun x hx => ?_),
    fun _ _ => rfl, (((Edit.setNext mb hs).trans (Edit.setNext mp hs)).trans
      (Edit.setPrev mb hs)).trans (Edit.setPrev mt hs)⟩
  · rw [hs.next_setPrev mt mp, hs.next_setPrev mb mp, hs.next_setNext mp mp (hs.lt mb), if_pos rfl]
  · rw [hs.next_setPrev mt mb, hs.next_setPrev mb mb, hs.next_setNext mp mb (hs.lt mb),
      if_neg hpb.symm, hs.next_setNext mb mb (hs.lt mt), if_pos rfl]
    rfl
  · rw [hs.prev_setPrev mt mb (hs.lt mb), if_neg htb.symm, hs.prev_setPrev mb mb (hs.lt mp),
      if_pos rfl]
  · obtain rfl : t = x := by simpa using hx
    rw [hs.prev_setPrev mt mt (hs.lt mb), if_pos rfl]
  · have hxm : x ∈ pre ++ p :: t :: post := by
      rcases hx with hx | hx <;> simp at hx ⊢ <;> tauto
    have hx' := List.mem_cons_of_mem blck hxm
    have hxp : x ≠ p := by
      rintro rfl
      rcases hx with hx | hx
      · exact hdis x hx x (by simp) rfl
      · exact (List.nodup_cons.mp hnd).1 hx
    rw [hs.next_setPrev mt hx', hs.next_setPrev mb hx', hs.next_setNext mp hx' (hs.lt mb),
      if_neg hxp, hs.next_setNext mb hx' (hs.lt mt), if_neg (ne x hxm)]
  · have hxm : x ∈ pre ++ p :: t :: post := by
      rcases hx with hx | hx <;> simp at hx ⊢ <;> tauto
    have hx' := List.mem_cons_of_mem blck hxm
    have hxt : x ≠ t := by
      rintro rfl
      rcases hx with hx | hx
      · rcases List.mem_append.mp hx with hx | hx
        · exact hdis x hx x (by simp) rfl
        · exact hpt (List.mem_singleton.mp hx).symm
      · exact (List.nodup_cons.mp (List.nodup_cons.mp hnd).2).1 hx
    rw [hs.prev_setPrev mt hx' (hs.lt mb), if_neg hxt, hs.prev_setPrev mb hx' (hs.lt mp),
      if_neg (ne x hxm), hs.prev_setNext mp hx', hs.prev_setNext mb hx']

/-- Linking a block in at the position the loop has found. -/
lemma linkBetween_spec {pre post : List Nat} (hb : IsBin h i (pre ++ post))
    (hs : Spread (blck :: (pre ++ post))) (hm : blck ∉ pre ++ post) (h0 : blck ≠ 0)
    (hne : pre ++ post ≠ []) (hnull : h.next blck = 0) :
    let h' := linkBetween h i blck (pre.getLastD 0) (post.headD 0)
    IsBin h' i (pre ++ blck :: post) ∧ (∀ j, j ≠ i → h'.bins j = h.bins j) ∧
      Edit (LinkOf (blck :: (pre ++ post))) h h' := by
  rcases List.eq_nil_or_concat pre with rfl | ⟨pre, p, rfl⟩
  · obtain ⟨a, post, rfl⟩ := List.exists_cons_of_ne_nil (l := post) (by simpa using hne)
    exact link_front hb hs hm h0
  · cases post with
    | nil => simpa using link_end (by simpa using hb) (by simpa using hs) (by simpa using hm) h0 hnull
    | cons t post =>
      simpa using link_mid (by simpa using hb) (by simpa using hs) (by simpa using hm) h0

/-- An edit of links changes no size. -/
lemma Edit.size_linkOf {h' : Heap} {l : List Nat} {x : Nat} (e : Edit (LinkOf l) h h')
    (hs : Spread l) (hx : x ∈ l) : h'.size x = h.size x := by
  refine e.size (by have := hs.fits x hx; omega) ?_
  rintro y hy ⟨c, hc, hy'⟩
  have := hs.apart x hx c hc
  unfold Bytes Apart at *
  omega

/-- The position that `add_block_sorted` links the block in at: behind every block of the bin that is
at most as large, up to the first larger one. -/
lemma addBlockSorted_eq {l : List Nat} (hb : IsBin h i l) (hs : Spread (blck :: l))
    (hm : blck ∉ l) :
    ∃ pre post, l = pre ++ post ∧ (∀ x ∈ pre, h.size x ≤ h.size blck) ∧
      (∀ x ∈ post.head?, h.size blck < h.size x) ∧
      addBlockSorted h i blck = .ok (if l = [] then (clearLinks h blck).setHead i blck
        else linkBetween (clearLinks h blck) i blck (pre.getLastD 0) (post.headD 0)) := by
  obtain ⟨e₁, -, hnext, hprev⟩ := clearLinks_spec (h := h) hs hm
  have hb₁ : IsBin (clearLinks h blck) i l := hb.congr rfl hnext hprev
  have size₁ : ∀ x ∈ blck :: l, (clearLinks h blck).size x = h.size x :=
    fun x hx => e₁.size_linkOf hs hx
  by_cases hl : l = []
  · subst hl
    have hhead : (clearLinks h blck).bins i = 0 := hb₁.chain
    refine ⟨[], [], rfl, by simp, by simp, ?_⟩
    simp only [addBlockSorted, if_pos hhead, if_pos]
  · have hhead : (clearLinks h blck).bins i ≠ 0 := fun e => hl (hb₁.chain.head_eq_null.mp e)
    obtain ⟨pre, post, rfl, hpre, hpost, hpos⟩ := sortedPos_spec blck (p := 0) hb₁.chain
      (hb₁.length_lt fun x hx => hs.fits x (List.mem_cons_of_mem _ hx))
    have hself : blck ∈ blck :: (pre ++ post) := List.mem_cons_self
    refine ⟨pre, post, rfl, fun x hx => ?_, fun x hx => ?_, ?_⟩
    · have := hpre x hx
      rwa [size₁ x (by simp [hx]), size₁ blck hself] at this
    · have := hpost x hx
      rwa [size₁ x (by simp [List.mem_of_mem_head? hx]), size₁ blck hself] at this
    · simp only [addBlockSorted, if_neg hhead, hpos, if_neg hl, bind, Except.bind, pure, Except.pure]

/-- `add_block_sorted` ends; it places the block behind every block of the bin that is at most as
large, up to the first larger one, and writes only links of the bin and of the block. -/
lemma addBlockSorted_spec {l : List Nat} (hb : IsBin h i l) (hs : Spread (blck :: l))
    (hm : blck ∉ l) (h0 : blck ≠ 0) :
    ∃ h' pre post, addBlockSorted h i blck = .ok h' ∧ l = pre ++ post ∧
      (∀ x ∈ pre, h.size x ≤ h.size blck) ∧ (∀ x ∈ post.head?, h.size blck < h.size x) ∧
      IsBin h' i (pre ++ blck :: post) ∧ (∀ j, j ≠ i → h'.bins j = h.bins j) ∧
      Edit (LinkOf (blck :: l)) h h' := by
  obtain ⟨e₁, hnull, hnext, hprev⟩ := clearLinks_spec (h := h) hs hm
  have hb₁ : IsBin (clearLinks h blck) i l := hb.congr rfl hnext hprev
  obtain ⟨pre, post, rfl, hpre, hpost, heq⟩ := addBlockSorted_eq hb hs hm
  refine ⟨_, pre, post, heq, rfl, hpre, hpost, ?_⟩
  split_ifs with hl
  · -- empty bin
    obtain ⟨rfl, rfl⟩ := List.append_eq_nil_iff.mp hl
    exact ⟨⟨⟨bins_setHead_self, h0, hnull⟩, trivial⟩, fun j hj => bins_setHead_ne hj,
      e₁.trans .setHead⟩
  · obtain ⟨hb₂, hbins, e₂⟩ := linkBetween_spec hb₁ hs hm h0 hl hnull
    exact ⟨hb₂, hbins, e₁.trans e₂⟩

/-! ## `remove_block` -/

/-- The search of `remove_block` reaches a block of the bin. -/
lemma findBlock_mem {n t : Nat} {l : List Nat} (hc : Chain 0 h.next t l) (hn : l.length < n)
    (hm : blck ∈ l) : findBlock h blck n t = .ok true := by
  induction l generalizing n t with
  | nil => cases hm
  | cons a l ih =>
    obtain ⟨rfl, h0, hc⟩ := hc
    obtain ⟨n, rfl⟩ := Nat.exists_eq_succ_of_ne_zero (Nat.ne_zero_of_lt hn)
    rw [findBlock, if_neg h0]
    by_cases he : t = blck
    · rw [if_pos he]
    · rw [if_neg he]
      exact ih hc (Nat.lt_of_succ_lt_succ hn) ((List.mem_cons.mp hm).resolve_left (Ne.symm he))

/-- The search of `remove_block` ends without the block when the bin does not hold it. -/
lemma findBlock_not_mem {n t : Nat} {l : List Nat} (hc : Chain 0 h.next t l) (hn : l.length < n)
    (hm : blck ∉ l) : findBlock h blck n t = .ok false := by
  induction l generalizing n t with
  | nil =>
    obtain rfl : t = 0 := hc
    obtain ⟨n, rfl⟩ := Nat.exists_eq_succ_of_ne_zero (Nat.ne_zero_of_lt hn)
    rw [findBlock, if_pos rfl]
  | cons a l ih =>
    obtain ⟨rfl, h0, hc⟩ := hc
    obtain ⟨n, rfl⟩ := Nat.exists_eq_succ_of_ne_zero (Nat.ne_zero_of_lt hn)
    have hne : t ≠ blck := fun e => hm (by rw [← e]; exact List.mem_cons_self)
    rw [findBlock, if_neg h0, if_neg hne]
    exact ih hc (Nat.lt_of_succ_lt_succ hn) fun hl => hm (List.mem_cons_of_mem _ hl)

/-- What taking a block out from behind `p` writes. The `prev` field that is read is the one of a
block with a predecessor, so it is up to date. -/
lemma unlink_eq {p : Nat} {pre post : List Nat} (hb : IsBin h i (pre ++ p :: blck :: post))
    (hs : Spread (pre ++ p :: blck :: post)) :
    unlink h blck = if post = [] then h.setNext p 0
      else (h.setNext p (post.headD 0)).setPrev (post.headD 0) p := by
  have mp : p ∈ pre ++ p :: blck :: post := by simp
  have mb : blck ∈ pre ++ p :: blck :: post := by simp
  have hprev : h.prev blck = p := hb.back.prev_eq
  have hchain : Chain 0 h.next (h.bins i) ((pre ++ [p]) ++ blck :: post) := by simpa using hb.chain
  have hnext : h.next blck = post.headD 0 := hchain.next_eq
  have hnd := (List.nodup_append.mp hb.chain.nodup).2.1
  have hbp : blck ≠ p := fun e => (List.nodup_cons.mp hnd).1 (by simp [e])
  cases post with
  | nil => rw [unlink, if_pos (by simpa using hnext), hprev, if_pos rfl]
  | cons t post =>
    have mt : t ∈ pre ++ p :: blck :: t :: post := by simp
    have hnext : h.next blck = t := hnext
    have hnext' : (h.setNext p t).next blck = t := by
      rw [hs.next_setNext mp mb (hs.lt mt), if_neg hbp, hnext]
    have hprev' : (h.setNext p t).prev blck = p := by rw [hs.prev_setNext mp mb, hprev]
    rw [unlink, if_neg (by rw [hnext]; exact hb.chain.ne_null mt), hprev, hnext]
    simp only [hnext', hprev', List.headD_cons, if_neg (List.cons_ne_nil t post)]

/-- Taking a block out from behind `p`. -/
lemma unlink_spec {p : Nat} {pre post : List Nat} (hb : IsBin h i (pre ++ p :: blck :: post))
    (hs : Spread (pre ++ p :: blck :: post)) :
    IsBin (unlink h blck) i (pre ++ p :: post) ∧ (unlink h blck).bins = h.bins ∧
      Edit (LinkOf (pre ++ p :: blck :: post)) h (unlink h blck) := by
  have mp : p ∈ pre ++ p :: blck :: post := by simp
  have hchain : Chain 0 h.next (h.bins i) ((pre ++ [p]) ++ blck :: post) := by simpa using hb.chain
  have hnext : h.next blck = post.headD 0 := hchain.next_eq
  obtain ⟨_, hnd, hdis⟩ := List.nodup_append.mp hb.chain.nodup
  have hpn : ∀ x, x ∈ pre ∨ x ∈ post → x ≠ p := by
    rintro x (hx | hx) rfl
    · exact hdis x hx x (by simp) rfl
    · exact (List.nodup_cons.mp hnd).1 (by simp [hx])
  have sub : ∀ x, x ∈ pre ∨ x ∈ post → x ∈ pre ++ p :: blck :: post := by
    rintro x (hx | hx) <;> simp [hx]
  rw [unlink_eq hb hs]
  cases post with
  | nil =>
    rw [if_pos rfl]
    refine ⟨⟨?_, ?_⟩, rfl, Edit.setNext mp hs⟩
    · refine hb.chain.unlink ?_ fun x hx => ?_
      · rw [hs.next_setNext mp mp (by decide), if_pos rfl, hnext]
        rfl
      · rw [hs.next_setNext mp (sub x hx) (by decide), if_neg (hpn x hx)]
    · refine hb.back.unlink (by simp) fun x hx => ?_
      have hx' : x ∈ pre ++ [p, blck] := by
        rcases hx with hx | hx
        · have := List.mem_of_mem_tail hx
          simp at this ⊢; tauto
        · simp at hx
      rw [hs.prev_setNext mp hx']
  | cons t post =>
    have mt : t ∈ pre ++ p :: blck :: t :: post := by simp
    rw [if_neg (List.cons_ne_nil t post), List.headD_cons]
    refine ⟨⟨?_, ?_⟩, rfl, (Edit.setNext mp hs).trans (Edit.setPrev mt hs)⟩
    · refine hb.chain.unlink ?_ fun x hx => ?_
      · rw [hs.next_setPrev mt mp, hs.next_setNext mp mp (hs.lt mt), if_pos rfl, hnext]
        rfl
      · rw [hs.next_setPrev mt (sub x hx), hs.next_setNext mp (sub x hx) (hs.lt mt),
          if_neg (hpn x hx)]
    · refine hb.back.unlink (fun x hx => ?_) fun x hx => ?_
      · obtain rfl : t = x := by simpa using hx
        rw [hs.prev_setPrev mt mt (hs.lt mp), if_pos rfl]
      · have hx' : x ∈ pre ++ p :: blck :: t :: post := by
          rcases hx with hx | hx
          · have := List.mem_of_mem_tail hx
            simp at this ⊢; tauto
          · simp at hx; simp [hx]
        have hxt : x ≠ t := by
          rintro rfl
          rcases hx with hx | hx
          · rcases List.mem_append.mp (List.mem_of_mem_tail hx) with hx | hx
            · exact hdis x hx x (by simp) rfl
            · exact hpn x (.inr (by simp)) (List.mem_singleton.mp hx)
          · exact (List.nodup_cons.mp (List.nodup_cons.mp (List.nodup_cons.mp hnd).2).2).1 hx
        rw [hs.prev_setPrev mt hx' (hs.lt mp), if_neg hxt, hs.prev_setNext mp hx']

/-- `remove_block` of the first block. -/
lemma removeBlock_first {post : List Nat} (hb : IsBin h i (blck :: post)) :
    removeBlock h i blck = .ok (clearLinks (h.setHead i (post.headD 0)) blck) := by
  have hhead : h.bins i = blck := hb.chain.1
  have hnext : h.next blck = post.headD 0 := Chain.head_eq hb.chain.2.2
  rw [removeBlock, if_neg (by rw [hhead]; exact hb.chain.2.1), if_pos hhead, hhead, hnext]

/-- `remove_block` of a block that has a predecessor. -/
lemma removeBlock_behind {p : Nat} {pre post : List Nat} (hb : IsBin h i (pre ++ p :: blck :: post))
    (hs : Spread (pre ++ p :: blck :: post)) :
    removeBlock h i blck = .ok (clearLinks (unlink h blck) blck) := by
  obtain ⟨a, l, hl, hm⟩ : ∃ a l, pre ++ p :: blck :: post = a :: l ∧ blck ∈ l := by
    cases pre with
    | nil => exact ⟨p, blck :: post, rfl, by simp⟩
    | cons a pre => exact ⟨a, pre ++ p :: blck :: post, rfl, by simp⟩
  rw [hl] at hb hs
  have hhead : h.bins i = a := hb.chain.1
  have hne : a ≠ blck := fun e => (List.nodup_cons.mp hb.chain.nodup).1 (e ▸ hm)
  have hfind : findBlock h blck chainFuel (h.next a) = .ok true :=
    findBlock_mem hb.chain.2.2 (Nat.lt_of_succ_lt (hb.length_lt hs.fits)) hm
  simp only [removeBlock, hhead, if_neg hb.chain.2.1, if_neg hne, hfind, bind, Except.bind, pure,
    Except.pure, if_true]

/-- `remove_block` ends and takes the block out of its bin, writing only links of the bin. -/
lemma removeBlock_spec {l : List Nat} (hb : IsBin h i l) (hs : Spread l) (hm : blck ∈ l) :
    ∃ h', removeBlock h i blck = .ok h' ∧ IsBin h' i (l.erase blck) ∧
      (∀ j, j ≠ i → h'.bins j = h.bins j) ∧ Edit (LinkOf l) h h' := by
  obtain ⟨pre, post, rfl⟩ := List.append_of_mem hm
  have hnd := hb.chain.nodup
  have hpre : blck ∉ pre := fun hx => (List.nodup_append.mp hnd).2.2 blck hx blck (by simp) rfl
  have hpost : blck ∉ post := (List.nodup_cons.mp (List.nodup_append.mp hnd).2.1).1
  have herase : (pre ++ blck :: post).erase blck = pre ++ post := by
    rw [List.erase_append_right _ hpre, List.erase_cons_head]
  have hrest : blck ∉ pre ++ post := by simp [hpre, hpost]
  have hs' : Spread (blck :: (pre ++ post)) := hs.mono fun x hx => by simp at hx ⊢; tauto
  have hlink : ∀ x, LinkOf (blck :: (pre ++ post)) x → LinkOf (pre ++ blck :: post) x := by
    rintro x ⟨b, hb, hx⟩
    exact ⟨b, by simp at hb ⊢; tauto, hx⟩
  rw [herase]
  rcases List.eq_nil_or_concat pre with rfl | ⟨pre, p, rfl⟩
  · have hb₁ : IsBin (h.setHead i (post.headD 0)) i post := by
      refine ⟨?_, hb.back.tail⟩
      rw [bins_setHead_self, ← Chain.head_eq hb.chain.2.2]
      exact hb.chain.pop fun _ _ => rfl
    obtain ⟨e, -, hn, hp⟩ := clearLinks_spec (h := h.setHead i (post.headD 0)) hs' hrest
    exact ⟨_, removeBlock_first hb, IsBin.congr hb₁ rfl hn hp, fun j hj => bins_setHead_ne hj,
      (Edit.setHead.trans e).mono hlink⟩
  · simp only [List.concat_eq_append] at hb hs hs' hrest hlink ⊢
    have hb' : IsBin h i (pre ++ p :: blck :: post) := by simpa using hb
    have hs₁ : Spread (pre ++ p :: blck :: post) := by simpa using hs
    obtain ⟨hb₁, hbins, e₁⟩ := unlink_spec hb' hs₁
    obtain ⟨e₂, -, hn, hpv⟩ := clearLinks_spec (h := unlink h blck) hs' hrest
    have hb₁' : IsBin (unlink h blck) i (pre ++ [p] ++ post) := by simpa using hb₁
    refine ⟨_, removeBlock_behind hb' hs₁, IsBin.congr hb₁' rfl hn hpv, fun j _ => by rw [← hbins]; rfl, ?_⟩
    exact (e₁.mono fun x hx => by simpa using hx).trans (e₂.mono hlink)

/-- `remove_block` leaves the heap as it was when the bin does not hold the block. -/
lemma removeBlock_not_mem {l : List Nat} (hb : IsBin h i l)
    (hfit : ∀ x ∈ l, x + 16 ≤ 4294967296) (hm : blck ∉ l) : removeBlock h i blck = .ok h := by
  cases l with
  | nil =>
    have h0 : h.bins i = 0 := hb.chain
    rw [removeBlock, if_pos h0]
  | cons a l =>
    have hhead : h.bins i = a := hb.chain.1
    have hfind : findBlock h blck chainFuel (h.next (h.bins i)) = .ok false := by
      refine findBlock_not_mem (l := l) (by rw [hhead]; exact hb.chain.2.2) ?_ (by simp_all)
      exact Nat.lt_of_succ_lt (hb.length_lt hfit)
    have hne : h.bins i ≠ blck := by rw [hhead]; rintro rfl; simp at hm
    have h0 : h.bins i ≠ 0 := by rw [hhead]; exact hb.chain.2.1
    simp only [removeBlock, if_neg h0, if_neg hne, hfind, bind, Except.bind, pure, Except.pure]
    rfl

/-! ## `get_first_fit` -/

/-- `get_first_fit` finds the first block that is large enough, or returns `NULL`. -/
lemma firstFit_spec {n t sz : Nat} {l : List Nat} (hc : Chain 0 h.next t l) (hn : l.length < n) :
    firstFit h sz n t = .ok ((l.find? fun x => decide (sz ≤ h.size x)).getD 0) := by
  induction l generalizing n t with
  | nil =>
    obtain rfl : t = 0 := hc
    obtain ⟨n, rfl⟩ := Nat.exists_eq_succ_of_ne_zero (Nat.ne_zero_of_lt hn)
    rw [firstFit, if_pos rfl]
    rfl
  | cons a l ih =>
    obtain ⟨rfl, h0, hc⟩ := hc
    obtain ⟨n, rfl⟩ := Nat.exists_eq_succ_of_ne_zero (Nat.ne_zero_of_lt hn)
    rw [firstFit, if_neg h0, List.find?_cons]
    by_cases hle : sz ≤ h.size t
    · simp [hle]
    · rw [if_neg hle, decide_eq_false hle]
      exact ih hc (Nat.lt_of_succ_lt_succ hn)

/-- `get_first_fit` ends and returns the first block of the bin that is large enough. -/
lemma getFirstFit_spec (sz : Nat) {l : List Nat} (hb : IsBin h i l)
    (hfit : ∀ x ∈ l, x + 16 ≤ 4294967296) :
    getFirstFit h i sz = .ok ((l.find? fun x => decide (sz ≤ h.size x)).getD 0) :=
  firstFit_spec hb.chain (hb.length_lt hfit)

end

end ToeS.Kheap
