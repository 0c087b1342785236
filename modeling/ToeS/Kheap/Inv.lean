import ToeS.Kheap.Bins
import ToeS.Lib.Tiling

/-!
# The heap invariant

`Rep h bs L` ties the heap `h` of `kern/mm/kheap.c` to an abstract picture of it: the blocks `bs` in
address order, each either in a bin or not, and the contents `L` of the nine bins. Header sizes and
footers agree with the picture, the blocks tile the heap, and each bin is a sorted linked list of
the blocks whose size it is for.

A block that is in no bin is called `live` here. Inside `kheap_alloc` and `kheap_free` this also
covers a block that has been taken out of its bin and is not yet handed out or merged.
-/

namespace ToeS.Kheap
open Lib

/-- `KHEAP_START` as a number. -/
lemma kheapStart_eq : kheapStart = 3489660928 := rfl

/-- `KHEAP_END` as a number. -/
lemma kheapEnd_eq : kheapEnd = 3490709504 := rfl

/-- A header of 16 bytes and a footer of 4. -/
lemma blckOverhead_eq : blckOverhead = 20 := rfl

/-- `BIN_CNT` as a number. -/
lemma binCnt_eq : binCnt = 9 := rfl

/-- A block of the heap. -/
structure Blk where
  addr : Nat
  size : Nat
  live : Bool
  deriving DecidableEq

namespace Blk

/-- The address behind the footer. -/
def stop (b : Blk) : Nat := b.addr + b.size + 20

/-- No block is empty. -/
lemma addr_lt_stop (b : Blk) : b.addr < b.stop := by unfold stop; omega

/-- The address of the footer. -/
def foot (b : Blk) : Nat := b.addr + 16 + b.size

/-- The bytes of a block, header and footer included. -/
def Inside (b : Blk) (x : Nat) : Prop := Bytes b.addr b.stop x

/-- The size field and the footer say what the block is. -/
structure InMem (h : Heap) (b : Blk) : Prop where
  size : h.size b.addr = b.size
  foot : h.header b.foot = b.addr

/-- The bytes in which a block keeps its size, and its footer. -/
def Fields (b : Blk) (x : Nat) : Prop := Bytes (b.addr + 4) (b.addr + 8) x ∨ Bytes b.foot b.stop x

/-- The flag of a block lies in the block. -/
lemma inside_hole (b : Blk) (x : Nat) (hx : Bytes b.addr (b.addr + 1) x) : b.Inside x := by
  unfold Inside stop Bytes at *
  omega

/-- The size of a block lies in the block. -/
lemma inside_size (b : Blk) (x : Nat) (hx : Bytes (b.addr + 4) (b.addr + 8) x) : b.Inside x := by
  unfold Inside stop Bytes at *
  omega

/-- The footer of a block lies in the block. -/
lemma inside_foot (b : Blk) (x : Nat) (hx : Bytes b.foot b.stop x) : b.Inside x := by
  unfold Inside foot stop Bytes at *
  omega

end Blk

/-- `create_foot` completes a block whose size field is written. -/
lemma createFoot_spec {h : Heap} {b : Blk} (hsize : h.size b.addr = b.size)
    (hfit : b.stop ≤ 4294967296) :
    b.InMem (createFoot h b.addr) ∧ Edit (Bytes b.foot b.stop) h (createFoot h b.addr) := by
  unfold Blk.stop at hfit
  have hfoot : getFoot h b.addr = b.foot := by
    rw [getFoot, hsize, u32_eq (by simp only [blockSz]; omega)]
    rfl
  have hstop : b.stop = b.foot + 4 := by unfold Blk.foot Blk.stop; omega
  have hbf : b.foot + 4 ≤ 4294967296 := by unfold Blk.foot; omega
  have e : Edit (Bytes b.foot b.stop) h (h.setHeader b.foot b.addr) := hstop ▸ .setHeader hbf
  rw [createFoot, hfoot]
  refine ⟨⟨?_, header_setHeader hbf (by omega)⟩, e⟩
  rw [e.size (by omega), hsize]
  unfold Blk.foot Bytes
  omega

/-- A block survives an edit off its fields. -/
lemma Blk.InMem.edit {h h' : Heap} {b : Blk} {W : Nat → Prop} (hb : b.InMem h) (e : Edit W h h')
    (hfit : b.stop ≤ 4294967296) (hW : ∀ x, b.Fields x → ¬ W x) : b.InMem h' where
  size := by
    rw [e.size (by unfold Blk.stop at hfit; omega) fun x hx => hW x (.inl hx), hb.size]
  foot := by
    have hstop : b.foot + 4 = b.stop := by unfold Blk.foot Blk.stop; omega
    rw [e.header (by omega) fun x hx => hW x (.inr (hstop ▸ hx)), hb.foot]

/-- Writing size, hole byte and footer of a block. -/
lemma stamp_spec {h h' : Heap} {b : Blk} {v : UInt8} (hfit : b.stop ≤ 4294967296)
    (e : h' = createFoot ((h.setSize b.addr b.size).setHole b.addr v) b.addr) :
    b.InMem h' ∧ h'.hole b.addr = v ∧ Edit b.Inside h h' ∧ h'.bins = h.bins := by
  have hfit' : b.addr + b.size + 20 ≤ 4294967296 := hfit
  have e₁ : Edit (Bytes (b.addr + 4) (b.addr + 8)) h (h.setSize b.addr b.size) :=
    .setSize (by omega)
  have e₂ : Edit (Bytes b.addr (b.addr + 1)) (h.setSize b.addr b.size)
      ((h.setSize b.addr b.size).setHole b.addr v) := .setHole (by omega)
  have s₂ : ((h.setSize b.addr b.size).setHole b.addr v).size b.addr = b.size := by
    rw [e₂.size (by omega) (by unfold Bytes; omega), size_setSize (by omega) (by omega)]
  obtain ⟨m₃, e₃⟩ := createFoot_spec s₂ hfit
  rw [← e] at m₃ e₃
  refine ⟨m₃, ?_, ?_, by rw [e]; rfl⟩
  · rw [e₃.hole (by omega) (by unfold Blk.foot Bytes; omega), hole_setHole (by omega)]
  · exact ((e₁.mono b.inside_size).trans (e₂.mono b.inside_hole)).trans (e₃.mono b.inside_foot)

/-- Writing size, footer and hole byte of a block. -/
lemma stamp_spec' {h h' : Heap} {b : Blk} {v : UInt8} (hfit : b.stop ≤ 4294967296)
    (e : h' = (createFoot (h.setSize b.addr b.size) b.addr).setHole b.addr v) :
    b.InMem h' ∧ h'.hole b.addr = v ∧ Edit b.Inside h h' ∧ h'.bins = h.bins := by
  have hfit' : b.addr + b.size + 20 ≤ 4294967296 := hfit
  have e₁ : Edit (Bytes (b.addr + 4) (b.addr + 8)) h (h.setSize b.addr b.size) :=
    .setSize (by omega)
  obtain ⟨m₂, e₂⟩ := createFoot_spec (h := h.setSize b.addr b.size) (b := b)
    (size_setSize (by omega) (by omega)) hfit
  have e₃ : Edit (Bytes b.addr (b.addr + 1)) (createFoot (h.setSize b.addr b.size) b.addr) h' :=
    e ▸ .setHole (by omega)
  refine ⟨⟨?_, ?_⟩, e ▸ hole_setHole (by omega), ?_, by rw [e]; rfl⟩
  · rw [e₃.size (by omega) (by unfold Bytes; omega), m₂.size]
  · rw [e₃.header (by unfold Blk.foot; omega) (by unfold Blk.foot Bytes; omega), m₂.foot]
  · exact ((e₁.mono b.inside_size).trans (e₂.mono b.inside_foot)).trans (e₃.mono b.inside_hole)

/-! ## All bins together -/

/-- The bins of the heap hold the blocks `L`, no block twice and no two overlapping. -/
structure Bins (h : Heap) (L : Fin binCnt → List Nat) : Prop where
  bin : ∀ i, IsBin h i (L i)
  fits : ∀ i, ∀ a ∈ L i, a + 16 ≤ 4294967296
  apart : ∀ i k, ∀ a ∈ L i, ∀ c ∈ L k, Apart a c
  disj : ∀ i k a, a ∈ L i → a ∈ L k → i = k

/-- Every bin is sorted by `f`. -/
def Sorted (f : Nat → Nat) (L : Fin binCnt → List Nat) : Prop :=
  ∀ i, (L i).Pairwise fun a c => f a ≤ f c

/-- Whether bins are sorted depends on the sizes of their blocks. -/
lemma Sorted.congr {f g : Nat → Nat} {L : Fin binCnt → List Nat} (hs : Sorted f L)
    (hfg : ∀ k, ∀ a ∈ L k, g a = f a) : Sorted g L := by
  intro i
  refine (hs i).imp_of_mem fun {a c} ha hc hac => ?_
  rwa [hfg i a ha, hfg i c hc]

/-- No binned block lies in `c`. -/
def Off (L : Fin binCnt → List Nat) (c : Blk) : Prop :=
  ∀ k, ∀ a ∈ L k, a + 16 ≤ c.addr ∨ c.stop ≤ a

/-- Inserting a block behind the ones that are at most as large keeps a bin sorted. -/
lemma sorted_insert {f : Nat → Nat} {b : Nat} {pre post : List Nat}
    (hs : (pre ++ post).Pairwise fun a c => f a ≤ f c) (hpre : ∀ x ∈ pre, f x ≤ f b)
    (hpost : ∀ x ∈ post.head?, f b < f x) :
    (pre ++ b :: post).Pairwise fun a c => f a ≤ f c := by
  obtain ⟨h₁, h₂, h₃⟩ := List.pairwise_append.mp hs
  refine List.pairwise_append.mpr ⟨h₁, List.pairwise_cons.mpr ⟨?_, h₂⟩, ?_⟩
  · intro x hx
    cases post with
    | nil => cases hx
    | cons a post =>
      have ha := hpost a rfl
      rcases List.mem_cons.mp hx with rfl | hx
      · exact ha.le
      · exact ha.le.trans (List.rel_of_pairwise_cons h₂ hx)
  · intro x hx y hy
    rcases List.mem_cons.mp hy with rfl | hy
    · exact hpre x hx
    · exact h₃ x hx y hy

/-- The bins once `b` has been added to bin `i`, behind all blocks that are at most as large. -/
def putIn (f : Nat → Nat) (i : Fin binCnt) (b : Nat) (L : Fin binCnt → List Nat) :
    Fin binCnt → List Nat :=
  Function.update L i ((L i).orderedInsert (fun a c => f a < f c) b)

/-- The bins once `b` has been taken out of bin `i`. -/
def takeOut (i : Fin binCnt) (b : Nat) (L : Fin binCnt → List Nat) : Fin binCnt → List Nat :=
  Function.update L i ((L i).erase b)

/-- Where `add_block_sorted` puts a block. -/
lemma orderedInsert_middle {f : Nat → Nat} {b : Nat} {pre post : List Nat}
    (hpre : ∀ x ∈ pre, f x ≤ f b) (hpost : ∀ x ∈ post.head?, f b < f x) :
    (pre ++ post).orderedInsert (fun a c => f a < f c) b = pre ++ b :: post := by
  induction pre with
  | nil =>
    cases post with
    | nil => rfl
    | cons a post => exact if_pos (hpost a rfl)
  | cons a pre ih =>
    have ha : ¬ f b < f a := not_lt.mpr (hpre a (by simp))
    rw [List.cons_append, List.orderedInsert, if_neg ha,
      ih fun x hx => hpre x (List.mem_cons_of_mem a hx)]
    rfl

/-- Only the sizes of the blocks concerned matter. -/
lemma putIn_congr {f g : Nat → Nat} {i : Fin binCnt} {b : Nat} {L : Fin binCnt → List Nat}
    (hb : f b = g b) (hfg : ∀ a ∈ L i, f a = g a) : putIn f i b L = putIn g i b L := by
  have h : ∀ l : List Nat, (∀ a ∈ l, f a = g a) →
      l.orderedInsert (fun a c => f a < f c) b = l.orderedInsert (fun a c => g a < g c) b := by
    intro l hl
    induction l with
    | nil => rfl
    | cons a l ih =>
      rw [List.orderedInsert, List.orderedInsert, hb, hl a (by simp),
        ih fun x hx => hl x (List.mem_cons_of_mem a hx)]
  rw [putIn, putIn, h _ hfg]

/-- The window of all link fields of binned blocks. -/
def Links (L : Fin binCnt → List Nat) (x : Nat) : Prop := ∃ i, LinkOf (L i) x

namespace Bins
variable {h h' : Heap} {L : Fin binCnt → List Nat} {i : Fin binCnt} {b : Nat}

/-- The blocks of one bin do not overlap. -/
lemma spread (hB : Bins h L) (i : Fin binCnt) : Spread (L i) := ⟨hB.fits i, hB.apart i i⟩

/-- Bins survive an edit off their links that keeps the heads. -/
lemma edit {W : Nat → Prop} (hB : Bins h L) (e : Edit W h h') (hbins : h'.bins = h.bins)
    (hW : ∀ x, Links L x → ¬ W x) : Bins h' L where
  bin i := (hB.bin i).edit e (by rw [hbins]) (hB.fits i) fun b hb x hx => hW x ⟨i, b, hb, hx⟩
  fits := hB.fits
  apart := hB.apart
  disj := hB.disj

/-- The links of a block apart from `c` do not meet those of `c`. -/
lemma link_ne {a c x : Nat} (ha : Apart a c) (hne : a ≠ c) (hx : Bytes (a + 8) (a + 16) x) :
    ¬ Bytes (c + 8) (c + 16) x := by
  unfold Apart Bytes at *
  omega

/-- Adding a block to its bin. -/
lemma add (hB : Bins h L) (hfit : b + 16 ≤ 4294967296) (hap : ∀ k, ∀ a ∈ L k, Apart b a)
    (hm : ∀ k, b ∉ L k) (h0 : b ≠ 0) :
    ∃ h' L', addBlockSorted h i b = .ok h' ∧ Bins h' L' ∧
      (∀ k a, a ∈ L' k ↔ a ∈ L k ∨ a = b ∧ k = i) ∧ (Sorted h.size L → Sorted h.size L') ∧
      Edit (fun x => Bytes (b + 8) (b + 16) x ∨ Links L x) h h' ∧ L' = putIn h.size i b L := by
  have hs : Spread (b :: L i) := by
    refine ⟨fun a ha => ?_, fun a ha c hc => ?_⟩
    · rcases List.mem_cons.mp ha with rfl | ha
      · exact hfit
      · exact hB.fits i a ha
    · rcases List.mem_cons.mp ha with rfl | ha' <;> rcases List.mem_cons.mp hc with rfl | hc'
      · exact .inl rfl
      · exact hap i c hc'
      · exact (hap i a ha').symm
      · exact hB.apart i i a ha' c hc'
  obtain ⟨h', pre, post, hrun, hl, hpre, hpost, hbin, hbins, e⟩ :=
    addBlockSorted_spec (hB.bin i) hs (hm i) h0
  have hmem : ∀ k a, a ∈ Function.update L i (pre ++ b :: post) k ↔ a ∈ L k ∨ a = b ∧ k = i := by
    intro k a
    by_cases hk : k = i
    · subst hk
      rw [Function.update_self, hl]
      simp only [List.mem_append, List.mem_cons]
      tauto
    · rw [Function.update_of_ne hk]
      simp [hk]
  have e' : Edit (fun x => Bytes (b + 8) (b + 16) x ∨ Links L x) h h' := by
    refine e.mono ?_
    rintro x ⟨c, hc, hx⟩
    rcases List.mem_cons.mp hc with rfl | hc
    · exact .inl hx
    · exact .inr ⟨i, c, hc, hx⟩
  refine ⟨h', _, hrun, ⟨fun k => ?_, fun k a ha => ?_, fun k k' a ha c hc => ?_,
    fun k k' a ha ha' => ?_⟩, hmem, fun hsrt k => ?_, e', ?_⟩
  · by_cases hk : k = i
    · subst hk
      rw [Function.update_self]
      exact hbin
    · rw [Function.update_of_ne hk]
      refine (hB.bin k).edit e (hbins k hk) (hB.fits k) ?_
      rintro a ha x hx ⟨c, hc, hx'⟩
      have hne : a ≠ c := by
        rintro rfl
        rcases List.mem_cons.mp hc with rfl | hc
        · exact hm k ha
        · exact hk (hB.disj k i a ha hc)
      refine link_ne ?_ hne hx hx'
      rcases List.mem_cons.mp hc with rfl | hc
      · exact (hap k a ha).symm
      · exact hB.apart k i a ha c hc
  · rcases (hmem k a).mp ha with ha | ⟨rfl, -⟩
    · exact hB.fits k a ha
    · exact hfit
  · rcases (hmem k a).mp ha with ha₁ | ⟨rfl, -⟩ <;> rcases (hmem k' c).mp hc with hc₁ | ⟨rfl, -⟩
    · exact hB.apart k k' a ha₁ c hc₁
    · exact (hap k a ha₁).symm
    · exact hap k' c hc₁
    · exact .inl rfl
  · rcases (hmem k a).mp ha with ha₁ | ⟨rfl, rfl⟩ <;> rcases (hmem k' a).mp ha' with ha₂ | ⟨e, e'⟩
    · exact hB.disj k k' a ha₁ ha₂
    · exact absurd (e ▸ ha₁) (hm k)
    · exact absurd ha₂ (hm k')
    · exact e'.symm
  · by_cases hk : k = i
    · subst hk
      rw [Function.update_self]
      exact sorted_insert (hl ▸ hsrt k) hpre hpost
    · rw [Function.update_of_ne hk]
      exact hsrt k
  · rw [putIn, hl, orderedInsert_middle hpre hpost]

/-- An edit inside a block off the binned ones. -/
lemma edit_off {c : Blk} (hB : Bins h L) (e : Edit c.Inside h h') (hbins : h'.bins = h.bins)
    (hoff : Off L c) : Bins h' L ∧ (Sorted h.size L → Sorted h'.size L) := by
  refine ⟨hB.edit e hbins ?_, fun hs => hs.congr fun k a ha => ?_⟩
  · rintro x ⟨k, a, ha, hx⟩ hw
    have := hoff k a ha
    unfold Blk.Inside Bytes at *
    omega
  · have := hB.fits k a ha
    have := hoff k a ha
    refine e.size (by omega) fun x hx hw => ?_
    unfold Blk.Inside Bytes at *
    omega

/-- Putting a block into its bin, once `h₁` is `h` with its header and footer written. -/
lemma make {h₁ : Heap} {c : Blk} {v : UInt8} (hB : Bins h L) (hs : Sorted h.size L)
    (hst : c.InMem h₁ ∧ h₁.hole c.addr = v ∧ Edit c.Inside h h₁ ∧ h₁.bins = h.bins)
    (hfit : c.stop ≤ 4294967296) (h0 : c.addr ≠ 0) (hoff : Off L c) :
    ∃ h' L', addBlockSorted h₁ (getBinIndex (h₁.size c.addr)) c.addr = .ok h' ∧ Bins h' L' ∧
      (∀ k a, a ∈ L' k ↔ a ∈ L k ∨ a = c.addr ∧ k = getBinIndex c.size) ∧
      Sorted h'.size L' ∧ c.InMem h' ∧ h'.hole c.addr = v ∧
      Edit (fun x => c.Inside x ∨ Links L x) h h' ∧
      L' = putIn h₁.size (getBinIndex c.size) c.addr L := by
  obtain ⟨m₁, o₁, e₁, b₁⟩ := hst
  obtain ⟨hB₁, hs₁⟩ := hB.edit_off e₁ b₁ hoff
  have hlt := c.addr_lt_stop
  have hstop : c.stop = c.addr + c.size + 20 := rfl
  have hap : ∀ k, ∀ a ∈ L k, Apart c.addr a := fun k a ha => by
    have := hoff k a ha
    unfold Apart
    omega
  obtain ⟨h', L', hrun, hB', hmem, hsort, e, hL⟩ := hB₁.add (i := getBinIndex c.size) (b := c.addr)
    (by omega) hap (fun k hk => by have := hoff k _ hk; omega) h0
  have hout : ∀ x, c.Fields x ∨ x = c.addr →
      ¬ (Bytes (c.addr + 8) (c.addr + 16) x ∨ Links L x) := by
    rintro x hx (hw | ⟨k, a, ha, hw⟩)
    · unfold Blk.Fields Blk.foot Bytes at *
      omega
    · have := hoff k a ha
      unfold Blk.Fields Blk.foot Bytes at *
      omega
  have hsize : ∀ k, ∀ a ∈ L' k, h'.size a = h₁.size a := by
    intro k a ha
    refine e.size (by have := hB'.fits k a ha; omega) fun x hx hw => ?_
    have hac : Apart a c.addr := by
      rcases (hmem k a).mp ha with ha | ⟨rfl, -⟩
      · exact (hap k a ha).symm
      · exact .inl rfl
    rcases hw with hw | ⟨k', a', ha', hw⟩
    · unfold Apart Bytes at *
      omega
    · have haa : Apart a a' := by
        rcases (hmem k a).mp ha with ha | ⟨rfl, -⟩
        · exact hB₁.apart k k' a ha a' ha'
        · exact hap k' a' ha'
      unfold Apart Bytes at *
      omega
  have hw : ∀ x, Bytes (c.addr + 8) (c.addr + 16) x ∨ Links L x → c.Inside x ∨ Links L x := by
    rintro x (hx | hx)
    · left
      unfold Blk.Inside Bytes at *
      omega
    · exact .inr hx
  refine ⟨h', L', by rw [m₁.size]; exact hrun, hB', hmem, (hsort (hs₁ hs)).congr hsize,
    m₁.edit e hfit fun x hx => hout x (.inl hx), ?_, (e₁.mono fun _ => .inl).trans (e.mono hw), hL⟩
  rw [e.hole (by omega) (hout _ (.inr rfl)), o₁]

/-- All bins, once one of them has lost a block. -/
lemma erase (hB : Bins h L) (hb : b ∈ L i) (hbin : IsBin h' i ((L i).erase b))
    (hbins : ∀ j, j ≠ i → h'.bins j = h.bins j) (e : Edit (LinkOf (L i)) h h') :
    Bins h' (takeOut i b L) ∧ (∀ k a, a ∈ takeOut i b L k ↔ a ∈ L k ∧ a ≠ b) ∧
      (∀ f, Sorted f L → Sorted f (takeOut i b L)) ∧ Edit (Links L) h h' := by
  have hmem : ∀ k a, a ∈ takeOut i b L k ↔ a ∈ L k ∧ a ≠ b := by
    intro k a
    unfold takeOut
    by_cases hk : k = i
    · subst hk
      rw [Function.update_self, List.Nodup.mem_erase_iff (hB.bin _).chain.nodup, and_comm]
    · rw [Function.update_of_ne hk, iff_self_and]
      rintro ha rfl
      exact hk (hB.disj _ _ _ ha hb)
  refine ⟨⟨fun k => ?_, fun k a ha => hB.fits k a ((hmem k a).mp ha).1,
    fun k k' a ha c hc => hB.apart k k' a ((hmem k a).mp ha).1 c ((hmem k' c).mp hc).1,
    fun k k' a ha ha' => hB.disj k k' a ((hmem k a).mp ha).1 ((hmem k' a).mp ha').1⟩, hmem,
    fun f hsrt k => ?_, e.mono fun x hx => ⟨i, hx⟩⟩
  · unfold takeOut
    by_cases hk : k = i
    · subst hk
      rw [Function.update_self]
      exact hbin
    · rw [Function.update_of_ne hk]
      refine (hB.bin k).edit e (hbins k hk) (hB.fits k) ?_
      rintro a ha x hx ⟨c, hc, hx'⟩
      exact link_ne (hB.apart k i a ha c hc) (fun e => hk (hB.disj k i a ha (e ▸ hc))) hx hx'
  · unfold takeOut
    by_cases hk : k = i
    · subst hk
      rw [Function.update_self]
      exact (hsrt k).sublist List.erase_sublist
    · rw [Function.update_of_ne hk]
      exact hsrt k

/-- Removing a block from its bin. -/
lemma remove (hB : Bins h L) (hb : b ∈ L i) :
    ∃ h' L', removeBlock h i b = .ok h' ∧ Bins h' L' ∧ (∀ k a, a ∈ L' k ↔ a ∈ L k ∧ a ≠ b) ∧
      (∀ f, Sorted f L → Sorted f L') ∧ Edit (Links L) h h' ∧ L' = takeOut i b L := by
  obtain ⟨h', hrun, hbin, hbins, e⟩ := removeBlock_spec (hB.bin i) (hB.spread i) hb
  obtain ⟨hB', hmem, hsrt, e'⟩ := hB.erase hb hbin hbins e
  exact ⟨h', _, hrun, hB', hmem, hsrt, e', rfl⟩

end Bins

/-! ## The invariant -/

/-- Some free block of `bs` is at `a` and belongs in bin `i`. -/
def FreeAt (bs : List Blk) (i : Fin binCnt) (a : Nat) : Prop :=
  ∃ b ∈ bs, b.addr = a ∧ b.live = false ∧ getBinIndex b.size = i

/-- The free blocks are those beside one block, and the block if it is free. -/
lemma freeAt_middle {pre post : List Blk} {b : Blk} {i : Fin binCnt} {a : Nat} :
    FreeAt (pre ++ b :: post) i a ↔
      FreeAt (pre ++ post) i a ∨ b.addr = a ∧ b.live = false ∧ getBinIndex b.size = i := by
  unfold FreeAt
  constructor
  · rintro ⟨c, hc, h⟩
    rcases List.mem_append.mp hc with hc | hc
    · exact .inl ⟨c, by simp [hc], h⟩
    · rcases List.mem_cons.mp hc with rfl | hc
      · exact .inr h
      · exact .inl ⟨c, by simp [hc], h⟩
  · rintro (⟨c, hc, h⟩ | h)
    · exact ⟨c, by simp at hc ⊢; tauto, h⟩
    · exact ⟨b, by simp, h⟩

/-- A block beside another is in the list. -/
lemma mem_middle {pre post : List Blk} {b c : Blk} (hc : c ∈ pre ++ post) : c ∈ pre ++ b :: post := by
  simp at hc ⊢
  tauto

/-- A block of the list other than one is beside it. -/
lemma mem_of_middle {pre post : List Blk} {b c : Blk} (hc : c ∈ pre ++ b :: post) (hne : c ≠ b) :
    c ∈ pre ++ post := by
  simp at hc ⊢
  tauto

/-- The heap `h` consists of the blocks `bs`, and its bins hold `L`. -/
structure Rep (h : Heap) (bs : List Blk) (L : Fin binCnt → List Nat) : Prop where
  start : h.start = kheapStart
  end_ : h.end_ = kheapEnd
  tiles : Tiles Blk.addr Blk.stop kheapStart bs kheapEnd
  inMem : ∀ b ∈ bs, b.InMem h
  bin : ∀ i, IsBin h i (L i)
  mem_iff : ∀ i a, a ∈ L i ↔ FreeAt bs i a
  sorted : Sorted h.size L

/-- The size of the block at an address. -/
def sizeIn (bs : List Blk) (a : Nat) : Nat := ((bs.find? fun b => b.addr = a).map Blk.size).getD 0

/-- The bytes of the free blocks of `bs`. -/
def FreeIn (bs : List Blk) (x : Nat) : Prop := ∃ b ∈ bs, b.live = false ∧ b.Inside x

namespace Rep
variable {h h' : Heap} {bs pre post : List Blk} {L : Fin binCnt → List Nat} {b c : Blk}

/-- Every block lies in the heap. -/
lemma bounds (R : Rep h bs L) (hb : b ∈ bs) : 3489660928 ≤ b.addr ∧ b.stop ≤ 3490709504 :=
  R.tiles.bounds Blk.addr_lt_stop hb

/-- Two blocks do not overlap. -/
lemma apart (R : Rep h bs L) (hb : b ∈ bs) (hc : c ∈ bs) :
    b = c ∨ b.stop ≤ c.addr ∨ c.stop ≤ b.addr :=
  R.tiles.apart Blk.addr_lt_stop hb hc

/-- A block is known by its address. -/
lemma eq_of_addr (R : Rep h bs L) (hb : b ∈ bs) (hc : c ∈ bs) (e : b.addr = c.addr) : b = c :=
  R.tiles.eq_of_lo Blk.addr_lt_stop hb hc e

/-- The other blocks lie off `b`. -/
lemma around (R : Rep h (pre ++ b :: post) L) (hc : c ∈ pre ++ post) :
    c.stop ≤ b.addr ∨ b.stop ≤ c.addr := by
  obtain ⟨h₁, h₂⟩ := R.tiles.around Blk.addr_lt_stop
  rcases List.mem_append.mp hc with hc | hc
  · exact .inl (h₁ c hc)
  · exact .inr (h₂ c hc)

/-- The list of blocks says how large each block is. -/
lemma sizeIn_eq (R : Rep h bs L) (hb : b ∈ bs) : sizeIn bs b.addr = b.size := by
  have hf : ∃ c, bs.find? (fun c => c.addr = b.addr) = some c :=
    Option.isSome_iff_exists.mp (List.find?_isSome.mpr ⟨b, hb, by simp⟩)
  obtain ⟨c, hc⟩ := hf
  have hcb : c = b := R.eq_of_addr (List.mem_of_find?_eq_some hc) hb (by
    simpa using List.find?_some hc)
  rw [sizeIn, hc, hcb]
  rfl

/-- The blocks in the bins are far enough apart. -/
lemma bins (R : Rep h bs L) : Bins h L where
  bin := R.bin
  fits i a ha := by
    obtain ⟨b, hb, rfl, -, -⟩ := (R.mem_iff i a).mp ha
    have := R.bounds hb
    have := b.addr_lt_stop
    omega
  apart i k a ha c hc := by
    obtain ⟨b, hb, rfl, -, -⟩ := (R.mem_iff i a).mp ha
    obtain ⟨d, hd, rfl, -, -⟩ := (R.mem_iff k c).mp hc
    have := R.apart hb hd
    unfold Apart
    unfold Blk.stop at this
    rcases this with rfl | h | h <;> omega
  disj i k a ha ha' := by
    obtain ⟨b, hb, rfl, -, hi⟩ := (R.mem_iff i a).mp ha
    obtain ⟨d, hd, e, -, hk⟩ := (R.mem_iff k b.addr).mp ha'
    rw [← hi, ← hk, R.eq_of_addr hd hb e]

/-- A free block is in the bin of its size. -/
lemma mem_bin (R : Rep h bs L) (hb : b ∈ bs) (hf : b.live = false) :
    b.addr ∈ L (getBinIndex b.size) :=
  (R.mem_iff _ _).mpr ⟨b, hb, rfl, hf, rfl⟩

/-- A live block is in no bin. -/
lemma not_mem_bin (R : Rep h bs L) (hb : b ∈ bs) (hl : b.live = true) (i : Fin binCnt) :
    b.addr ∉ L i := by
  intro ha
  obtain ⟨c, hc, e, hf, -⟩ := (R.mem_iff i _).mp ha
  rw [R.eq_of_addr hc hb e, hl] at hf
  cases hf

/-- A block header does not meet the links of a different binned block. -/
lemma link_apart (R : Rep h bs L) (hb : b ∈ bs) {i : Fin binCnt} {a : Nat} (ha : a ∈ L i) :
    Apart b.addr a :=  by
  obtain ⟨c, hc, rfl, -, -⟩ := (R.mem_iff i a).mp ha
  have := R.apart hb hc
  unfold Apart
  unfold Blk.stop at this
  rcases this with rfl | h | h <;> omega

/-- Links of binned blocks lie inside free blocks. -/
lemma of_links (R : Rep h bs L) {x : Nat} (hx : Links L x) :
    ∃ b ∈ bs, b.live = false ∧ Bytes (b.addr + 8) (b.addr + 16) x := by
  obtain ⟨i, a, ha, hx⟩ := hx
  obtain ⟨b, hb, rfl, hf, -⟩ := (R.mem_iff i a).mp ha
  exact ⟨b, hb, hf, hx⟩

/-- The links of the bins lie in free blocks. -/
lemma links_freeIn (R : Rep h bs L) {x : Nat} (hx : Links L x) : FreeIn bs x := by
  obtain ⟨b, hb, hf, hx⟩ := R.of_links hx
  refine ⟨b, hb, hf, ?_⟩
  unfold Blk.Inside Blk.stop Bytes at *
  omega

/-- The size field and the footer of a block are no links. -/
lemma fields_not_links (R : Rep h bs L) (hb : b ∈ bs) {x : Nat} (hx : b.Fields x) :
    ¬ Links L x := by
  intro hl
  obtain ⟨c, hc, -, hx'⟩ := R.of_links hl
  have := R.apart hb hc
  unfold Blk.Fields Blk.foot Blk.stop Bytes at *
  rcases this with rfl | h | h <;> omega

/-- Outside a block and the links, no field of another block is found. -/
lemma fields_off (R : Rep h (pre ++ b :: post) L) (hc : c ∈ pre ++ post) {x : Nat}
    (hx : c.Fields x) : ¬ (b.Inside x ∨ Links L x) := by
  rintro (hi | hl)
  · have := R.around hc
    unfold Blk.Fields Blk.Inside Blk.foot Blk.stop Bytes at *
    omega
  · exact R.fields_not_links (by simp at hc ⊢; tauto) hx hl

end Rep

/-! ## Changes of the abstract picture -/

namespace Rep
variable {h h' : Heap} {bs pre post : List Blk} {L : Fin binCnt → List Nat} {b c : Blk}

/-- Sizes are the abstract ones, so a sorted bin stays sorted while they are in memory. -/
lemma sorted_congr {bs' : List Blk} {f g : Nat → Nat} (hs : Sorted f L)
    (hmem : ∀ i a, a ∈ L i → ∃ b ∈ bs', b.addr = a) (hf : ∀ b ∈ bs', f b.addr = b.size)
    (hg : ∀ b ∈ bs', g b.addr = b.size) : Sorted g L := by
  intro i
  refine (hs i).imp_of_mem fun {a c} ha hc hac => ?_
  obtain ⟨b, hb, rfl⟩ := hmem i a ha
  obtain ⟨d, hd, rfl⟩ := hmem i c hc
  rw [hf b hb, hf d hd] at hac
  rwa [hg b hb, hg d hd]

/-- What is in a bin is a block. -/
lemma blk_of_mem (R : Rep h bs L) (i : Fin binCnt) (a : Nat) (ha : a ∈ L i) :
    ∃ b ∈ bs, b.addr = a := by
  obtain ⟨b, hb, e, -⟩ := (R.mem_iff i a).mp ha
  exact ⟨b, hb, e⟩

/-- An edit that misses every size, footer and link keeps the invariant. -/
lemma edit {W : Nat → Prop} (R : Rep h bs L) (e : Edit W h h') (hbins : h'.bins = h.bins)
    (hW : ∀ b ∈ bs, ∀ x, b.Fields x → ¬ W x) (hlinks : ∀ x, Links L x → ¬ W x) :
    Rep h' bs L := by
  have hin : ∀ b ∈ bs, b.InMem h' := fun b hb =>
    (R.inMem b hb).edit e (by have := R.bounds hb; omega) (hW b hb)
  exact ⟨e.start.trans R.start, e.end_.trans R.end_, R.tiles, hin,
    (R.bins.edit e hbins hlinks).bin, R.mem_iff,
    sorted_congr R.sorted R.blk_of_mem (fun b hb => (R.inMem b hb).size) fun b hb => (hin b hb).size⟩

/-- Taking a free block out of its bin. -/
lemma remove (R : Rep h (pre ++ b :: post) L) (hf : b.live = false) :
    ∃ h' L', removeBlock h (getBinIndex b.size) b.addr = .ok h' ∧
      Rep h' (pre ++ { b with live := true } :: post) L' ∧ Edit (Links L) h h' ∧
      L' = takeOut (getBinIndex b.size) b.addr L := by
  have hb : b ∈ pre ++ b :: post := by simp
  obtain ⟨h', L', hrun, hB, hmem, hsort, e, hL⟩ := R.bins.remove (R.mem_bin hb hf)
  have hin : ∀ c ∈ pre ++ b :: post, c.InMem h' := fun c hc =>
    (R.inMem c hc).edit e (by have := R.bounds hc; omega) fun x hx => R.fields_not_links hc hx
  refine ⟨h', L', hrun, ⟨e.start.trans R.start, e.end_.trans R.end_, ?_, fun c hc => ?_, hB.bin,
    fun k a => ?_, ?_⟩, e, hL⟩
  · obtain ⟨t₁, t₂⟩ := tiles_middle.mp R.tiles
    exact tiles_middle.mpr ⟨t₁, t₂⟩
  · by_cases hcb : c = { b with live := true }
    · have := hin b hb
      rw [hcb]
      exact ⟨this.size, this.foot⟩
    · exact hin c (by simp at hc ⊢; tauto)
  · rw [hmem, R.mem_iff, freeAt_middle, freeAt_middle]
    constructor
    · rintro ⟨h | ⟨e, -, -⟩, hne⟩
      · exact .inl h
      · exact absurd e.symm hne
    · rintro (⟨c, hc, rfl, h⟩ | ⟨-, h, -⟩)
      · refine ⟨.inl ⟨c, hc, rfl, h⟩, fun e => ?_⟩
        have := R.around hc
        unfold Blk.stop at this
        omega
      · cases h
  · exact sorted_congr (hsort _ R.sorted) (fun i a ha => R.blk_of_mem i a ((hmem i a).mp ha).1)
      (fun c hc => (R.inMem c hc).size) fun c hc => (hin c hc).size

/-- Putting a block that is in no bin into the bin of its size. -/
lemma add (R : Rep h (pre ++ b :: post) L) (hl : b.live = true) :
    ∃ h' L', addBlockSorted h (getBinIndex b.size) b.addr = .ok h' ∧
      Rep h' (pre ++ { b with live := false } :: post) L' ∧
      Edit (fun x => Bytes (b.addr + 8) (b.addr + 16) x ∨ Links L x) h h' ∧
      L' = putIn (sizeIn (pre ++ b :: post)) (getBinIndex b.size) b.addr L := by
  have hb : b ∈ pre ++ b :: post := by simp
  have hbd := R.bounds hb
  have hlt := b.addr_lt_stop
  obtain ⟨h', L', hrun, hB, hmem, hsort, e, hL⟩ := R.bins.add (i := getBinIndex b.size)
    (b := b.addr) (by omega) (fun k a ha => R.link_apart hb ha) (R.not_mem_bin hb hl) (by omega)
  have hin : ∀ c ∈ pre ++ b :: post, c.InMem h' := fun c hc => by
    refine (R.inMem c hc).edit e (by have := R.bounds hc; omega) ?_
    rintro x hx (hx' | hx')
    · have := R.apart hc hb
      unfold Blk.Fields Blk.foot Blk.stop Bytes at *
      rcases this with rfl | h | h <;> omega
    · exact R.fields_not_links hc hx hx'
  refine ⟨h', L', hrun, ⟨e.start.trans R.start, e.end_.trans R.end_, ?_, fun c hc => ?_, hB.bin,
    fun k a => ?_, ?_⟩, e, hL.trans (putIn_congr ?_ fun a ha => ?_)⟩
  · obtain ⟨t₁, t₂⟩ := tiles_middle.mp R.tiles
    exact tiles_middle.mpr ⟨t₁, t₂⟩
  · by_cases hcb : c = { b with live := false }
    · have := hin b hb
      rw [hcb]
      exact ⟨this.size, this.foot⟩
    · exact hin c (by simp at hc ⊢; tauto)
  · rw [hmem, R.mem_iff, freeAt_middle, freeAt_middle]
    simp [hl, eq_comm]
  · refine sorted_congr (hsort R.sorted) (fun i a ha => ?_) (fun c hc => (R.inMem c hc).size)
      fun c hc => (hin c hc).size
    rcases (hmem i a).mp ha with ha | ⟨rfl, -⟩
    · exact R.blk_of_mem i a ha
    · exact ⟨b, hb, rfl⟩
  · rw [(R.inMem b hb).size, R.sizeIn_eq hb]
  · obtain ⟨c, hc, rfl⟩ := R.blk_of_mem _ a ha
    rw [(R.inMem c hc).size, R.sizeIn_eq hc]

/-- Joining two neighbours that are in no bin, by writes inside them. -/
lemma merge {W : Nat → Prop} {m : Blk} (R : Rep h (pre ++ b :: c :: post) L) (hb : b.live = true)
    (hc : c.live = true) (hm : m = ⟨b.addr, b.size + 20 + c.size, true⟩) (e : Edit W h h')
    (hbins : h'.bins = h.bins) (hW : ∀ x, W x → b.Inside x ∨ c.Inside x) (hin : m.InMem h') :
    Rep h' (pre ++ m :: post) L := by
  obtain ⟨t₁, hadj, t₂⟩ : Tiles Blk.addr Blk.stop kheapStart pre b.addr ∧ c.addr = b.stop ∧
      Tiles Blk.addr Blk.stop c.stop post kheapEnd := tiles_middle.mp R.tiles
  have hstop : m.stop = c.stop := by subst hm; unfold Blk.stop at *; simp only; omega
  have ht : Tiles Blk.addr Blk.stop kheapStart (pre ++ m :: post) kheapEnd := by
    refine tiles_middle.mpr ⟨?_, hstop ▸ t₂⟩
    rw [hm]
    exact t₁
  have hout : ∀ d ∈ pre ++ post, ∀ x, d.Inside x → ¬ W x := by
    intro d hd x hx hw
    obtain ⟨h₁, h₂⟩ := ht.around Blk.addr_lt_stop
    have hmb : m.addr = b.addr := by rw [hm]
    have hd' : d.stop ≤ b.addr ∨ c.stop ≤ d.addr := by
      rcases List.mem_append.mp hd with hd | hd
      · exact .inl (hmb ▸ h₁ d hd)
      · exact .inr (hstop ▸ h₂ d hd)
    have := b.addr_lt_stop
    have := c.addr_lt_stop
    rcases hW x hw with hx' | hx' <;> unfold Blk.Inside Bytes at * <;> omega
  have hfields : ∀ d ∈ pre ++ post, d.InMem h' := fun d hd => by
    have hd' : d ∈ pre ++ b :: c :: post := by simp at hd ⊢; tauto
    refine (R.inMem d hd').edit e (by have := R.bounds hd'; omega) fun x hx => hout d hd x ?_
    unfold Blk.Fields Blk.Inside Blk.foot Blk.stop Bytes at *
    omega
  have hfree : ∀ i a, FreeAt (pre ++ b :: c :: post) i a ↔ FreeAt (pre ++ post) i a := by
    intro i a
    rw [freeAt_middle, freeAt_middle]
    simp [hb, hc]
  refine ⟨e.start.trans R.start, e.end_.trans R.end_, ht, fun d hd => ?_, ?_, fun i a => ?_, ?_⟩
  · by_cases hdm : d = m
    · exact hdm ▸ hin
    · exact hfields d (by simp at hd ⊢; tauto)
  · refine (R.bins.edit e hbins fun x hx => ?_).bin
    obtain ⟨i, a, ha, hx⟩ := hx
    obtain ⟨d, hd, rfl, hf, -⟩ := (hfree i a).mp ((R.mem_iff i a).mp ha)
    refine hout d hd x ?_
    unfold Blk.Inside Blk.stop Bytes at *
    omega
  · rw [R.mem_iff, hfree, freeAt_middle]
    simp [hm]
  · refine sorted_congr R.sorted (fun i a ha => ?_) (fun d (hd : d ∈ pre ++ post) => ?_)
      fun d hd => (hfields d hd).size
    · obtain ⟨d, hd, hda, -⟩ := (hfree i a).mp ((R.mem_iff i a).mp ha)
      exact ⟨d, hd, hda⟩
    · exact (R.inMem d (by simp at hd ⊢; tauto)).size

end Rep

end ToeS.Kheap
