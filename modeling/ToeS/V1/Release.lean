import ToeS.Lib.Run
import ToeS.V1.Inv

/-!
# Releasing a block of the v1 heap

`free` (`v1/os/kheap.c`) joins a block with its free neighbours. With the block before it counts the
header and the footer in between; with the block behind it counts the header only, so the joined block
ends four bytes too early (`free_short`). Everything else that `free` writes are the flag of the block and
links of free blocks.
-/

namespace ToeS.V1
open Lib Kheap

/-! ## Putting a block into a bin -/

section
variable {h : Heap} {i : Fin binCnt} {node m : Nat} {l : List Nat} {L : Fin binCnt → List Nat}

/-- `add_node` follows the `next` links of its bin and writes links of the bin and of the node only. -/
lemma addNode_frame (hc : Chain 0 h.next (h.bins i) l) (hs : Spread (node :: l)) (hm : node ∉ l) :
    ∃ h', addNode h i node = .ok h' ∧ Edit (LinkOf (node :: l)) h h' := by
  obtain ⟨e, -, hnext, -⟩ := clearLinks_spec (h := h) hs hm
  have hc' : Chain 0 (clearLinks h node).next ((clearLinks h node).bins i) l := hc.congr hnext
  unfold addNode addBlockSorted
  by_cases hhead : (clearLinks h node).bins i = 0
  · simp only [if_pos hhead]
    exact ⟨_, rfl, e.trans .setHead⟩
  · have hlen : l.length < chainFuel := hc.length_lt (by decide) fun b hb => by
      have := hs.fits b (List.mem_cons_of_mem _ hb)
      unfold chainFuel
      omega
    obtain ⟨pre, post, rfl, -, -, hpos⟩ := sortedPos_spec node (p := 0) hc' hlen
    simp only [if_neg hhead, hpos]
    refine ⟨_, rfl, e.trans ?_⟩
    have hself : node ∈ node :: (pre ++ post) := List.mem_cons_self ..
    have hpre : pre ≠ [] → pre.getLastD 0 ∈ node :: (pre ++ post) := fun h => by
      rw [List.getLastD_eq_getLast?, List.getLast?_eq_some_getLast h, Option.getD_some]
      exact List.mem_cons_of_mem _ (List.mem_append_left _ (List.getLast_mem h))
    cases post with
    | nil =>
      have hne : pre ≠ [] := fun e => hhead (hc'.head_eq_null.mpr (by rw [e]; rfl))
      exact (Edit.setNext (hpre hne) hs).trans (.setPrev hself hs)
    | cons t post =>
      have ht : t ∈ node :: (pre ++ t :: post) := by simp
      have ht0 : t ≠ 0 := hc'.ne_null (by simp)
      rw [List.headD_cons, linkBetween, if_neg ht0]
      split
      · rename_i hp
        have hne : pre ≠ [] := fun e => hp (by rw [e]; rfl)
        exact (((Edit.setNext hself hs).trans (.setNext (hpre hne) hs)).trans (.setPrev hself hs)).trans
          (.setPrev ht hs)
      · rename_i hp
        have hnil : pre = [] := by
          by_contra hne
          refine hp fun h => hc'.ne_null (a := pre.getLastD 0) ?_ h
          rw [List.getLastD_eq_getLast?, List.getLast?_eq_some_getLast hne, Option.getD_some]
          exact List.mem_append_left _ (List.getLast_mem hne)
        subst hnil
        have hbin : (clearLinks h node).bins i = t := hc'.1
        simp only [bins_setNext, hbin]
        exact ((Edit.setNext hself hs).trans (.setPrev ht hs)).trans .setHead

/-- The end of `free`. -/
lemma close_spec (hc : ∀ i, Chain 0 h.next (h.bins i) (L i)) (hs : ∀ i, Spread (m :: L i))
    (hm : ∀ i, m ∉ L i) : ∃ h', addNode (setHole h m 1) (getBinIndex ((setHole h m 1).size m)) m =
        .ok h' ∧
      Edit (fun x => Bytes m (m + 4) x ∨ Bytes (m + 8) (m + 16) x ∨ Links L x) h h' := by
  have hfit := (hs (getBinIndex 0)).fits m (List.mem_cons_self ..)
  have e : Edit (Bytes m (m + 4)) h (setHole h m 1) := edit_setHole (by omega)
  have hc' : ∀ i, Chain 0 (setHole h m 1).next ((setHole h m 1).bins i) (L i) := by
    refine fun i => (hc i).congr fun a ha => e.next ((hs i).fits a (List.mem_cons_of_mem _ ha)) ?_
    have := (hs i).apart m (List.mem_cons_self ..) a (List.mem_cons_of_mem _ ha)
    have hne : m ≠ a := fun h => hm i (h ▸ ha)
    unfold Apart Bytes at *
    omega
  obtain ⟨h', hrun, e'⟩ := addNode_frame (hc' (getBinIndex ((setHole h m 1).size m))) (hs _) (hm _)
  refine ⟨h', hrun, (e.mono fun _ => .inl).trans (e'.mono ?_)⟩
  rintro x ⟨a, ha, hx⟩
  rcases List.mem_cons.mp ha with rfl | ha
  · exact .inr (.inl hx)
  · exact .inr (.inr ⟨_, a, ha, hx⟩)

end

/-! ## Joining with the block before -/

/-- The heap while the block `m` is in no bin and not yet joined with the blocks `rest` behind it. -/
structure Open (h : Heap) (front : List Blk) (m : Blk) (rest : List Blk)
    (L : Fin binCnt → List Nat) : Prop where
  tiles : Tiles Blk.addr Blk.stop h.start (front ++ m :: rest) h.end_
  pos : 0 < h.start
  lt : h.end_ < 4294967296
  inMem : ∀ c ∈ front ++ m :: rest, c.InMem h
  hole : ∀ c ∈ rest, (hole h c.addr = 0 ↔ c.live = true)
  bins : Bins h L
  free : ∀ i, ∀ a ∈ L i, ∃ c ∈ front ++ rest, c.addr = a ∧ c.live = false

section
variable {h : Heap} {pre post front rest : List Blk} {b n p m c : Blk} {L : Fin binCnt → List Nat}

namespace Open

/-- The other blocks lie before or behind the block that is released. -/
lemma around (O : Open h front m rest L) (hc : c ∈ front ++ rest) : c.stop ≤ m.addr ∨ m.stop ≤ c.addr := by
  obtain ⟨h₁, h₂⟩ := O.tiles.around Blk.addr_lt_stop
  rcases List.mem_append.mp hc with hc | hc
  · exact .inl (h₁ c hc)
  · exact .inr (h₂ c hc)

/-- The blocks lie in the heap. -/
lemma bounds (O : Open h front m rest L) (hc : c ∈ front ++ m :: rest) :
    h.start ≤ c.addr ∧ c.stop ≤ h.end_ :=
  O.tiles.bounds Blk.addr_lt_stop hc

/-- Two blocks do not overlap. -/
lemma apart (O : Open h front m rest L) (hb : b ∈ front ++ m :: rest) (hc : c ∈ front ++ m :: rest) :
    b = c ∨ b.stop ≤ c.addr ∨ c.stop ≤ b.addr :=
  O.tiles.apart Blk.addr_lt_stop hb hc

/-- The block is apart from all bins. -/
lemma off (O : Open h front m rest L) {i : Fin binCnt} {a : Nat} (ha : a ∈ L i) :
    a + 16 ≤ m.addr ∨ m.stop ≤ a := by
  obtain ⟨c, hc, rfl, -⟩ := O.free i a ha
  have := O.around hc
  unfold Blk.stop at *
  omega

/-- The block is apart from those in a bin. -/
lemma spread (O : Open h front m rest L) (i : Fin binCnt) : Spread (m.addr :: L i) := by
  have hm : m.addr + 16 ≤ 4294967296 := by
    have := (O.bounds (c := m) (by simp)).2
    have := O.lt
    unfold Blk.stop at *
    omega
  have hap : ∀ a ∈ L i, Apart m.addr a := fun a ha => by
    have := O.off ha
    unfold Apart
    unfold Blk.stop at this
    omega
  refine ⟨fun a ha => ?_, fun a ha c hc => ?_⟩
  · rcases List.mem_cons.mp ha with rfl | ha
    · exact hm
    · exact O.bins.fits i a ha
  · rcases List.mem_cons.mp ha with rfl | ha' <;> rcases List.mem_cons.mp hc with rfl | hc'
    · exact .inl rfl
    · exact hap c hc'
    · exact (hap a ha').symm
    · exact O.bins.apart i i a ha' c hc'

/-- The block that is released is in no bin. -/
lemma not_mem (O : Open h front m rest L) (i : Fin binCnt) : m.addr ∉ L i := fun ha => by
  have := O.off ha
  have := m.addr_lt_stop
  omega

/-- The fields of a block are no links. -/
lemma meta_not_links (O : Open h front m rest L) (hc : c ∈ front ++ m :: rest) {x : Nat}
    (hx : Meta c x) : ¬ Links L x := by
  rintro ⟨i, a, ha, hx'⟩
  obtain ⟨d, hd, rfl, -⟩ := O.free i a ha
  have := O.apart hc (mem_middle hd)
  unfold Meta Blk.foot Blk.stop Bytes at *
  rcases this with rfl | h | h <;> omega

end Open

/-- A heap with a live block in it. -/
lemma Rep.open (R : Rep h (pre ++ b :: post) L) (hb : b.live = true) : Open h pre b post L where
  tiles := R.tiles
  pos := R.pos
  lt := R.lt
  inMem c hc := (R.stands c hc).inMem
  hole c hc := (R.stands c (by simp [hc])).hole
  bins := R.bins
  free i a ha := by
    obtain ⟨c, hc, e, hf⟩ := R.free i a ha
    refine ⟨c, mem_of_middle hc fun h => ?_, e, hf⟩
    rw [h, hb] at hf
    cases hf

/-- What `free` finds before a block: the block that the footer there names. -/
lemma prev_header (R : Rep h (pre ++ p :: b :: post) L) :
    h.header (sub32 b.addr footerSz) = p.addr := by
  have hp : p ∈ pre ++ p :: b :: post := by simp
  have hadj := R.adjacent
  have hstop := R.stop_le hp
  have e : sub32 b.addr footerSz = p.foot := by
    have hlt := R.stop_le (b := b) (by simp)
    unfold sub32 footerSz Blk.foot
    unfold Blk.stop at *
    omega
  rw [e]
  exact (R.stands p hp).inMem.foot

/-- A block stays where it was, because its footer names it. -/
lemma mergePrev_live (R : Rep h (pre ++ p :: b :: post) L) (hp : p.live = true) :
    mergePrev h b.addr p.addr = .ok (h, b.addr) := by
  rw [mergePrev, if_neg (not_not.mpr ((R.stands p (by simp)).hole.mpr hp))]

/-- The other blocks lie in front of two blocks, or behind them. -/
lemma Rep.around_pair (R : Rep h (pre ++ p :: b :: post) L) (hc : c ∈ pre ++ post) :
    c ∈ pre ++ p :: b :: post ∧ (c.stop ≤ p.addr ∨ b.stop ≤ c.addr) := by
  have hc' : c ∈ pre ++ p :: b :: post := by
    simp at hc ⊢
    tauto
  refine ⟨hc', ?_⟩
  have ht := R.tiles
  obtain ⟨hfront, -⟩ := ht.around Blk.addr_lt_stop
  obtain ⟨-, hback⟩ : (∀ c ∈ pre ++ [p], c.stop ≤ b.addr) ∧ ∀ c ∈ post, b.stop ≤ c.addr := by
    refine Tiles.around Blk.addr_lt_stop (e := h.end_) (a := h.start) ?_
    simpa using ht
  rcases List.mem_append.mp hc with hc | hc
  · exact .inl (hfront c hc)
  · exact .inr (hback c hc)

/-- The block `m` gets the bytes up to the end of the block `b`, whose footer becomes its own. -/
lemma joined_spec (hlt : m.addr + 20 ≤ b.addr) (hend : m.stop = b.stop) (hstop : b.stop ≤ 4294967296)
    (hb : h.size b.addr = b.size) :
    ∃ h', (h.setSize m.addr m.size).setHeader (getFoot (h.setSize m.addr m.size) b.addr) m.addr = h' ∧
      h'.bins = h.bins ∧ m.InMem h' ∧
      Edit (fun x => Bytes (m.addr + 4) (m.addr + 8) x ∨ Bytes b.foot b.stop x) h h' := by
  obtain ⟨h₂, eh₂⟩ : ∃ h₂, h₂ = h.setSize m.addr m.size := ⟨_, rfl⟩
  have e₂ : Edit (Bytes (m.addr + 4) (m.addr + 8)) h h₂ :=
    eh₂ ▸ .setSize (by unfold Blk.stop at *; omega)
  have s₂ : h₂.size b.addr = b.size := by
    rw [e₂.size (by unfold Blk.stop at *; omega), hb]
    unfold Blk.stop Bytes at *
    omega
  have f₂ : getFoot h₂ b.addr = b.foot := by
    rw [getFoot, s₂]
    unfold Blk.stop at hstop
    exact u32_eq (by simp only [blockSz]; omega)
  have hfoot : b.foot + 4 = b.stop := by unfold Blk.foot Blk.stop; omega
  have e₃ : Edit (Bytes b.foot b.stop) h₂ (h₂.setHeader b.foot m.addr) :=
    hfoot ▸ .setHeader (by omega)
  rw [← eh₂, f₂]
  refine ⟨_, rfl, by rw [bins_setHeader, eh₂, bins_setSize], ⟨?_, ?_⟩,
    (e₂.mono fun _ => .inl).trans (e₃.mono fun _ => .inr)⟩
  · rw [e₃.size (by unfold Blk.stop at *; omega), eh₂]
    · exact size_setSize (by unfold Blk.stop at *; omega) (by unfold Blk.stop at *; omega)
    · unfold Blk.foot Blk.stop Bytes at *
      omega
  · rw [show m.foot = b.foot by unfold Blk.foot Blk.stop at *; omega]
    exact header_setHeader (by omega) (by unfold Blk.stop at *; omega)

/-- A free block before is taken out of its bin and joined. -/
lemma mergePrev_free (R : Rep h (pre ++ p :: b :: post) L) (hb : b.live = true) (hf : p.live = false) :
    ∃ h' m L', mergePrev h b.addr p.addr = .ok (h', m.addr) ∧ Open h' pre m post L' ∧
      h'.start = h.start ∧ h'.end_ = h.end_ ∧ m.addr = p.addr ∧ m.stop = b.stop := by
  have hp : p ∈ pre ++ p :: b :: post := by simp
  have hb' : b ∈ pre ++ p :: b :: post := by simp
  have hadj := R.adjacent
  have hstop := R.stop_le hb'
  obtain ⟨m, ma, ms⟩ : ∃ m : Blk, m.addr = p.addr ∧ m.size = p.size + 20 + b.size :=
    ⟨⟨p.addr, p.size + 20 + b.size, true⟩, rfl, rfl⟩
  have mstop : m.stop = b.stop := by
    unfold Blk.stop at *
    omega
  -- out of its bin first
  obtain ⟨h₁, L₁, hrun, hB₁, hsub, hout, -, e₁⟩ := removeNode_bins R.bins
    (getBinIndex p.size) p.addr
  have hout := hout (R.binned pre p b post rfl hf)
  have s₁ : ∀ c ∈ pre ++ p :: b :: post, h₁.size c.addr = c.size := fun c hc =>
    ((R.stands c hc).edit e₁ (R.stop_le hc) fun x hx => R.meta_not_links hc hx).inMem.size
  obtain ⟨h₃, hjoin, hbins, hin, e₃⟩ := joined_spec (m := m) (by unfold Blk.stop at *; omega) mstop hstop
    (s₁ b hb')
  rw [ma] at hjoin e₃
  have e := (e₁.mono fun x (hx : Links L x) => Or.inl hx).trans (e₃.mono fun x hx => Or.inr hx)
  have hmeta : ∀ x, Bytes (p.addr + 4) (p.addr + 8) x ∨ Bytes b.foot b.stop x → Meta p x ∨ Meta b x := by
    unfold Meta Bytes
    omega
  have hstands : ∀ c ∈ pre ++ post, Stands h₃ c := fun c hc => by
    obtain ⟨hc', hoff⟩ := R.around_pair hc
    refine (R.stands c hc').edit e (R.stop_le hc') ?_
    rintro x hx (hl | hw)
    · exact R.meta_not_links hc' hx hl
    · have := hmeta x hw
      unfold Meta Blk.foot Blk.stop Bytes at *
      omega
  refine ⟨h₃, m, L₁, ?_, ⟨?_, e.start ▸ R.pos, e.end_ ▸ R.lt, fun c hc => ?_,
    fun c hc => (hstands c (List.mem_append_right _ hc)).hole, hB₁.edit e₃ hbins ?_, fun i a ha => ?_⟩,
    e.start, e.end_, ma, mstop⟩
  · have hsum : u32 (h₁.size p.addr + (footerSz + blockSz + h₁.size b.addr)) =
        p.size + 20 + b.size := by
      rw [s₁ p hp, s₁ b hb']
      unfold Blk.stop at *
      rw [u32_eq (by simp only [footerSz, blockSz]; omega)]
      simp only [footerSz, blockSz]
      omega
    have hhole : hole h p.addr ≠ 0 := fun h0 => by
      rw [(R.stands p hp).hole.mp h0] at hf
      cases hf
    rw [mergePrev, if_pos hhole, (R.stands p hp).inMem.size, hrun, ok_bind]
    simp only [hsum]
    rw [← ms, hjoin, ma]
    rfl
  · rw [e.start, e.end_]
    obtain ⟨t₁, -, t₂⟩ := tiles_middle.mp R.tiles
    exact tiles_middle.mpr ⟨ma ▸ t₁, mstop ▸ t₂⟩
  · rcases List.mem_append.mp hc with hc | hc
    · exact (hstands c (List.mem_append_left _ hc)).inMem
    · rcases List.mem_cons.mp hc with rfl | hc
      · exact hin
      · exact (hstands c (List.mem_append_right _ hc)).inMem
  · rintro x ⟨i, a, ha, hx⟩ hw
    obtain ⟨c, hc, rfl, -⟩ := R.free i a (hsub i a ha)
    rcases hmeta x hw with hw | hw
    · exact R.meta_not_link hp hc hw hx
    · exact R.meta_not_link hb' hc hw hx
  · obtain ⟨c, hc, rfl, hcf⟩ := R.free i a (hsub i a ha)
    have hc' : c ∈ pre ++ b :: post := by
      refine mem_of_middle hc ?_
      rintro rfl
      exact hout i ha
    refine ⟨c, mem_of_middle hc' ?_, rfl, hcf⟩
    rintro rfl
    rw [hb] at hcf
    cases hcf

/-- The block before is joined when it is free. -/
lemma mergePrev_spec (R : Rep h (pre ++ p :: b :: post) L) (hb : b.live = true) :
    ∃ h' front m L', mergePrev h b.addr p.addr = .ok (h', m.addr) ∧ Open h' front m post L' ∧
      h'.start = h.start ∧ h'.end_ = h.end_ ∧ m.stop = b.stop ∧
      ∀ c ∈ front ++ m :: post, ∃ d ∈ pre ++ p :: b :: post, d.addr = c.addr := by
  cases hf : p.live with
  | true =>
    have R' : Rep h ((pre ++ [p]) ++ b :: post) L := by simpa using R
    exact ⟨h, pre ++ [p], b, L, mergePrev_live R hf, R'.open hb, rfl, rfl, rfl,
      fun c hc => ⟨c, by simpa using hc, rfl⟩⟩
  | false =>
    obtain ⟨h', m, L', hrun, O, hs, he, ma, mstop⟩ := mergePrev_free R hb hf
    refine ⟨h', pre, m, L', hrun, O, hs, he, mstop, fun c hc => ?_⟩
    by_cases hcm : c = m
    · exact ⟨p, by simp, by rw [hcm, ma]⟩
    · exact ⟨c, (R.around_pair (mem_of_middle hc hcm)).1, rfl⟩

/-! ## Joining with the block behind -/

/-- What `free` does with the block `m`, once the block before is dealt with. -/
def finish (h : Heap) (m next : Nat) : Except Fault Heap := do
  let h ← mergeNext h m next
  let h := setHole h m 1
  addNode h (getBinIndex (h.size m)) m

/-- Putting the block into a bin leaves the blocks as they are. -/
lemma Open.close (O : Open h front m rest L) :
    ∃ h', addNode (setHole h m.addr 1) (getBinIndex ((setHole h m.addr 1).size m.addr)) m.addr =
        .ok h' ∧
      h'.start = h.start ∧ h'.end_ = h.end_ ∧ ∀ c ∈ front ++ m :: rest, c.InMem h' := by
  obtain ⟨h', hrun, e⟩ := close_spec (fun i => (O.bins.bin i).chain) O.spread O.not_mem
  refine ⟨h', hrun, e.start, e.end_, fun c hc => (O.inMem c hc).edit e ?_ fun x hx => ?_⟩
  · have := (O.bounds hc).2
    have := O.lt
    omega
  · have hmeta : Meta c x := by
      unfold Blk.Fields at hx
      unfold Meta Bytes at *
      omega
    have := O.apart hc (c := m) (by simp)
    rintro (hw | hw | hw)
    · unfold Blk.Fields Blk.foot Blk.stop Bytes at *
      rcases this with rfl | h | h <;> omega
    · unfold Blk.Fields Blk.foot Blk.stop Bytes at *
      rcases this with rfl | h | h <;> omega
    · exact O.meta_not_links hc hmeta hw

/-- Where the block behind is live, it stays on its own. -/
lemma finish_live (O : Open h front m (n :: rest) L) (hn : n.live = true) :
    ∃ h', finish h m.addr n.addr = .ok h' ∧ h'.start = h.start ∧ h'.end_ = h.end_ ∧
      ∀ c ∈ front ++ m :: n :: rest, c.InMem h' := by
  have hlive : hole h n.addr = 0 := (O.hole n (List.mem_cons_self ..)).mpr hn
  rw [finish, mergeNext, if_neg (not_not.mpr hlive), ok_bind]
  exact O.close

/-- The writes of `free` that give the block `m` the bytes of the block `n` behind it: only the size of
`m`, and of `n` anything but `next`. -/
lemma shortJoin_spec {h₂ h₄ : Heap} (hadj : n.addr = m.stop) (hstop : n.stop ≤ 4294967296)
    (hn : h.size n.addr = n.size) (eh₂ : h₂ = h.setSize m.addr (m.size + 16 + n.size))
    (eh₄ : h₄ = setHole ((h₂.setHeader (getFoot h₂ n.addr) 0).setSize n.addr 0) n.addr 0) :
    ∃ h', h₄.setHeader (getFoot h₄ m.addr) m.addr = h' ∧ h'.bins = h.bins ∧
      h'.size m.addr = m.size + 16 + n.size ∧
      Edit (fun x => Bytes (m.addr + 4) (m.addr + 8) x ∨ Bytes n.addr (n.addr + 8) x ∨
        Bytes (n.addr + 12) n.stop x) h h' := by
  unfold Blk.stop at *
  have e₂ : Edit (Bytes (m.addr + 4) (m.addr + 8)) h h₂ := eh₂ ▸ .setSize (by omega)
  have s₂ : h₂.size m.addr = m.size + 16 + n.size := eh₂ ▸ size_setSize (by omega) (by omega)
  have f₂ : getFoot h₂ n.addr = n.foot := by
    rw [getFoot, e₂.size (by omega) (by unfold Bytes; omega), hn]
    exact u32_eq (by simp only [blockSz]; omega)
  rw [f₂] at eh₄
  have e₄ : Edit (fun x => Bytes n.addr (n.addr + 8) x ∨ Bytes (n.addr + 12) (n.addr + n.size + 20) x)
      h₂ h₄ := by
    rw [eh₄]
    refine (Edit.trans (.mono (.setHeader ?_) fun x hx => ?_) (.mono (.setSize ?_) fun x hx => ?_)).trans
      (.mono (edit_setHole ?_) fun x hx => ?_)
    all_goals
      unfold Blk.foot at *
      unfold Bytes at *
      omega
  have s₄ : h₄.size m.addr = m.size + 16 + n.size := by
    rw [e₄.size (by omega), s₂]
    unfold Bytes
    omega
  have f₄ : getFoot h₄ m.addr = n.addr + 12 + n.size := by
    rw [getFoot, s₄, u32_eq (by simp only [blockSz]; omega)]
    simp only [blockSz]
    omega
  have e₅ : Edit (Bytes (n.addr + 12 + n.size) (n.addr + 12 + n.size + 4)) h₄
      (h₄.setHeader (n.addr + 12 + n.size) m.addr) := .setHeader (by omega)
  rw [f₄]
  refine ⟨_, rfl, by rw [eh₄, eh₂]; rfl, ?_, (e₂.mono fun _ => .inl).trans
    ((e₄.mono fun _ => .inr).trans (e₅.mono fun x hx => .inr (.inr ?_)))⟩
  · rw [e₅.size (by omega), s₄]
    unfold Bytes
    omega
  · unfold Bytes at *
    omega

/-- A free block behind is taken out of its bin and joined, four bytes too short. -/
lemma mergeNext_free (O : Open h front m (n :: rest) L) (hn : n.live = false) :
    ∃ (h' : Heap) (L' : Fin binCnt → List Nat), mergeNext h m.addr n.addr = .ok h' ∧
      h'.start = h.start ∧ h'.end_ = h.end_ ∧ (∀ i, Chain 0 h'.next (h'.bins i) (L' i)) ∧
      (∀ i a, a ∈ L' i → a ∈ L i) ∧ (∀ c ∈ front, h'.size c.addr = c.size) ∧
      h'.size m.addr = m.size + 16 + n.size := by
  have hm : m ∈ front ++ m :: n :: rest := by simp
  have hn' : n ∈ front ++ m :: n :: rest := by simp
  have hadj : n.addr = m.stop := (tiles_middle.mp O.tiles).2.1
  have hlt := O.lt
  have hstop : n.stop ≤ 4294967296 := by
    have := (O.bounds hn').2
    omega
  obtain ⟨h₁, L₁, hrun, hB₁, hsub, -, -, e₁⟩ := removeNode_bins O.bins (getBinIndex n.size) n.addr
  have s₁ : ∀ c ∈ front ++ m :: n :: rest, h₁.size c.addr = c.size := fun c hc => by
    have := (O.bounds hc).2
    rw [e₁.size (by unfold Blk.stop at *; omega), (O.inMem c hc).size]
    intro x hx
    refine O.meta_not_links hc (.inl ?_)
    unfold Bytes at *
    omega
  obtain ⟨h', hjoin, hbins, hsize, e⟩ := shortJoin_spec hadj hstop (s₁ n hn') rfl rfl
  refine ⟨h', L₁, ?_, e.start.trans e₁.start, e.end_.trans e₁.end_, fun i => ?_, hsub, fun c hc => ?_,
    hsize⟩
  · have hhole : hole h n.addr ≠ 0 := fun h0 => by
      rw [(O.hole n (by simp)).mp h0] at hn
      cases hn
    have hsum : u32 (h₁.size m.addr + (blockSz + h₁.size n.addr)) = m.size + 16 + n.size := by
      rw [s₁ m hm, s₁ n hn', u32_eq (by unfold Blk.stop at *; simp only [blockSz]; omega)]
      simp only [blockSz]
      omega
    rw [mergeNext, if_pos hhole, (O.inMem n hn').size, hrun, ok_bind]
    simp only [hsum]
    rw [hjoin]
    rfl
  · -- the bins can still be followed
    rw [hbins]
    refine (hB₁.bin i).chain.congr fun a ha => ?_
    obtain ⟨c, hc, rfl, -⟩ := O.free i a (hsub i a ha)
    have hcm := O.around hc
    have hcn := O.apart (mem_middle hc) hn'
    have hcb := (O.bounds (mem_middle hc)).2
    refine e.mem.readWord (by unfold Blk.stop at *; omega) fun x hx => ?_
    unfold Bytes at *
    unfold Blk.stop at *
    rcases hcn with rfl | hcn | hcn <;> omega
  · have hc' : c ∈ front ++ m :: n :: rest := List.mem_append_left _ hc
    have hcm : c.stop ≤ m.addr := (O.tiles.around Blk.addr_lt_stop).1 c hc
    rw [e.size (by unfold Blk.stop at *; omega), s₁ c hc']
    unfold Blk.stop Bytes at *
    omega

/-- Where the block behind is free, the joined block is four bytes too short. -/
lemma finish_free (O : Open h front m (n :: rest) L) (hn : n.live = false) :
    ∃ h', finish h m.addr n.addr = .ok h' ∧ h'.start = h.start ∧ h'.end_ = h.end_ ∧
      (∀ c ∈ front, h'.size c.addr = c.size) ∧ h'.size m.addr = m.size + 16 + n.size := by
  obtain ⟨h₁, L₁, hrun, hs, he, hchain, hsub, hfront, hsize⟩ := mergeNext_free O hn
  obtain ⟨h', hclose, e⟩ := close_spec hchain
    (fun i => (O.spread i).mono (List.cons_subset_cons _ fun a ha => hsub i a ha))
    fun i ha => O.not_mem i (hsub i _ ha)
  -- sizes are not written
  have hkept : ∀ c ∈ front ++ m :: n :: rest, c.stop ≤ m.addr ∨ c = m → h'.size c.addr = h₁.size c.addr := by
    intro c hc hcm
    have := (O.bounds hc).2
    have hlt := O.lt
    refine e.size (by unfold Blk.stop at *; omega) ?_
    rintro x hx (hw | hw | ⟨i, a, ha, hw⟩)
    · unfold Blk.stop Bytes at *
      rcases hcm with hcm | rfl <;> omega
    · unfold Blk.stop Bytes at *
      rcases hcm with hcm | rfl <;> omega
    · refine O.meta_not_links hc (.inl ?_) ⟨i, a, hsub i a ha, hw⟩
      unfold Bytes at *
      omega
  refine ⟨h', ?_, e.start.trans hs, e.end_.trans he, fun c hc => ?_, ?_⟩
  · rw [finish, hrun, ok_bind]
    exact hclose
  · rw [hkept c (List.mem_append_left _ hc) (.inl ((O.tiles.around Blk.addr_lt_stop).1 c hc)), hfront c hc]
  · rw [hkept m (by simp) (.inr rfl), hsize]

/-! ## The blocks afterwards -/

/-- The blocks of `h'` tile the heap, and every footer is at the end of its block and names it. -/
structure Tiled (h h' : Heap) (cs : List Blk) : Prop where
  start : h'.start = h.start
  end_ : h'.end_ = h.end_
  tiles : Tiles Blk.addr Blk.stop h.start cs h.end_
  inMem : ∀ c ∈ cs, c.InMem h'

/-- The blocks of `h'` tile the heap again, and each of them begins where a block of `bs` began. -/
def Coalesced (h h' : Heap) (bs : List Blk) : Prop :=
  ∃ cs, Tiled h h' cs ∧ ∀ c ∈ cs, ∃ b ∈ bs, b.addr = c.addr

/-- The first block is not merged with anything. -/
lemma free_start (R : Rep h (b :: post) L) : free h (b.addr + 8) =
    addNode (setHole h b.addr 1) (getBinIndex ((setHole h b.addr 1).size b.addr)) b.addr := by
  have hstart : b.addr = h.start := R.tiles.1
  have hstop := R.stop_le (b := b) (by simp)
  have hhead : sub32 (b.addr + 8) offset = b.addr := by
    unfold sub32 offset
    unfold Blk.stop at hstop
    omega
  rw [free, hhead, if_pos hstart]

/-- Any other block is merged with the one before, then with the one behind. -/
lemma free_inner (R : Rep h (pre ++ p :: b :: n :: post) L) : free h (b.addr + 8) = (do
    let (h, m) ← mergePrev h b.addr p.addr
    finish h m n.addr) := by
  have R' : Rep h ((pre ++ [p]) ++ b :: n :: post) L := by simpa using R
  have hb : b ∈ pre ++ p :: b :: n :: post := by simp
  have hstop := R.stop_le hb
  have hadj : n.addr = b.stop := R'.adjacent
  have hstart : ¬ b.addr = h.start := fun e => by simpa using R'.start_iff.mp e
  have hhead : sub32 (b.addr + 8) offset = b.addr := by
    unfold sub32 offset
    unfold Blk.stop at hstop
    omega
  have hnext : u32 (getFoot h b.addr + footerSz) = n.addr := by
    have hn := R.stop_le (b := n) (by simp)
    rw [R.getFoot_eq hb, hadj]
    unfold Blk.foot footerSz u32
    unfold Blk.stop at *
    omega
  rw [free, hhead, if_neg hstart]
  simp only [hnext, prev_header R]
  rfl

/-- A block that is joined with a free block behind it ends four bytes too early, where no block
begins. -/
lemma free_short (R : Rep h (pre ++ p :: b :: n :: post) L) (hb : b.live = true)
    (hn : n.live = false) : ∃ h', free h (b.addr + 8) = .ok h' ∧
      ∀ cs, Tiled h h' cs → ∃ c ∈ cs, c.addr + 4 = n.stop := by
  obtain ⟨h₁, front, m, L₁, hprev, O, hs₁, he₁, hm, -⟩ := mergePrev_spec R hb
  obtain ⟨h', hrun, hs', he', hsize, hsize'⟩ := finish_free O hn
  refine ⟨h', by rw [free_inner R, hprev, ok_bind]; exact hrun, fun cs T => ?_⟩
  obtain ⟨m', hm'⟩ : ∃ m' : Blk, m' = ⟨m.addr, m.size + 16 + n.size, true⟩ := ⟨_, rfl⟩
  have hadj : n.addr = m.stop := (tiles_middle.mp O.tiles).2.1
  have hstop : m'.stop + 4 = n.stop := by
    rw [hm']
    unfold Blk.stop at *
    simp only
    omega
  have hlast := (O.bounds (c := n) (by simp)).2
  have htiles : Tiles Blk.addr Blk.stop h.start (front ++ [m']) m'.stop := by
    have ht := (tiles_middle.mp O.tiles).1
    rw [hs₁] at ht
    exact tiles_middle.mpr ⟨hm' ▸ ht, rfl⟩
  obtain ⟨cs', ht', hsub⟩ := htiles.follow Blk.addr_lt_stop T.tiles (by omega) fun c hc d hd e => by
    have hd' := (T.inMem d hd).size
    rw [← e] at hd'
    have hc' : h'.size c.addr = c.size := by
      rcases List.mem_append.mp hc with hc | hc
      · exact hsize c hc
      · rw [List.mem_singleton.mp hc, hm']
        exact hsize'
    unfold Blk.stop
    omega
  cases cs' with
  | nil =>
    have hend : m'.stop = h.end_ := ht'
    omega
  | cons c cs' =>
    have hc : c.addr = m'.stop := ht'.1
    exact ⟨c, hsub (List.mem_cons_self ..), by omega⟩

/-- `free` of a block that is not the last one leaves the heap tiled by blocks exactly if the block is
the first one or the block behind it is not free. -/
theorem free_coalesced_iff (R : Rep h (pre ++ b :: n :: post) L) (hb : b.live = true) :
    (∃ h', free h (b.addr + 8) = .ok h' ∧ Coalesced h h' (pre ++ b :: n :: post)) ↔
      b.addr = h.start ∨ n.live = true := by
  rw [R.start_iff]
  rcases List.eq_nil_or_concat pre with rfl | ⟨pre, p, rfl⟩
  · -- the first block is joined with nothing
    obtain ⟨h', hrun, hs, he, hin⟩ := (R.open hb).close
    exact iff_of_true ⟨h', (free_start R).trans hrun, _, ⟨hs, he, R.tiles, hin⟩,
      fun c hc => ⟨c, hc, rfl⟩⟩ (.inl rfl)
  · rw [List.concat_eq_append, List.append_assoc, List.singleton_append] at R ⊢
    rw [or_iff_right (by simp)]
    constructor
    · rintro ⟨h', hrun, cs, T, hsub⟩
      by_contra hn
      obtain ⟨h₁, hrun', hshort⟩ := free_short R hb (Bool.not_eq_true _ ▸ hn)
      rw [hrun] at hrun'
      cases hrun'
      obtain ⟨c, hc, hcn⟩ := hshort cs T
      obtain ⟨d, hd, hdc⟩ := hsub c hc
      have := R.apart hd (c := n) (by simp)
      unfold Blk.stop at *
      rcases this with rfl | h | h <;> omega
    · intro hn
      obtain ⟨h₁, front, m, L₁, hprev, O, hs₁, he₁, -, hsub⟩ := mergePrev_spec R hb
      obtain ⟨h', hrun, hs', he', hin⟩ := finish_live O hn
      refine ⟨h', by rw [free_inner R, hprev, ok_bind]; exact hrun, _, ⟨?_, ?_, ?_, hin⟩, hsub⟩
      · rw [hs', hs₁]
      · rw [he', he₁]
      · rw [← hs₁, ← he₁]
        exact O.tiles

/-- A block between a free one and a live one, which is joined with the free one. -/
theorem free_coalesced_iff_front :
    (∃ h', free frontHeap (0x1054 + 8) = .ok h' ∧
        Coalesced frontHeap h' [⟨0x1000, 64, false⟩, ⟨0x1054, 4, true⟩, ⟨0x106C, 4, true⟩]) ↔
      0x1054 = frontHeap.start ∨ true = true := by
  have R : Rep frontHeap ([⟨0x1000, 64, false⟩] ++ ⟨0x1054, 4, true⟩ :: [⟨0x106C, 4, true⟩]) _ := rep_front
  exact free_coalesced_iff (b := ⟨0x1054, 4, true⟩) (n := ⟨0x106C, 4, true⟩) R rfl

/-- A block between a live one and a free one that ends the heap: no blocks at all tile the heap after
its release. -/
theorem not_tiled_free :
    Rep small [⟨0x1000, 4, true⟩, ⟨0x1018, 4, true⟩, ⟨0x1030, 64, false⟩]
        (fun i => if i = getBinIndex 64 then [0x1030] else []) ∧
      ¬ ∃ h' cs, free small (0x1018 + 8) = .ok h' ∧ Tiled small h' cs := by
  refine ⟨rep_small, ?_⟩
  rintro ⟨h', cs, hrun, T⟩
  have R : Rep small ([] ++ ⟨0x1000, 4, true⟩ :: ⟨0x1018, 4, true⟩ :: ⟨0x1030, 64, false⟩ :: []) _ :=
    rep_small
  obtain ⟨h₁, hrun', hshort⟩ := free_short R rfl rfl
  simp only at hrun'
  rw [hrun] at hrun'
  cases hrun'
  obtain ⟨c, hc, hcn⟩ := hshort cs T
  have hbound : c.stop ≤ 0x1084 := (T.tiles.bounds Blk.addr_lt_stop hc).2
  have hcn : c.addr + 4 = 0x1084 := hcn
  unfold Blk.stop at hbound
  omega

end

end ToeS.V1
