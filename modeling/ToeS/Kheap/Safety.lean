import ToeS.Kheap.System

/-!
# Safety of the kernel heap

What holds of the heap of `kern/mm/kheap.c` after any legal run from boot, stated on the memory
itself: the walk over headers, footers and the nine bins agree (`HeapInv`), and live payloads are
isolated from each other and from the allocator.
-/

namespace ToeS.Kheap
open Lib

/-- The walk visits `as`, the bins hold `L`, and headers, footers, hole bytes and bins agree on
which blocks there are and which of them are live. -/
structure HeapInv (s : Sys) (as : List Nat) (L : Fin binCnt → List Nat) : Prop where
  walk : Walk s.heap as
  foot : ∀ a ∈ as, s.heap.header (getFoot s.heap a) = a
  wilderness : as.getLast? = some (getWilderness s.heap)
  bin : ∀ i, Chain 0 s.heap.next (s.heap.bins i) (L i)
  nodup : ∀ i, (L i).Nodup
  mem_bin : ∀ i a, a ∈ L i ↔ a ∈ as ∧ a + offset ∉ s.live ∧ getBinIndex (s.heap.size a) = i
  sorted : ∀ i, (L i).Pairwise fun a b => s.heap.size a ≤ s.heap.size b
  hole : ∀ a ∈ as, s.heap.hole a = 0 ↔ a + offset ∈ s.live
  live : ∀ p ∈ s.live, ∃ a ∈ as, p = a + offset

section
variable {s : Sys} {bs : List Blk} {L : Fin binCnt → List Nat}

/-- The last footer of the heap names the last block. -/
lemma Rep.wilderness {h : Heap} (R : Rep h bs L) :
    ∃ pre b, bs = pre ++ [b] ∧ b.stop = kheapEnd ∧ getWilderness h = b.addr := by
  have hne : bs ≠ [] := by
    rintro rfl
    have : kheapStart = kheapEnd := R.tiles
    cases this
  obtain ⟨pre, b, rfl⟩ : ∃ pre b, bs = pre ++ [b] :=
    ⟨_, _, (List.dropLast_append_getLast hne).symm⟩
  have hstop : b.stop = kheapEnd := (tiles_middle.mp R.tiles).2
  refine ⟨pre, b, rfl, hstop, ?_⟩
  have hfoot : sub32 h.end_ footerSz = b.foot := by
    rw [R.end_, ← hstop]
    rw [kheapEnd_eq] at hstop
    unfold sub32 footerSz Blk.foot Blk.stop at *
    omega
  rw [getWilderness, hfoot]
  exact (R.inMem b (by simp)).foot

/-- The blocks, the bins and the payloads make up the invariant. -/
lemma Pic.heapInv (P : Pic s bs L) (hh : Holes s.heap bs) : HeapInv s (bs.map Blk.addr) L := by
  have hR := P.rep
  refine ⟨hR.walk, fun a ha => ?_, ?_, fun i => (hR.bin i).chain, fun i => (hR.bin i).chain.nodup,
    fun i a => ?_, hR.sorted, fun a ha => ?_, fun p hp => ?_⟩
  · obtain ⟨b, hb, rfl⟩ := List.mem_map.mp ha
    obtain ⟨pre, post, rfl⟩ := List.append_of_mem hb
    rw [getFoot_eq hR]
    exact (hR.inMem b hb).foot
  · obtain ⟨pre, b, rfl, -, hw⟩ := hR.wilderness
    simp [hw]
  · rw [hR.mem_iff]
    constructor
    · rintro ⟨b, hb, rfl, hf, hi⟩
      refine ⟨List.mem_map_of_mem hb, ?_, ?_⟩
      · rw [P.live_iff hb, hf]
        decide
      · rw [(hR.inMem b hb).size, hi]
    · rintro ⟨ha, hl, hi⟩
      obtain ⟨b, hb, rfl⟩ := List.mem_map.mp ha
      rw [P.live_iff hb, Bool.not_eq_true] at hl
      rw [(hR.inMem b hb).size] at hi
      exact ⟨b, hb, rfl, hl, hi⟩
  · obtain ⟨b, hb, rfl⟩ := List.mem_map.mp ha
    rw [hh b hb, P.live_iff hb]
  · obtain ⟨b, hb, -, rfl⟩ := (P.live p).mp hp
    exact ⟨b.addr, List.mem_map_of_mem hb, rfl⟩

/-- The bytes of two live pointers do not meet. -/
def PayloadsApart (h : Heap) (p q : Nat) : Prop :=
  p + payloadSz h p ≤ q ∨ q + payloadSz h q ≤ p

/-- A live payload lies in the heap. -/
lemma Pic.payload_bounds (P : Pic s bs L) {p : Nat} (hp : p ∈ s.live) :
    kheapStart ≤ p ∧ p + payloadSz s.heap p ≤ kheapEnd := by
  obtain ⟨b, hb, -, rfl⟩ := (P.live p).mp hp
  have := P.rep.bounds hb
  rw [P.payloadSz_eq hb, kheapStart_eq, kheapEnd_eq]
  unfold Blk.stop offset at *
  omega

/-- No two overlap. -/
lemma Pic.payloads_apart (P : Pic s bs L) : s.live.Pairwise (PayloadsApart s.heap) := by
  refine P.nodup.imp_of_mem fun {p q} hp hq hne => ?_
  obtain ⟨b, hb, -, rfl⟩ := (P.live p).mp hp
  obtain ⟨c, hc, -, rfl⟩ := (P.live q).mp hq
  have := P.rep.apart hb hc
  rw [PayloadsApart, P.payloadSz_eq hb, P.payloadSz_eq hc]
  unfold Blk.stop offset at *
  rcases this with rfl | h | h
  · exact absurd rfl hne
  all_goals omega

end

section
variable {m : Mem} {ops : List Op}

/-- After every step of a legal run from boot the heap is in order. -/
theorem heap_in_order (hm : m kheapEnd = 0) (hl : LegalFrom m ops) (hne : ops ≠ []) :
    ∃ s as L, runFrom m ops = .ok s ∧ HeapInv s as L := by
  obtain ⟨s, hrun, -, hh⟩ := runFrom_spec hm hl
  obtain ⟨bs, L, P, hh⟩ := hh hne
  exact ⟨s, _, L, hrun, P.heapInv hh⟩

/-- After every legal run from boot, live payloads lie in the heap and do not meet, and whatever an
allocation or release does next, it returns and leaves the bytes of live payloads alone. -/
theorem live_payloads_isolated (hm : m kheapEnd = 0) (hl : LegalFrom m ops) :
    ∃ s, runFrom m ops = .ok s ∧
      (∀ p ∈ s.live, kheapStart ≤ p ∧ p + payloadSz s.heap p ≤ kheapEnd) ∧
      s.live.Pairwise (PayloadsApart s.heap) ∧
      ∀ op : Op, op.ByHeap → Legal s op → ∃ s', step s op = .ok s' ∧ Keeps s s' := by
  obtain ⟨s, hrun, ⟨⟨bs, L, P, hh⟩, hend⟩, -⟩ := runFrom_spec hm hl
  refine ⟨s, hrun, fun p => P.payload_bounds, P.payloads_apart, fun op hop hlop => ?_⟩
  obtain ⟨s', -, -, hstep, -, -, -, hk, -⟩ := P.step hh hlop (fenced_of_end hend)
  exact ⟨s', hstep, hk hop⟩

end

/-! ## A first run -/

/-- An allocation from the initialised heap splits the one block there is. -/
lemma boot_alloc (m : Mem) (sz : Nat) (hsz : sz ≤ wholeHeap.size) :
    ∃ s₀ s₁ L, boot m = .ok s₀ ∧ Legal s₀ (.alloc sz) ∧ step s₀ (.alloc sz) = .ok s₁ ∧
      s₁.live = [kheapStart + offset] ∧ Pic s₁ (allocate wholeHeap sz) L ∧
      Holes s₁.heap (allocate wholeHeap sz) := by
  obtain ⟨s₀, hboot, hlive, P, -⟩ := boot_spec m
  have hl : Legal s₀ (.alloc sz) := P.legal_alloc.mpr ⟨wholeHeap, by simp, rfl, hsz⟩
  obtain ⟨pre, f, post, h, hbs, -, hrun, P', -, -, hh⟩ := P.alloc hl
  obtain ⟨rfl, rfl, rfl⟩ : pre = [] ∧ f = wholeHeap ∧ post = [] := by
    cases pre with
    | nil =>
      obtain ⟨rfl, rfl⟩ := List.cons.inj hbs
      exact ⟨rfl, rfl, rfl⟩
    | cons a pre => simp at hbs
  rw [List.nil_append, List.append_nil] at P'
  refine ⟨s₀, _, _, hboot, hl, hrun, ?_, P', hh⟩
  rw [hlive]
  rfl

/-- Allocating 100 bytes and freeing them is legal. -/
lemma legal_alloc_free (m : Mem) :
    LegalFrom m [.alloc 100, .free (kheapStart + offset)] := by
  intro s hs
  obtain ⟨s₀, s₁, L, hboot, hl, hrun, hlive, -⟩ := boot_alloc m 100 (by decide)
  obtain rfl : s₀ = s := by
    rw [hboot] at hs
    exact Except.ok.inj hs
  refine ⟨hl, fun s' hs' => ⟨?_, fun _ _ => trivial⟩⟩
  obtain rfl : s₁ = s' := by
    rw [hrun] at hs'
    exact Except.ok.inj hs'
  show _ ∈ s₁.live
  rw [hlive]
  exact List.mem_singleton_self _

/-- An allocation and its release. -/
theorem heap_in_order_alloc_free :
    ∃ s as L, runFrom (fun _ => 0) [.alloc 100, .free (kheapStart + offset)] = .ok s ∧
      HeapInv s as L :=
  heap_in_order rfl (legal_alloc_free _) (by simp)

/-- So are two allocations, which leave two blocks that are live. -/
lemma legal_alloc_alloc (m : Mem) : LegalFrom m [.alloc 100, .alloc 200] ∧
    ∃ s, runFrom m [.alloc 100, .alloc 200] = .ok s ∧ s.live.length = 2 := by
  obtain ⟨s₀, s₁, L, hboot, hl, hrun, hlive, P, -⟩ := boot_alloc m 100 (by decide)
  have hl₁ : Legal s₁ (.alloc 200) :=
    P.legal_alloc.mpr ⟨⟨kheapStart + 120, 1048436, false⟩, by decide, rfl, by decide⟩
  obtain ⟨pre, f, post, h, -, -, hrun₁, -⟩ := P.alloc hl₁
  refine ⟨fun s hs => ?_, ⟨h, (f.addr + offset) :: s₁.live⟩, ?_, by rw [hlive]; rfl⟩
  · rw [hboot] at hs
    cases hs
    refine ⟨hl, fun s' hs' => ?_⟩
    rw [hrun] at hs'
    cases hs'
    exact ⟨hl₁, fun _ _ => trivial⟩
  · rw [runFrom, hboot, ok_bind, exec, hrun, ok_bind, exec, hrun₁, ok_bind]
    rfl

/-- Two allocations. -/
theorem live_payloads_isolated_two :
    ∃ s, runFrom (fun _ => 0) [.alloc 100, .alloc 200] = .ok s ∧ s.live.length = 2 ∧
      (∀ p ∈ s.live, kheapStart ≤ p ∧ p + payloadSz s.heap p ≤ kheapEnd) ∧
      s.live.Pairwise (PayloadsApart s.heap) ∧
      ∀ op : Op, op.ByHeap → Legal s op → ∃ s', step s op = .ok s' ∧ Keeps s s' := by
  obtain ⟨hl, s, hrun, htwo⟩ := legal_alloc_alloc fun _ => 0
  obtain ⟨s', hrun', hlive⟩ := live_payloads_isolated rfl hl
  rw [hrun] at hrun'
  cases hrun'
  exact ⟨s, hrun, htwo, hlive⟩

end ToeS.Kheap
