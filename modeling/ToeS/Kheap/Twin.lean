import ToeS.Kheap.Fit

/-!
# Two heaps with the same blocks

The blocks, the bins and the pointers handed out decide what the calls of `kern/mm/kheap.c` return and
what becomes of the blocks and bins. Two heaps that agree on them (`Twin`) answer every legal call alike,
whatever else is in their memory, unless a release looks behind the heap.
-/

namespace ToeS.Kheap
open Lib

/-- Two heaps hold the same blocks in the same bins, and the same pointers have been handed out. -/
structure Twin (s s' : Sys) : Prop where
  live : s'.live = s.live
  same : ∃ bs L, Pic s bs L ∧ Pic s' bs L ∧
    (bs = [wholeHeap] ∨ Holes s.heap bs ∧ Holes s'.heap bs)

section
variable {s s' : Sys} {bs pre pre' post post' : List Blk} {L : Fin binCnt → List Nat} {b b' : Blk}
  {p sz : Nat}

/-- A block is in one place. -/
lemma Rep.split_unique {h : Heap} (R : Rep h (pre ++ b :: post) L)
    (he : pre ++ b :: post = pre' ++ b' :: post') (hb : b.addr = b'.addr) :
    pre = pre' ∧ b = b' ∧ post = post' := by
  have hb' : b' ∈ pre ++ b :: post := he ▸ by simp
  obtain rfl : b = b' := R.eq_of_addr (by simp) hb' hb
  have hnot : b ∉ pre ++ post := fun h => by
    have := R.around h
    have := b.addr_lt_stop
    omega
  rw [List.mem_append, not_or] at hnot
  exact (List.append_cons_inj_of_notMem hnot.1 hnot.2).mp he

/-- The call of `kheap_alloc` behind a step. -/
lemma kheapAlloc_of_step {h : Heap} (hrun : step s (.alloc sz) = .ok ⟨h, p :: s.live⟩) :
    kheapAlloc s.heap sz = .ok (p, h) := by
  obtain ⟨⟨q, h'⟩, hq, he⟩ := bind_ok.mp hrun
  cases he
  exact hq

/-- The call of `kheap_free` behind a step. -/
lemma kheapFree_of_step {h : Heap} {l : List Nat} (hrun : step s (.free p) = .ok ⟨h, l⟩) :
    kheapFree s.heap p = .ok h := by
  obtain ⟨h', hq, he⟩ := bind_ok.mp hrun
  cases he
  exact hq

namespace Twin

/-- What is legal in one system is legal in the other. -/
lemma legal_alloc (T : Twin s s') : Legal s' (.alloc sz) ↔ Legal s (.alloc sz) := by
  obtain ⟨-, bs, L, P, P', -⟩ := T
  rw [P.legal_alloc, P'.legal_alloc]

/-- An allocation. -/
lemma alloc (T : Twin s s') (hl : Legal s (.alloc sz)) :
    ∃ p h h', kheapAlloc s.heap sz = .ok (p, h) ∧ kheapAlloc s'.heap sz = .ok (p, h') ∧
      Twin ⟨h, p :: s.live⟩ ⟨h', p :: s'.live⟩ ∧
      h.mem kheapEnd = s.heap.mem kheapEnd ∧ h'.mem kheapEnd = s'.heap.mem kheapEnd := by
  have hl' := T.legal_alloc.mpr hl
  obtain ⟨hlive, bs, L, P, P', hh⟩ := T
  obtain ⟨pre, f, post, h, rfl, hbest, hrun, hP, he, ho, hf⟩ := P.alloc hl
  obtain ⟨pre', f', post', h', hsplit, hbest', hrun', hP', he', ho', hf'⟩ := P'.alloc hl'
  obtain rfl := hbest.unique P.rep hbest'
  obtain ⟨rfl, -, rfl⟩ := P.rep.split_unique hsplit rfl
  refine ⟨_, h, h', kheapAlloc_of_step hrun, kheapAlloc_of_step hrun',
    ⟨by rw [hlive], _, _, hP, hP', .inr ⟨?_, ?_⟩⟩, he.mem _ P.rep.end_not_freeIn,
    he'.mem _ P.rep.end_not_freeIn⟩
  · exact holes_allocate (hh.imp_right And.left) ho hf
  · exact holes_allocate (hh.imp_right And.right) ho' hf'

/-- A release. -/
lemma free (T : Twin s s') (hl : p ∈ s.live)
    (hf : Enclosed s.heap p ∨ s.heap.mem kheapEnd = 0 ∧ s'.heap.mem kheapEnd = 0) :
    ∃ h h', kheapFree s.heap p = .ok h ∧ kheapFree s'.heap p = .ok h' ∧
      Twin ⟨h, s.live.erase p⟩ ⟨h', s'.live.erase p⟩ ∧
      h.mem kheapEnd = s.heap.mem kheapEnd ∧ h'.mem kheapEnd = s'.heap.mem kheapEnd := by
  obtain ⟨hlive, bs, L, P, P', hh⟩ := T
  obtain ⟨b, hb, hbl, rfl⟩ := (P.live p).mp hl
  have hholes : Holes s.heap bs ∧ Holes s'.heap bs := by
    rcases hh with rfl | hh
    · rw [List.mem_singleton.mp hb] at hbl
      cases hbl
    · exact hh
  have henc : Enclosed s.heap (b.addr + offset) ↔ Enclosed s'.heap (b.addr + offset) := by
    obtain ⟨pre, post, rfl⟩ := List.append_of_mem hb
    rw [P.enclosed_iff, P'.enclosed_iff]
  obtain ⟨pre, c, post, h, rfl, hcl, hc, hrun, hP, hh₁, he⟩ :=
    P.free hholes.1 hl (hf.imp id And.left)
  obtain ⟨pre', c', post', h', hsplit, hcl', hc', hrun', hP', hh₂, he'⟩ :=
    P'.free hholes.2 (hlive ▸ hl) (hf.imp henc.mp And.right)
  obtain ⟨rfl, rfl, rfl⟩ := P.rep.split_unique hsplit (by omega)
  exact ⟨h, h', kheapFree_of_step hrun, kheapFree_of_step hrun',
    ⟨by rw [hlive], _, _, hP, hP', .inr ⟨hh₁, hh₂⟩⟩, he.mem _ P.rep.end_not_room,
    he'.mem _ P.rep.end_not_room⟩

end Twin

/-- Two initialised heaps. -/
lemma boot_twin (m m' : Mem) : ∃ s s', boot m = .ok s ∧ boot m' = .ok s' ∧ Twin s s' ∧
    s.heap.mem kheapEnd = m kheapEnd ∧ s'.heap.mem kheapEnd = m' kheapEnd := by
  obtain ⟨s, hrun, hlive, P, he⟩ := boot_spec m
  obtain ⟨s', hrun', hlive', P', he'⟩ := boot_spec m'
  exact ⟨s, s', hrun, hrun', ⟨hlive'.trans hlive.symm, _, _, P, P', .inl rfl⟩, he, he'⟩

end

end ToeS.Kheap
