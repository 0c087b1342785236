import ToeS.Kheap.Coalesce

/-!
# What the layout of the heap remembers

Where free blocks are kept apart, the blocks of the heap (`kern/mm/kheap.c`) are determined by the live
ones: every gap between them is one free block. So two runs that end with the same payloads held end with
the same blocks, in whatever order they made their calls, and a run that frees what it allocates gives the
heap its blocks back. The order of the bins is not restored.
-/

namespace ToeS.Kheap
open Lib

/-- The same pointers are held, to payloads of the same sizes. -/
def SameLive (s s' : Sys) : Prop :=
  (∀ p, p ∈ s.live ↔ p ∈ s'.live) ∧ ∀ p ∈ s.live, payloadSz s.heap p = payloadSz s'.heap p

/-- The same blocks are walked over, with the same sizes. -/
def SameLayout (s s' : Sys) : Prop :=
  ∃ as, Walk s.heap as ∧ Walk s'.heap as ∧ ∀ a ∈ as, s.heap.size a = s'.heap.size a

section
variable {s s' : Sys} {bs bs' : List Blk} {L L' : Fin binCnt → List Nat} {b : Blk} {m m' : Mem}
  {ops ops' : List Op}

/-- The order of the two systems does not matter. -/
lemma SameLive.symm (h : SameLive s s') : SameLive s' s :=
  ⟨fun p => (h.1 p).symm, fun p hp => (h.2 p ((h.1 p).mpr hp)).symm⟩

/-- A live block is a block of the other heap. -/
lemma SameLive.mem (h : SameLive s s') (P : Pic s bs L) (P' : Pic s' bs' L') (hb : b ∈ bs)
    (hl : b.live = true) : b ∈ bs' := by
  have hp : b.addr + offset ∈ s.live := (P.live_iff hb).mpr hl
  obtain ⟨c, hc, hcl, haddr⟩ := (P'.live _).mp ((h.1 _).mp hp)
  have haddr := Nat.add_right_cancel haddr
  have hsize := h.2 _ hp
  rw [P.payloadSz_eq hb, haddr, P'.payloadSz_eq hc] at hsize
  have hcb : c = b := by
    cases b
    cases c
    simp only [Blk.mk.injEq]
    exact ⟨haddr.symm, by simpa using hsize.symm, hcl.trans hl.symm⟩
  exact hcb ▸ hc

/-- The live blocks are the same, in the same order. -/
lemma SameLive.filter (h : SameLive s s') (P : Pic s bs L) (P' : Pic s' bs' L') :
    bs.filter Blk.live = bs'.filter Blk.live := by
  have hmem : ∀ b, b ∈ bs.filter Blk.live ↔ b ∈ bs'.filter Blk.live := fun b => by
    simp only [List.mem_filter]
    exact ⟨fun hb => ⟨h.mem P P' hb.1 hb.2, hb.2⟩, fun hb => ⟨h.symm.mem P' P hb.1 hb.2, hb.2⟩⟩
  have hperm := (List.perm_ext_iff_of_nodup ((P.rep.tiles.nodup Blk.addr_lt_stop).filter _)
    ((P'.rep.tiles.nodup Blk.addr_lt_stop).filter _)).mpr hmem
  refine hperm.eq_of_pairwise (fun b c _ _ (hbc : b.addr < c.addr) (hcb : c.addr < b.addr) => ?_)
    ((P.rep.tiles.pairwise Blk.addr_lt_stop).filter _) ((P'.rep.tiles.pairwise Blk.addr_lt_stop).filter _)
  omega

/-- Heaps without two free neighbours are the same blocks where the live ones are. -/
lemma SameLive.blocks (h : SameLive s s') (P : Pic s bs L) (P' : Pic s' bs' L') (hn : NoTwoFree bs)
    (hn' : NoTwoFree bs') : bs = bs' := by
  refine P.rep.tiles.eq_of_filter Blk.addr_lt_stop (p := Blk.live) (fun b c haddr hstop hl => ?_)
    P'.rep.tiles hn hn' (h.filter P P')
  unfold Blk.stop at hstop
  cases b
  cases c
  simp only [Blk.mk.injEq] at *
  exact ⟨haddr, by omega, hl⟩

/-- Coalesced heaps with the same live payloads have the same blocks. -/
lemma SameLive.layout (h : SameLive s s') (hs : Sound s) (hs' : Sound s') (hc : Coalesced s)
    (hc' : Coalesced s') : SameLayout s s' := by
  obtain ⟨bs, L, P, -⟩ := hs
  obtain ⟨bs', L', P', -⟩ := hs'
  obtain rfl := h.blocks P P' (P.coalesced_iff.mp hc) (P'.coalesced_iff.mp hc')
  refine ⟨_, P.rep.walk, P'.rep.walk, fun a ha => ?_⟩
  obtain ⟨b, hb, rfl⟩ := List.mem_map.mp ha
  rw [(P.rep.inMem b hb).size, (P'.rep.inMem b hb).size]

/-- The first block is never freed in front of a free one. -/
def FirstFrom (m : Mem) (ops : List Op) : Prop :=
  ∀ s, boot m = .ok s → LegalRun step FirstBeforeLive s ops

/-- A run that never does ends in a coalesced heap. -/
lemma runFrom_coalesced (hl : LegalFrom m ops) (he : m kheapEnd = 0 ∨ EnclosedFrom m ops)
    (hf : FirstFrom m ops) : ∃ s, runFrom m ops = .ok s ∧ Sound s ∧ Coalesced s := by
  obtain ⟨s₀, hboot, hk, -, P⟩ := boot_kept m
  have hc : Coalesced s₀ := P.coalesced_iff.mpr (List.isChain_singleton _)
  obtain ⟨s, hrun, ⟨hk', hc'⟩, -⟩ := exec_inv (I := fun s => Kept m s ∧ Coalesced s)
    (fun s op hI hlop => by
      obtain ⟨s', hs, hs', hend, hiff⟩ :=
        coalesced_step hI.1.1 hlop.1.1 (hI.1.fenced hlop.1) hI.2
      exact ⟨s', hs, ⟨hs', hend.trans hI.1.2⟩, hiff.mpr hlop.2⟩) (fun _ h => h) ⟨hk, hc⟩
    ((hl.guarded he hboot).and (hf s₀ hboot))
  refine ⟨s, ?_, hk'.1, hc'⟩
  show (boot m >>= fun s => exec step s ops) = _
  rw [hboot]
  exact hrun

/-- Two runs that end with the same payloads held end with the same blocks, whatever calls they made,
in whatever order, and whatever was in memory, as long as neither frees the first block in front of a
free one or looks at a hole behind the heap. -/
theorem layout_of_live (hl : LegalFrom m ops) (hl' : LegalFrom m' ops')
    (he : m kheapEnd = 0 ∨ EnclosedFrom m ops) (he' : m' kheapEnd = 0 ∨ EnclosedFrom m' ops')
    (hf : FirstFrom m ops) (hf' : FirstFrom m' ops') :
    ∃ s s', runFrom m ops = .ok s ∧ runFrom m' ops' = .ok s' ∧ (SameLive s s' → SameLayout s s') := by
  obtain ⟨s, hrun, hs, hc⟩ := runFrom_coalesced hl he hf
  obtain ⟨s', hrun', hs', hc'⟩ := runFrom_coalesced hl' he' hf'
  exact ⟨s, s', hrun, hrun', fun h => h.layout hs hs' hc hc'⟩

end

/-! ## An allocation that is freed behind another one -/

/-- The block behind the first 100 bytes. -/
def behind : Blk := ⟨kheapStart + 20 + 100, wholeHeap.size - 100 - 20, false⟩

/-- A list of two, split at one of them. -/
lemma two_split {a b f : Blk} {pre post : List Blk} (h : [a, b] = pre ++ f :: post) :
    pre = [] ∧ f = a ∧ post = [b] ∨ pre = [a] ∧ f = b ∧ post = [] := by
  cases pre with
  | nil =>
    obtain ⟨rfl, rfl⟩ := List.cons.inj h
    exact .inl ⟨rfl, rfl, rfl⟩
  | cons c pre =>
    obtain ⟨rfl, hrest⟩ := List.cons.inj h
    cases pre with
    | nil =>
      obtain ⟨rfl, rfl⟩ := List.cons.inj hrest
      exact .inr ⟨rfl, rfl, rfl⟩
    | cons d pre => simp at hrest

/-- Allocating 100 bytes. -/
lemma run_first (m : Mem) : ∃ s L, runFrom m [.alloc 100] = .ok s ∧ LegalFrom m [.alloc 100] ∧
    FirstFrom m [.alloc 100] ∧ s.live = [kheapStart + offset] ∧
    Pic s [⟨kheapStart, 100, true⟩, behind] L := by
  obtain ⟨s₀, s₁, L, hboot, hl, hrun, hlive, P, -⟩ := boot_alloc m 100 (by decide)
  refine ⟨s₁, L, ?_, fun s hs => ?_, fun s _ => ⟨trivial, fun _ _ => trivial⟩, hlive, P⟩
  · show (boot m >>= fun s => exec step s _) = _
    rw [hboot]
    exact exec_cons hrun
  · obtain rfl := Except.ok.inj (hboot.symm.trans hs)
    exact ⟨hl, fun _ _ => trivial⟩

/-- And 200 bytes behind them, which are freed again. -/
lemma run_behind (m : Mem) : ∃ s bs L,
    runFrom m [.alloc 100, .alloc 200, .free (behind.addr + offset)] = .ok s ∧
      LegalFrom m [.alloc 100, .alloc 200, .free (behind.addr + offset)] ∧
      FirstFrom m [.alloc 100, .alloc 200, .free (behind.addr + offset)] ∧
      s.live = [kheapStart + offset] ∧ Pic s bs L ∧ ⟨kheapStart, 100, true⟩ ∈ bs := by
  obtain ⟨s₀, s₁, L₁, hboot, hl₀, hrun₀, hlive, P₁, hh₁⟩ := boot_alloc m 100 (by decide)
  have P₁ : Pic s₁ [⟨kheapStart, 100, true⟩, behind] L₁ := P₁
  have hl₁ : Legal s₁ (.alloc 200) := P₁.legal_alloc.mpr ⟨behind, by simp, rfl, by decide⟩
  obtain ⟨pre, f, post, h₂, hbs, hbest, hrun₁, P₂, e₂, hole₂, hh₂⟩ := P₁.alloc hl₁
  obtain ⟨-, rfl, -⟩ | ⟨rfl, rfl, rfl⟩ := two_split hbs
  · cases hbest.free
  obtain ⟨s₂, hs₂⟩ : ∃ s₂, s₂ = (⟨h₂, (behind.addr + offset) :: s₁.live⟩ : Sys) := ⟨_, rfl⟩
  rw [← hs₂] at P₂ hrun₁
  have hlive₂ : s₂.live = [behind.addr + offset, kheapStart + offset] := by rw [hs₂, hlive]
  have hl₂ : Legal s₂ (.free (behind.addr + offset)) := by
    show _ ∈ s₂.live
    rw [hlive₂]
    exact List.mem_cons_self
  have hfirst : FirstBeforeLive s₂ (.free (behind.addr + offset)) := by
    show sub32 (behind.addr + offset) offset = s₂.heap.start → _
    rw [P₂.rep.start]
    exact fun h => absurd h (by decide)
  have hcut : allocate behind 200 = [⟨behind.addr, 200, true⟩, remainder behind 200] :=
    if_pos (by decide)
  have hholes := holes_allocate (.inr hh₁) hole₂ hh₂
  rw [hcut, List.append_nil] at P₂ hholes
  have hfence : Fenced s₂ (.free (behind.addr + offset)) :=
    .inl (P₂.enclosed_iff.mpr (.inr (List.cons_ne_nil _ _)))
  have hh₂ : s₂.heap = h₂ := by rw [hs₂]
  obtain ⟨pre, b, post, h₃, heq, hb, hp, hrun₂, P₃, -⟩ := P₂.free (hh₂ ▸ hholes) hl₂ hfence
  refine ⟨_, _, _, ?_, ?_, ?_, ?_, P₃, ?_⟩
  · show (boot m >>= fun s => exec step s _) = _
    rw [hboot]
    show exec step s₀ _ = _
    rw [exec_cons hrun₀, exec_cons hrun₁, exec_cons hrun₂, exec_nil]
  · intro s hs
    obtain rfl := Except.ok.inj (hboot.symm.trans hs)
    rw [legalRun_cons hrun₀, legalRun_cons hrun₁, legalRun_cons hrun₂]
    exact ⟨hl₀, hl₁, hl₂, trivial⟩
  · intro s hs
    obtain rfl := Except.ok.inj (hboot.symm.trans hs)
    rw [legalRun_cons hrun₀, legalRun_cons hrun₁, legalRun_cons hrun₂]
    exact ⟨trivial, trivial, hfirst, trivial⟩
  · show s₂.live.erase _ = _
    rw [hlive₂]
    exact List.erase_cons_head _ _
  · refine (mem_release rfl).mpr (mem_of_middle (by rw [← heq]; simp) fun h => ?_)
    rw [← h] at hp
    exact absurd hp (by decide)

/-- Two runs that leave one payload. -/
theorem layout_of_live_behind : ∃ s s', runFrom (fun _ => 0) [.alloc 100] = .ok s ∧
    runFrom (fun _ => 0) [.alloc 100, .alloc 200, .free (behind.addr + offset)] = .ok s' ∧
    SameLayout s s' := by
  obtain ⟨s, L, hrun, hl, hf, hlive, P⟩ := run_first fun _ => 0
  obtain ⟨s', bs, L', hrun', hl', hf', hlive', P', hmem⟩ := run_behind fun _ => 0
  obtain ⟨t, t', ht, ht', hsame⟩ := layout_of_live hl hl' (.inl rfl) (.inl rfl) hf hf'
  obtain rfl := Except.ok.inj (hrun.symm.trans ht)
  obtain rfl := Except.ok.inj (hrun'.symm.trans ht')
  refine ⟨s, s', hrun, hrun', hsame ⟨fun p => by rw [hlive, hlive'], fun p hp => ?_⟩⟩
  rw [hlive, List.mem_singleton] at hp
  subst hp
  have hsz := P.payloadSz_eq (b := ⟨kheapStart, 100, true⟩) List.mem_cons_self
  have hsz' := P'.payloadSz_eq hmem
  exact hsz.trans hsz'.symm

end ToeS.Kheap
