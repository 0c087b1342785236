import ToeS.Kheap.Safety

/-!
# Coalescing

Whether `kheap_free` (`kern/mm/kheap.c`) keeps free blocks apart. It joins the freed block with its
free neighbours, but leaves early when the freed block is the first of the heap: then a free block
behind it stays separate. The runs without two adjacent free blocks are exactly those that never
free the first block in front of a free one (`coalesced_always_iff`).
-/

namespace ToeS.Kheap
open Lib

/-! ## On the abstract heap -/

/-- No two neighbours are free. -/
def NoTwoFree (bs : List Blk) : Prop := bs.IsChain fun a b => a.live = true ∨ b.live = true

section
variable {pre post : List Blk} {b c f : Blk} {sz : Nat}

/-- A block between two lists. Only whether it is live matters. -/
lemma noTwoFree_middle :
    NoTwoFree (pre ++ b :: post) ↔ NoTwoFree pre ∧ NoTwoFree post ∧
      (b.live = false → (∀ x ∈ pre.getLast?, x.live = true) ∧ ∀ y ∈ post.head?, y.live = true) := by
  unfold NoTwoFree
  rw [List.isChain_append, List.isChain_cons]
  cases hb : b.live with
  | true => simp [hb]
  | false => simp [hb]; tauto

/-- An allocation makes no free neighbours. -/
lemma noTwoFree_allocate (h : NoTwoFree (pre ++ f :: post)) (hf : f.live = false) :
    NoTwoFree (pre ++ allocate f sz ++ post) := by
  obtain ⟨h₁, h₂, h₃⟩ := noTwoFree_middle.mp h
  obtain ⟨-, hpost⟩ := h₃ hf
  rw [List.append_assoc]
  unfold allocate
  split
  · refine noTwoFree_middle.mpr ⟨h₁, ?_, nofun⟩
    refine noTwoFree_middle.mpr ⟨.nil, h₂, fun _ => ⟨by simp, hpost⟩⟩
  · exact noTwoFree_middle.mpr ⟨h₁, h₂, nofun⟩

/-- Joining with the block before leaves a live block, or none, before. -/
lemma joinPrev_live (h : NoTwoFree pre) :
    NoTwoFree (joinPrev pre b).1 ∧ ∀ x ∈ (joinPrev pre b).1.getLast?, x.live = true := by
  rcases List.eq_nil_or_concat pre with rfl | ⟨pre, p, rfl⟩
  · exact ⟨h, by simp [joinPrev]⟩
  · rw [List.concat_eq_append] at h ⊢
    cases hp : p.live with
    | true => simpa [joinPrev, hp] using h
    | false =>
      obtain ⟨h₁, -, h₂⟩ := noTwoFree_middle.mp h
      simpa [joinPrev, hp] using ⟨h₁, (h₂ hp).1⟩

/-- Joining with the block behind leaves a live block, or none, behind. -/
lemma joinNext_live (h : NoTwoFree post) :
    NoTwoFree (joinNext b post).2 ∧ ∀ y ∈ (joinNext b post).2.head?, y.live = true := by
  cases post with
  | nil => exact ⟨h, by simp [joinNext]⟩
  | cons n post =>
    cases hn : n.live with
    | true => simpa [joinNext, hn] using h
    | false =>
      have h : NoTwoFree ([] ++ n :: post) := h
      obtain ⟨-, h₁, h₂⟩ := noTwoFree_middle.mp h
      simpa [joinNext, hn] using ⟨h₁, (h₂ hn).2⟩

/-- A release keeps free blocks apart, unless it is of the first block in front of a free one. -/
lemma noTwoFree_release (h : NoTwoFree (pre ++ b :: post)) :
    NoTwoFree (release pre b post) ↔ (pre = [] → ∀ y ∈ post.head?, y.live = true) := by
  obtain ⟨h₁, h₂, -⟩ := noTwoFree_middle.mp h
  unfold release
  split
  · rw [← List.nil_append (_ :: post), noTwoFree_middle]
    simp_all [NoTwoFree]
  · obtain ⟨p₁, p₂⟩ := joinPrev_live (b := b) h₁
    obtain ⟨n₁, n₂⟩ := joinNext_live (b := (joinPrev pre b).2) h₂
    exact iff_of_true (noTwoFree_middle.mpr ⟨p₁, n₁, fun _ => ⟨p₂, n₂⟩⟩) (absurd · ‹_›)

end

/-- Without live blocks a coalesced heap is one block. -/
lemma NoTwoFree.single {h : Heap} {bs : List Blk} {L : Fin binCnt → List Nat} (hn : NoTwoFree bs)
    (R : Rep h bs L) (hf : ∀ b ∈ bs, b.live = false) : bs = [wholeHeap] := by
  have ht := R.tiles
  cases bs with
  | nil =>
    have : kheapStart = kheapEnd := ht
    cases this
  | cons b bs =>
    cases bs with
    | nil =>
      obtain ⟨ha, hs⟩ : b.addr = kheapStart ∧ b.stop = kheapEnd := ht
      have hsz : b.size = wholeHeap.size := by
        rw [kheapStart_eq] at ha
        rw [kheapEnd_eq] at hs
        unfold Blk.stop at hs
        show b.size = 1048556
        omega
      have : b = wholeHeap := by
        cases b
        simp_all [wholeHeap]
      rw [this]
    | cons c bs =>
      have : b.live = true ∨ c.live = true := (List.isChain_cons_cons.mp hn).1
      simp [hf] at this

/-! ## On the heap -/

/-- On the walk no two neighbours are free, and when nothing is live there is one block only. -/
def Coalesced (s : Sys) : Prop :=
  ∃ as, Walk s.heap as ∧ (as.IsChain fun a b => a + offset ∈ s.live ∨ b + offset ∈ s.live) ∧
    (s.live = [] → as = [kheapStart] ∧
      s.heap.size kheapStart = kheapEnd - kheapStart - blckOverhead)

/-- When the first block of the heap is freed and it is not the last, the block behind it is no
hole. -/
def FirstBeforeLive (s : Sys) : Op → Prop
  | .free p => sub32 p offset = s.heap.start →
      u32 (getFoot s.heap s.heap.start + footerSz) ≠ s.heap.end_ →
      s.heap.hole (u32 (getFoot s.heap s.heap.start + footerSz)) = 0
  | _ => True

section
variable {s : Sys} {bs : List Blk} {L : Fin binCnt → List Nat}

/-- The heap is coalesced when no two free blocks are neighbours. -/
lemma Pic.coalesced_iff (P : Pic s bs L) : Coalesced s ↔ NoTwoFree bs := by
  have hchain : ((bs.map Blk.addr).IsChain fun a b => a + offset ∈ s.live ∨ b + offset ∈ s.live) ↔
      NoTwoFree bs := by
    rw [List.isChain_map]
    refine List.IsChain.iff_of_mem_imp fun a b ha hb => ?_
    rw [P.live_iff ha, P.live_iff hb]
  constructor
  · rintro ⟨as, hw, hc, -⟩
    obtain rfl := walk_unique hw P.rep.walk
    exact hchain.mp hc
  · intro hn
    refine ⟨_, P.rep.walk, hchain.mpr hn, fun hl => ?_⟩
    have hf : ∀ b ∈ bs, b.live = false := fun b hb => by
      have := P.live_iff hb
      simpa [hl] using this
    obtain rfl := hn.single P.rep hf
    exact ⟨rfl, (P.rep.inMem wholeHeap (by simp)).size⟩

/-- What the condition looks at, for a block with `pre` before it. -/
lemma Pic.first_iff {pre post : List Blk} {b : Blk} (P : Pic s (pre ++ b :: post) L)
    (hh : Holes s.heap (pre ++ b :: post)) :
    FirstBeforeLive s (.free (b.addr + offset)) ↔
      (pre = [] → ∀ y ∈ post.head?, y.live = true) := by
  have hbb := P.rep.bounds (b := b) (by simp)
  have haddr : sub32 (b.addr + offset) offset = b.addr := by
    have := b.addr_lt_stop
    unfold sub32 offset
    omega
  show (sub32 (b.addr + offset) offset = s.heap.start → _) ↔ _
  rw [haddr, P.rep.start_iff]
  refine imp_congr_right fun hpre => ?_
  rw [(P.rep.start_iff.mpr hpre).symm, next_addr P.rep, P.rep.end_]
  cases post with
  | nil =>
    have hstop : b.stop = kheapEnd := (tiles_middle.mp P.rep.tiles).2
    simp [hstop]
  | cons n post =>
    have hadj : n.addr = b.stop := P.rep.adjacent_prev
    have hn := P.rep.bounds (b := n) (by simp)
    have hne : n.addr ≠ kheapEnd := by
      have := n.addr_lt_stop
      rw [kheapEnd_eq]
      omega
    rw [← hadj, hh n (by simp)]
    simp [hne]

/-- One call: free blocks stay apart exactly when the condition is met. -/
lemma coalesced_step {op : Op} (hs : Sound s) (hl : Legal s op) (hf : Fenced s op)
    (hc : Coalesced s) :
    ∃ s', step s op = .ok s' ∧ Sound s' ∧ s'.heap.mem kheapEnd = s.heap.mem kheapEnd ∧
      (Coalesced s' ↔ FirstBeforeLive s op) := by
  obtain ⟨bs, L, P, hh⟩ := hs
  have hn := P.coalesced_iff.mp hc
  obtain ⟨s', bs', L', hrun, hm, P', hh', -, hend'⟩ := P.step hh hl hf
  refine ⟨s', hrun, ⟨bs', L', P', .inr hh'⟩, hend', ?_⟩
  rw [P'.coalesced_iff]
  cases hm with
  | alloc hfree hsz => exact iff_of_true (noTwoFree_allocate hn hfree) trivial
  | @free pre b post hb =>
    have hholes : Holes s.heap (pre ++ b :: post) := by
      rcases hh with heq | hh
      · have : b ∈ [wholeHeap] := heq ▸ by simp
        rw [List.mem_singleton.mp this] at hb
        cases hb
      · exact hh
    rw [noTwoFree_release hn, P.first_iff hholes]
  | store => exact iff_of_true hn trivial

end

/-- In a legal run from boot all states are coalesced exactly when the first block is never freed in
front of a free one. As elsewhere, the byte behind the heap is no hole, or no release looks there. -/
theorem coalesced_always_iff {m : Mem} {ops : List Op} (hl : LegalFrom m ops)
    (hf : m kheapEnd = 0 ∨ EnclosedFrom m ops) :
    ∃ s, boot m = .ok s ∧
      (Always step Coalesced s ops ↔ LegalRun step FirstBeforeLive s ops) := by
  obtain ⟨s, hboot, hk, -, P⟩ := boot_kept m
  refine ⟨s, hboot, always_iff (I := Kept m) (fun s op hs hw hc => ?_) hk
    (P.coalesced_iff.mpr (List.isChain_singleton _)) (hl.guarded hf hboot)⟩
  obtain ⟨s', hrun, hs', hend, hiff⟩ := coalesced_step hs.1 hw.1 (hs.fenced hw) hc
  exact ⟨s', hrun, ⟨hs', hend.trans hs.2⟩, hiff⟩

/-- An allocation and its release. -/
theorem coalesced_always_iff_alloc_free :
    ∃ s, boot (fun _ => 0) = .ok s ∧
      (Always step Coalesced s [.alloc 100, .free (kheapStart + offset)] ↔
        LegalRun step FirstBeforeLive s [.alloc 100, .free (kheapStart + offset)]) :=
  coalesced_always_iff (legal_alloc_free _) (.inl rfl)

/-- Allocating 100 bytes and freeing them leaves two free blocks side by side, with nothing live. -/
theorem not_coalesced_alloc_free :
    LegalFrom (fun _ => 0) [.alloc 100, .free (kheapStart + offset)] ∧
      ∃ s, runFrom (fun _ => 0) [.alloc 100, .free (kheapStart + offset)] = .ok s ∧
        s.live = [] ∧ ¬ Coalesced s := by
  refine ⟨legal_alloc_free _, ?_⟩
  obtain ⟨s₀, s₁, L, hboot, hl, hrun, hlive, P, hh⟩ :=
    boot_alloc (fun _ => 0) 100 (by decide)
  have hfree : kheapStart + offset ∈ s₁.live := by
    rw [hlive]
    exact List.mem_singleton_self _
  have P₀ : Pic s₁ ([] ++ ⟨kheapStart, 100, true⟩ ::
      [⟨kheapStart + 20 + 100, wholeHeap.size - 100 - 20, false⟩]) L := P
  obtain ⟨pre, b, post, h, hbs, hb, hp, hrun', P', -⟩ :=
    P.free hh hfree (.inl (P₀.enclosed_iff.mpr (.inl rfl)))
  have hbs : [(⟨kheapStart, 100, true⟩ : Blk), ⟨kheapStart + 20 + 100, wholeHeap.size - 100 - 20, false⟩]
      = pre ++ b :: post := hbs
  obtain ⟨rfl, rfl, rfl⟩ : pre = [] ∧ b = ⟨kheapStart, 100, true⟩ ∧
      post = [⟨kheapStart + 20 + 100, wholeHeap.size - 100 - 20, false⟩] := by
    cases pre with
    | nil =>
      obtain ⟨rfl, rfl⟩ := List.cons.inj hbs
      exact ⟨rfl, rfl, rfl⟩
    | cons a pre =>
      obtain ⟨-, hbs⟩ := List.cons.inj hbs
      cases pre with
      | nil =>
        obtain ⟨rfl, -⟩ := List.cons.inj hbs
        cases hb
      | cons a pre => simp at hbs
  refine ⟨_, ?_, ?_, mt P'.coalesced_iff.mp ?_⟩
  · show (boot _ >>= fun s => exec step s _) = _
    rw [hboot]
    show exec step s₀ _ = _
    rw [exec_cons hrun, exec_cons hrun']
    rfl
  · show s₁.live.erase (kheapStart + offset) = []
    rw [hlive, List.erase_cons_head]
  · rw [release, if_pos rfl, NoTwoFree, List.isChain_cons_cons]
    simp

end ToeS.Kheap
