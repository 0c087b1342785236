import ToeS.Boot.Loops

/-!
# What boot maps

Two results about the address space in which `vmm_init` enables paging. Everything that the placement
allocator handed out is mapped to the physical address it is at (`handed_identity`): the bound of the
first loop moves with the allocator, and the slack of one page covers the table that is made for the
kernel heap after that loop. And the pages have frames of their own exactly when no frame that the
first loop maps by address was free before (`noAlias_iff`): page 0, whose physical address is 0, is
given the first free frame instead.
-/

namespace ToeS.Boot
open Lib Frames Vmm

/-- The frames that are free before boot and lie above those that the first loop maps by address. -/
def Machine.freeAbove (m : Machine) : Nat :=
  ((Finset.range 1048576).filter fun k =>
    m.lastFrame < k ∧ k < bsGetSize m.frames ∧ get m.frames k = false).card

/-- Distinct mapped pages have distinct frames, and these are marked as used. -/
structure NoAlias (s : State Bump) : Prop where
  unique : ∀ v < 4294967296, ∀ w < 4294967296, s.Mapped s.kernDir v → s.Mapped s.kernDir w →
    v / 4096 ≠ w / 4096 → s.getPhysical v s.kernDir / 4096 ≠ s.getPhysical w s.kernDir / 4096
  marked : ∀ v < 4294967296, s.Mapped s.kernDir v →
    s.getPhysical v s.kernDir / 4096 < bsGetSize s.frames ∧
      bsTst s.frames (s.getPhysical v s.kernDir / 4096) = 1

section
variable {m : Machine} {s s₀ : State Bump} {v : Nat}

/-! ## The view at the end -/

/-- The physical address of a mapped page is in its frame. -/
lemma frame_of_mapped (W : Wf s) (h : s.Mapped s.kernDir v) :
    s.getPhysical v s.kernDir / 4096 = (pte s (v / 4096)).addr := by
  rw [getPhysical_pte W.kern_ne h]
  omega

/-- `NoAlias` speaks of the view. -/
lemma noAlias_iff_backed (W : Wf s) : NoAlias s ↔ Backed s := by
  have hpage : ∀ p < 1048576, p * 4096 / 4096 = p := fun p _ => Nat.mul_div_cancel _ (by decide)
  have hmapped : ∀ p < 1048576, (pte s p).present = true → s.Mapped s.kernDir (p * 4096) :=
    fun p hp h => mapped_iff.mpr ((hpage p hp).symm ▸ h)
  constructor
  · intro N
    refine ⟨fun p hp q hq hpp hqp e => ?_, fun p hp hpp => ?_⟩
    · by_contra hne
      have hpm := hmapped p hp hpp
      have hqm := hmapped q hq hqp
      refine N.unique (p * 4096) (by omega) (q * 4096) (by omega) hpm hqm (by omega) ?_
      rw [frame_of_mapped W hpm, frame_of_mapped W hqm, hpage p hp, hpage q hq, e]
    · have hpm := hmapped p hp hpp
      obtain ⟨h₁, h₂⟩ := N.marked (p * 4096) (by omega) hpm
      rw [frame_of_mapped W hpm, hpage p hp] at h₁ h₂
      exact ⟨h₁, (bsTst_eq_one h₁).mp h₂⟩
  · intro B
    refine ⟨fun v hv w hw hvm hwm hne e => hne ?_, fun v hv hvm => ?_⟩
    · rw [frame_of_mapped W hvm, frame_of_mapped W hwm] at e
      exact B.unique _ (by omega) _ (by omega) (mapped_iff.mp hvm) (mapped_iff.mp hwm) (Fin.ext e)
    · obtain ⟨h₁, h₂⟩ := B.marked _ (by omega) (mapped_iff.mp hvm)
      rw [frame_of_mapped W hvm]
      exact ⟨h₁, (bsTst_eq_one h₁).mpr h₂⟩

/-- Enabling paging changes neither the directory nor its tables. -/
lemma Wf.switch (W : Wf s) : Wf (s.switchPageDirectory s.kernDir) :=
  ⟨W.kern, ⟨W.inv.phys, W.inv.entry⟩, W.placed, W.apart, W.inj, W.handed⟩

/-- Where the allocator stands at the end. -/
lemma final_ptr (K : KernInv m (page0 m).1 (page0 m).2 s₀ (m.lastFrame + 1))
    (H : HeapInv s₀ s heapPages) :
    s.heap.allocPtr = kernOffset + 4096 * (m.lastFrame + 1) := by
  have hstop : 6 ≤ m.firstStop := Nat.le_add_left ..
  rw [H.ptr, if_neg (by decide), K.ptr]
  unfold Machine.lastFrame
  omega

/-- The second loop leaves the pages below the kernel heap alone. -/
lemma HeapInv.below (H : HeapInv s₀ s heapPages) {j : Nat} (hj : j < 65536) :
    pte s (kernPage + j) = pte s₀ (kernPage + j) :=
  H.old _ (by unfold kernPage; omega) (by unfold kernPage heapBase; omega)

/-! ## Identity -/

/-- When `vmm_init` enables paging, every byte that the placement allocator has handed out, at an
address from `0xC0001000` on, is mapped to its address minus the kernel offset, for the kernel and for
the processor. This holds as long as the kernel and what is allocated behind it, up to the frame
`lastFrame`, lie below the kernel heap and in the bitset; below the first 4 MiB `lastFrame` is less
than 1024. -/
theorem handed_identity (hend : kernOffset ≤ m.kernEnd) (hk : m.lastFrame < 65536)
    (hin : m.lastFrame < bsGetSize m.frames) :
    ∃ s, m.boot = .ok s ∧ s.heap.allocPtr = kernOffset + 4096 * (m.lastFrame + 1) ∧
      ∀ b ∈ s.heap.handed, ∀ v, b.1 ≤ v → v < b.1 + b.2 → kernOffset + 0x1000 ≤ v →
        s.Mapped s.kernDir v ∧ s.getPhysical v s.kernDir = v - kernOffset ∧
          s.cpuWalk s.cr3 v = some (v - kernOffset) := by
  obtain ⟨s₀, s₁, hboot, K, H⟩ := boot_spec hend hk hin
  have hptr := final_ptr K H
  refine ⟨_, hboot, hptr, fun b hb v hlo hhi hv => ?_⟩
  set s := s₁.switchPageDirectory s₁.kernDir
  have W : Wf s := H.wf.switch
  obtain ⟨-, hb⟩ := H.wf.handed b hb
  -- the page of the byte is one of those that the first loop maps by address
  obtain ⟨j, hj⟩ : ∃ j, v / 4096 = kernPage + j := ⟨v / 4096 - kernPage, by
    unfold kernPage kernOffset at *
    omega⟩
  have hj₁ : 1 ≤ j := by unfold kernPage kernOffset at *; omega
  have hjl : j < m.lastFrame + 1 := by unfold kernPage kernOffset at *; omega
  obtain ⟨hpr, haddr⟩ := K.ident j hj₁ hjl
  have hpte : pte s (v / 4096) = pte s₀ (kernPage + j) := by
    rw [hj]
    exact H.below (by omega)
  have hm : s.Mapped s.kernDir v := mapped_iff.mpr (by rw [hpte]; exact hpr)
  have hphys : s.getPhysical v s.kernDir = v - kernOffset := by
    rw [getPhysical_pte W.kern_ne hm, hpte, haddr]
    unfold kernPage kernOffset at *
    omega
  refine ⟨hm, hphys, ?_⟩
  have hfresh : Fresh s.log := W.fresh (by show s₁.heap.allocPtr ≤ _; unfold kernOffset at *; omega)
  have hwalk := W.inv.cpuWalk hfresh W.kern v
  rw [if_pos hm, hphys] at hwalk
  exact hwalk

/-! ## Aliasing -/

/-- The bits of page 0's round: those that were set, bit 0, and the one of its frame. -/
lemma page0_spec
    (hfree : ∃ k < 1048576, k < bsGetSize m.frames ∧ 1 ≤ k ∧ get m.frames k = false) :
    ∃ idx < 1048576, idx < bsGetSize m.frames ∧ 1 ≤ idx ∧ get m.frames idx = false ∧
      (∀ k, 1 ≤ k → k < idx → get m.frames k = true) ∧
      page0 m = (bsSet (bsSet m.frames 0) idx, { Page.zero.attr 1 1 with addr := Fin.ofNat _ idx }) := by
  have h0 : 0 < bsGetSize m.frames := by omega
  have hset : (setFrame m.frames 0).2 = bsSet m.frames 0 := by
    have := setFrame_of_lt h0
    rw [Nat.zero_mul] at this
    rw [this]
  have hs : (bsSet m.frames 0).sz * 32 < 4294967296 := by
    rw [sz_set]
    exact bsWords_lt m.frameCnt
  obtain ⟨k, hk, hks, hk1, hkf⟩ := hfree
  have hget : ∀ j, 1 ≤ j → get (bsSet m.frames 0) j = get m.frames j := by
    intro j hj
    rw [get_set h0, decide_eq_false (by omega), Bool.or_false]
  rw [page0, hset]
  rcases mapPage_any 1 1 (rfl : Page.zero.addr = 0) hs with
    ⟨-, hfull⟩ | ⟨idx, hlt, hclr, hbelow, hm⟩
  · have := hfull k (by rwa [bsGetSize_set])
    rw [hget k hk1, hkf] at this
    cases this
  · have hle : idx ≤ k := by
      by_contra h
      have := hbelow k (by omega)
      rw [hget k hk1, hkf] at this
      cases this
    have hpos : 1 ≤ idx := by
      by_contra h
      have h : idx = 0 := by omega
      rw [h, get_set h0] at hclr
      simp at hclr
    rw [bsGetSize_set] at hlt
    refine ⟨idx, by omega, hlt, hpos, by rwa [hget idx hpos] at hclr, fun j hj hji => ?_,
      hm (by omega)⟩
    have := hbelow j hji
    rwa [hget j hj] at this

/-- A frame that the first loop maps by address, and that was free, backs two pages. -/
lemma not_backed (K : KernInv m (page0 m).1 (page0 m).2 s₀ (m.lastFrame + 1))
    (H : HeapInv s₀ s heapPages) (hk : m.lastFrame < 65536) (hin : m.lastFrame < bsGetSize m.frames)
    {f : Nat} (hf1 : 1 ≤ f) (hfl : f ≤ m.lastFrame) (hf : get m.frames f = false) : ¬ Backed s := by
  obtain ⟨idx, -, -, hpos, -, hbelow, hpg⟩ :=
    page0_spec ⟨f, by omega, by omega, hf1, hf⟩
  have hle : idx ≤ f := by
    by_contra h
    have := hbelow f hf1 (by omega)
    rw [hf] at this
    cases this
  have h0 : pte s (kernPage + 0) = (page0 m).2 := (H.below (by decide)).trans K.zero
  obtain ⟨hpr, haddr⟩ := K.ident idx hpos (by omega)
  rw [← H.below (by omega)] at hpr haddr
  intro B
  have := B.unique (kernPage + 0) (by decide) (kernPage + idx) (by unfold kernPage; omega)
    (by rw [h0, hpg]; rfl) hpr (by
      apply Fin.ext
      rw [haddr, h0, hpg]
      exact ofNat_val (by omega))
  omega

/-- Where none of these frames was free, the first loop keeps the frames apart. -/
lemma kern_backed (K : KernInv m (page0 m).1 (page0 m).2 s₀ (m.lastFrame + 1))
    (hk : m.lastFrame < 65536) (hfree : 0 < m.freeAbove)
    (hres : ∀ f, 1 ≤ f → f ≤ m.lastFrame → get m.frames f = true) :
    Backed s₀ ∧ m.freeAbove ≤ freeCnt s₀.frames + 1 := by
  obtain ⟨k, hk'⟩ := Finset.card_pos.mp hfree
  simp only [Finset.mem_filter, Finset.mem_range] at hk'
  obtain ⟨hklt, hkl, hks, hkf⟩ := hk'
  obtain ⟨idx, hidx, hsz, hpos, hclr, -, hpg⟩ := page0_spec ⟨k, hklt, hks, by omega, hkf⟩
  have habove : m.lastFrame < idx := by
    by_contra h
    rw [hres idx hpos (by omega)] at hclr
    cases hclr
  have h0 : 0 < bsGetSize m.frames := by omega
  have hbits : ∀ k, get s₀.frames k = true ↔
      (get m.frames k = true ∨ k = 0 ∨ k = idx) ∨ 1 ≤ k ∧ k < m.lastFrame + 1 := by
    intro k
    rw [K.bits, hpg, get_set (by rwa [bsGetSize_set]), get_set h0]
    simp only [Bool.or_eq_true, decide_eq_true_iff, or_assoc]
  have hsize : bsGetSize s₀.frames = bsGetSize m.frames := by
    rw [bsGetSize, K.sz, ← bsGetSize, page0_size]
  -- a present page is page 0 or one of those mapped by address
  have hpage : ∀ p < 1048576, (pte s₀ p).present = true → ∃ j, p = kernPage + j ∧
      (j = 0 ∧ (pte s₀ p).addr.val = idx ∨ 1 ≤ j ∧ j < m.lastFrame + 1 ∧
        (pte s₀ p).addr.val = j) := by
    intro p hp hpr
    by_cases hr : kernPage ≤ p ∧ p < kernPage + (m.lastFrame + 1)
    · obtain ⟨j, rfl⟩ : ∃ j, p = kernPage + j := ⟨p - kernPage, by omega⟩
      refine ⟨j, rfl, ?_⟩
      by_cases hj : j = 0
      · subst hj
        refine .inl ⟨rfl, ?_⟩
        rw [Nat.add_zero, K.zero, hpg]
        exact ofNat_val hidx
      · exact .inr ⟨by omega, by omega, (K.ident j (by omega) (by omega)).2⟩
    · rw [K.rest p hp hr] at hpr
      cases hpr
  refine ⟨⟨fun p hp q hq hpp hqp e => ?_, fun p hp hpp => ?_⟩, ?_⟩
  · obtain ⟨j, rfl, hj⟩ := hpage p hp hpp
    obtain ⟨i, rfl, hi⟩ := hpage q hq hqp
    have e := congrArg Fin.val e
    omega
  · obtain ⟨j, rfl, hj⟩ := hpage p hp hpp
    rw [hsize, hbits]
    omega
  · have hsub : (Finset.range 1048576).filter (fun k =>
        m.lastFrame < k ∧ k < bsGetSize m.frames ∧ get m.frames k = false) ⊆
        insert idx ((Finset.range 1048576).filter fun k =>
          k < bsGetSize s₀.frames ∧ get s₀.frames k = false) := by
      intro k hk
      simp only [Finset.mem_insert, Finset.mem_filter, Finset.mem_range] at hk ⊢
      obtain ⟨hr, hl, hs, hg⟩ := hk
      by_cases hki : k = idx
      · exact .inl hki
      · refine .inr ⟨hr, hsize ▸ hs, Bool.eq_false_iff.mpr fun h => ?_⟩
        rcases (hbits k).mp h with (h | h | h) | h
        · rw [hg] at h
          cases h
        · omega
        · exact hki h
        · omega
    exact (Finset.card_le_card hsub).trans (Finset.card_insert_le _ _)

/-- After boot the mapped pages have frames of their own, marked as used, if and only if all the
frames that the first loop maps by address were marked before. This holds for every kernel that ends
in the higher half and lies, with what is allocated behind it, below the kernel heap and in the
bitset, and every set of reserved frames that leaves enough free ones. -/
theorem noAlias_iff (hend : kernOffset ≤ m.kernEnd) (hk : m.lastFrame < 65536)
    (hin : m.lastFrame < bsGetSize m.frames) (hfree : heapPages + 1 ≤ m.freeAbove) :
    ∃ s, m.boot = .ok s ∧
      (NoAlias s ↔ ∀ f, 1 ≤ f → f ≤ m.lastFrame → bsTst m.frames f = 1) := by
  obtain ⟨s₀, s₁, hboot, K, H⟩ := boot_spec hend hk hin
  refine ⟨_, hboot, ?_⟩
  have hB : Backed (s₁.switchPageDirectory s₁.kernDir) ↔ Backed s₁ :=
    ⟨fun B => ⟨B.unique, B.marked⟩, fun B => ⟨B.unique, B.marked⟩⟩
  rw [noAlias_iff_backed H.wf.switch, hB]
  constructor
  · intro B f hf1 hfl
    rw [bsTst_eq_one (by omega)]
    by_contra h
    exact not_backed K H hk hin hf1 hfl (Bool.eq_false_iff.mpr h) B
  · intro hres
    have hs : s₀.frames.sz * 32 < 4294967296 := by
      rw [K.sz, page0, mapPage_sz, setFrame_sz]
      exact bsWords_lt m.frameCnt
    obtain ⟨B, hcnt⟩ := kern_backed K hk (by omega)
      fun f hf1 hfl => (bsTst_eq_one (by omega)).mp (hres f hf1 hfl)
    exact (H.backed B (by omega) hs).1

end

/-! ## A small machine -/

/-- A kernel that ends at `0xC0110000`, on 16 MiB without reserved frames. -/
def small : Machine where
  kernEnd := 0xC0110000
  frameCnt := 4096
  bits := Vector.replicate _ 0#32
  dirs := fun _ => PgDir.zero
  tabs := fun _ _ => Page.zero
  ram := fun _ => 0
  cr3 := 0

/-- The small machine has no frame in use. -/
lemma small_get (k : Nat) : get small.frames k = false := by
  have : small.frames.bits = Vector.replicate _ 0#32 := rfl
  rw [Frames.get, this, Vector.getElem?_replicate]
  split <;> simp

/-- The small machine has frames enough. -/
lemma small_freeAbove : heapPages + 1 ≤ small.freeAbove := by
  have hsub : Finset.Ioo 278 600 ⊆ (Finset.range 1048576).filter fun k =>
      small.lastFrame < k ∧ k < bsGetSize small.frames ∧ get small.frames k = false := by
    intro k hk
    have hl : small.lastFrame = 278 := rfl
    have hs : bsGetSize small.frames = 4128 := rfl
    rw [Finset.mem_Ioo] at hk
    rw [Finset.mem_filter, Finset.mem_range, hl, hs]
    exact ⟨by omega, hk.1, by omega, small_get k⟩
  have := Finset.card_le_card hsub
  rw [Nat.card_Ioo] at this
  exact le_trans (by decide) this

/-- What boot hands out on the small machine. -/
theorem handed_identity_small :
    ∃ s, small.boot = .ok s ∧ s.heap.allocPtr = kernOffset + 4096 * (small.lastFrame + 1) ∧
      ∀ b ∈ s.heap.handed, ∀ v, b.1 ≤ v → v < b.1 + b.2 → kernOffset + 0x1000 ≤ v →
        s.Mapped s.kernDir v ∧ s.getPhysical v s.kernDir = v - kernOffset ∧
          s.cpuWalk s.cr3 v = some (v - kernOffset) :=
  handed_identity (by decide) (by decide) (by decide)

/-- The small machine, whose frames are all free. -/
theorem noAlias_iff_small :
    ∃ s, small.boot = .ok s ∧
      (NoAlias s ↔ ∀ f, 1 ≤ f → f ≤ small.lastFrame → bsTst small.frames f = 1) :=
  noAlias_iff (by decide) (by decide) (by decide) small_freeAbove

/-- On the small machine page 0 and page 1 of the kernel share frame 1. -/
theorem alias_small :
    heapPages + 1 ≤ small.freeAbove ∧ ∃ s, small.boot = .ok s ∧ ¬ NoAlias s := by
  obtain ⟨s₀, s₁, hboot, K, H⟩ :=
    boot_spec (m := small) (by decide) (by decide) (by decide)
  refine ⟨small_freeAbove, _, hboot, fun N => ?_⟩
  have B := (noAlias_iff_backed H.wf.switch).mp N
  exact not_backed K H (by decide) (by decide) (f := 1) (by decide) (by decide) (small_get 1)
    ⟨B.unique, B.marked⟩

end ToeS.Boot
