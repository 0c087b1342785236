import ToeS.Boot.Defs

/-!
# The kernel's address space during boot

`pte` is the page entry that `kern_dir` has for a virtual page number, and views the directory with its
tables as one function. `Wf` ties it to the memory that the placement allocator has handed out: tables
are disjoint, so that storing one page entry changes the view at one page number. `MapStep` is what a
round of either loop of `vmm_init` does to the view.
-/

namespace ToeS.Boot
open Lib Frames Vmm

/-! ## The placement allocator -/

/-- `pg_round_up` goes to the next page also from the beginning of one. -/
lemma pgRoundUp_eq {x : Nat} (h : x + 4096 < 4294967296) : pgRoundUp x = x / 4096 * 4096 + 4096 := by
  rw [pgRoundUp, and_frame (by omega), u32_eq (by omega)]

/-- A kernel address is the physical one and an offset. -/
lemma v2p_eq {x : Nat} (h : kernOffset ≤ x) (hx : x < 4294967296) : v2p x + kernOffset = x := by
  rw [v2p, sub32_eq h hx, Nat.sub_add_cancel h]

/-- Memory comes from behind `alloc_ptr`, page-aligned. -/
lemma kmallocAp_eq {b : Bump} {sz : Nat} (h : b.allocPtr + 4096 + sz < 4294967296) :
    kmallocAp b sz = (b.allocPtr / 4096 * 4096 + 4096, v2p (b.allocPtr / 4096 * 4096 + 4096),
      ⟨b.allocPtr / 4096 * 4096 + 4096 + sz,
        (b.allocPtr / 4096 * 4096 + 4096, sz) :: b.handed⟩) := by
  have hr : pgRoundUp b.allocPtr = b.allocPtr / 4096 * 4096 + 4096 := pgRoundUp_eq (by omega)
  simp only [kmallocAp, kmallocHelper, if_true, hr]
  rw [u32_eq (by omega)]

/-- Everything handed out lies between the kernel offset and `alloc_ptr`. -/
def Bump.Ok (b : Bump) : Prop := ∀ r ∈ b.handed, kernOffset ≤ r.1 ∧ r.1 + r.2 ≤ b.allocPtr

/-- What is handed out behind the pointer is apart from the rest. -/
lemma Bump.Ok.cons {b : Bump} {a sz : Nat} (h : b.Ok) (hk : kernOffset ≤ b.allocPtr)
    (ha : b.allocPtr ≤ a) : Bump.Ok ⟨a + sz, (a, sz) :: b.handed⟩ := by
  intro r hr
  rcases List.mem_cons.mp hr with rfl | hr
  · exact ⟨by show kernOffset ≤ a; omega, le_refl _⟩
  · obtain ⟨h₁, h₂⟩ := h r hr
    exact ⟨h₁, by show _ ≤ a + sz; omega⟩

/-- `kmalloc` hands out what the pointer points to. -/
lemma kmalloc_eq {b : Bump} {sz : Nat} (h : b.allocPtr + sz < 4294967296) :
    kmalloc b sz = ⟨b.allocPtr + sz, (b.allocPtr, sz) :: b.handed⟩ := by
  simp only [kmalloc, kmallocHelper, Bool.false_eq_true, if_false]
  rw [u32_eq h]

/-! ## The view -/

variable {σ : Type}

/-- `kern_dir` has a table at the index. -/
def HasTab (s : State σ) (i : Fin 1024) : Prop := (s.dirs s.kernDir).tables i ≠ 0

instance (s : State σ) (i : Fin 1024) : Decidable (HasTab s i) := inferInstanceAs (Decidable (¬ _))

/-- The entry of `kern_dir` for the virtual page with the number `q`. -/
def pte (s : State σ) (q : Nat) : Page :=
  if HasTab s (pdIdx (q * 4096)) then
    s.tabs ((s.dirs s.kernDir).tables (pdIdx (q * 4096))) (ptIdx (q * 4096))
  else Page.zero

/-- The entry of a page that has a table. -/
lemma pte_of_tab {s : State σ} {q : Nat} (h : HasTab s (pdIdx (q * 4096))) :
    pte s q = s.tabs ((s.dirs s.kernDir).tables (pdIdx (q * 4096))) (ptIdx (q * 4096)) := if_pos h

/-- The entry of a page that has none is empty. -/
lemma pte_of_not_tab {s : State σ} {q : Nat} (h : ¬ HasTab s (pdIdx (q * 4096))) :
    pte s q = Page.zero := if_neg h

/-- Page numbers with the same indices are equal. -/
lemma eq_of_idx {p q : Nat} (hp : p < 1048576) (hq : q < 1048576)
    (h₁ : pdIdx (p * 4096) = pdIdx (q * 4096)) (h₂ : ptIdx (p * 4096) = ptIdx (q * 4096)) :
    p = q := by
  have h₁ := congrArg Fin.val h₁
  have h₂ := congrArg Fin.val h₂
  simp only [pdIdx, ptIdx] at h₁ h₂
  omega

/-- An address has the first index of its page. -/
lemma pdIdx_page (va : Nat) : pdIdx (va / 4096 * 4096) = pdIdx va := by
  apply Fin.ext
  simp only [pdIdx]
  omega

/-- An address has the second index of its page. -/
lemma ptIdx_page (va : Nat) : ptIdx (va / 4096 * 4096) = ptIdx va := by
  apply Fin.ext
  simp only [ptIdx]
  omega

/-- An address is mapped when the entry of its page is present. -/
lemma mapped_iff {s : State σ} {va : Nat} :
    s.Mapped s.kernDir va ↔ (pte s (va / 4096)).present = true := by
  unfold pte
  rw [pdIdx_page, ptIdx_page]
  by_cases h : HasTab s (pdIdx va)
  · rw [if_pos h]
    exact and_iff_right h
  · rw [if_neg h]
    exact ⟨fun hm => (h hm.1).elim, fun hp => (nomatch hp)⟩

/-- `get_physical` finds the frame of a mapped page. -/
lemma getPhysical_pte {s : State σ} {va : Nat} (hk : s.kernDir ≠ 0) (h : s.Mapped s.kernDir va) :
    s.getPhysical va s.kernDir = (pte s (va / 4096)).addr * 4096 + va % 4096 := by
  have htab : HasTab s (pdIdx (va / 4096 * 4096)) := pdIdx_page va ▸ h.1
  rw [State.getPhysical_eq hk h.1, pte_of_tab htab, pdIdx_page, ptIdx_page]

/-- The directory, its tables and the allocator. -/
structure Wf (s : State Bump) : Prop where
  kern : s.IsDir s.kernDir
  inv : Inv s
  placed : ∀ r ∈ s.log, kernOffset ≤ r.addr ∧ r.addr % 4096 = 0 ∧ r.phys + kernOffset = r.addr ∧
    r.addr + r.obj.size ≤ s.heap.allocPtr
  apart : s.log.Pairwise fun r r' => r'.addr + r'.obj.size ≤ r.addr
  inj : ∀ i j, HasTab s i → (s.dirs s.kernDir).tables i = (s.dirs s.kernDir).tables j → i = j
  handed : s.heap.Ok

section
variable {s s' : State Bump} {q a : Nat}

/-- The placement allocator hands out fresh memory. -/
lemma Wf.fresh (W : Wf s) (h : s.heap.allocPtr ≤ 4294967296) : Fresh s.log where
  valid := by
    intro r hr
    obtain ⟨h₁, h₂, h₃, h₄⟩ := W.placed r hr
    unfold kernOffset at *
    exact ⟨by omega, h₂, by omega, by omega, by omega⟩
  apart := by
    refine W.apart.imp_of_mem fun {r r'} hr hr' h => ⟨.inr h, .inr ?_⟩
    obtain ⟨-, -, h₃, -⟩ := W.placed r hr
    obtain ⟨-, -, h₃', -⟩ := W.placed r' hr'
    omega

/-- A table lies below `alloc_ptr`. -/
lemma Wf.tab_lt (W : Wf s) {i : Fin 1024} (h : HasTab s i) :
    (s.dirs s.kernDir).tables i < s.heap.allocPtr := by
  rcases W.inv.entry _ W.kern i with ⟨h0, -⟩ | ⟨r, hr, -, ha, -⟩
  · exact (h h0).elim
  · have := (W.placed r hr).2.2.2
    have := r.obj.size_pos
    omega

/-- The kernel has a directory. -/
lemma Wf.kern_ne (W : Wf s) : s.kernDir ≠ 0 := by
  obtain ⟨r, hr, -, ha⟩ := W.kern
  have := (W.placed r hr).1
  unfold kernOffset at this
  omega

/-- The placement allocator is in the upper half. -/
lemma Wf.kernOffset_le (W : Wf s) : kernOffset ≤ s.heap.allocPtr := by
  obtain ⟨r, hr, -⟩ := W.kern
  obtain ⟨h, -, -, h'⟩ := W.placed r hr
  omega

/-- What a round of a loop of `vmm_init` does: the entry of page `q` is mapped, in a new table if
there was none. -/
structure MapStep (s : State Bump) (q a : Nat) (s' : State Bump) : Prop where
  wf : Wf s'
  kernDir : s'.kernDir = s.kernDir
  frames : s'.frames = (Vmm.mapPage s.frames (pte s q) 1 1 a).1
  pte : ∀ p < 1048576, pte s' p =
    if p = q then (Vmm.mapPage s.frames (pte s q) 1 1 a).2 else Boot.pte s p
  hasTab : ∀ i, HasTab s' i ↔ HasTab s i ∨ i = pdIdx (q * 4096)
  heap : s'.heap.allocPtr = if HasTab s (pdIdx (q * 4096)) then s.heap.allocPtr
    else s.heap.allocPtr / 4096 * 4096 + 8192

/-- Mapping an entry of a table that is there. -/
lemma mapStep_mapPage (W : Wf s) (hq : q < 1048576) (h : HasTab s (pdIdx (q * 4096))) :
    MapStep s q a (s.mapPage
      ((s.dirs s.kernDir).tables (pdIdx (q * 4096)), ptIdx (q * 4096)) 1 1 a) := by
  set t := (s.dirs s.kernDir).tables (pdIdx (q * 4096)) with ht
  set s' := s.mapPage (t, ptIdx (q * 4096)) 1 1 a with hs'
  have hpq : pte s q = s.tabs t (ptIdx (q * 4096)) := pte_of_tab h
  have hframes : s'.frames = (Vmm.mapPage s.frames (pte s q) 1 1 a).1 := by
    rw [hpq]
    rfl
  have htabs : s'.tabs = Function.update s.tabs t (Function.update (s.tabs t) (ptIdx (q * 4096))
      (Vmm.mapPage s.frames (pte s q) 1 1 a).2) := by
    rw [hpq]
    rfl
  refine ⟨⟨W.kern, ⟨W.inv.phys, W.inv.entry⟩, W.placed, W.apart, W.inj, W.handed⟩, rfl, hframes, ?_,
    fun i => ⟨.inl, fun hi => hi.elim id fun hi => hi ▸ h⟩, (if_pos h).symm⟩
  intro p hp
  by_cases hpd : pdIdx (p * 4096) = pdIdx (q * 4096)
  · have hview : pte s' p = s'.tabs t (ptIdx (p * 4096)) := by
      have hp : HasTab s' (pdIdx (p * 4096)) := hpd.symm ▸ h
      rw [pte_of_tab hp, hpd]
      rfl
    rw [hview, htabs, Function.update_self, Function.update_apply]
    by_cases hpt : ptIdx (p * 4096) = ptIdx (q * 4096)
    · rw [if_pos hpt, if_pos (eq_of_idx hp hq hpd hpt)]
    · have hne : p ≠ q := fun e => hpt (e ▸ rfl)
      rw [if_neg hpt, if_neg hne, pte_of_tab (hpd.symm ▸ h), hpd]
  · have hne : p ≠ q := fun e => hpd (e ▸ rfl)
    rw [if_neg hne]
    by_cases htab : HasTab s (pdIdx (p * 4096))
    · have hother : (s.dirs s.kernDir).tables (pdIdx (p * 4096)) ≠ t :=
        fun e => hpd (W.inj _ _ htab e)
      have hp : HasTab s' (pdIdx (p * 4096)) := htab
      rw [pte_of_tab hp, pte_of_tab htab, htabs]
      exact congrFun (Function.update_of_ne hother _ _) _
    · have hp : ¬ HasTab s' (pdIdx (p * 4096)) := htab
      rw [pte_of_not_tab hp, pte_of_not_tab htab]

/-- A missing table is allocated at the next page boundary. -/
lemma getPage_new (h : ¬ HasTab s (pdIdx (q * 4096)))
    (hroom : s.heap.allocPtr + 8192 < 4294967296) :
    ∃ t s₁, t = s.heap.allocPtr / 4096 * 4096 + 4096 ∧
      s.getPage kmallocAp (q * 4096) 1 s.kernDir = (some (t, ptIdx (q * 4096)), s₁) ∧
      s₁.heap = ⟨t + 4096, (t, 4096) :: s.heap.handed⟩ ∧ s₁.log = ⟨.pgTab, t, v2p t⟩ :: s.log ∧
      s₁.kernDir = s.kernDir ∧ s₁.frames = s.frames ∧
      s₁.tabs = Function.update s.tabs t (fun _ => Page.zero) ∧
      (s₁.dirs s.kernDir).tables =
        Function.update (s.dirs s.kernDir).tables (pdIdx (q * 4096)) t := by
  set t := s.heap.allocPtr / 4096 * 4096 + 4096 with ht
  have halloc : s.alloc kmallocAp .pgTab = (⟨.pgTab, t, v2p t⟩,
      { s with heap := ⟨t + 4096, (t, 4096) :: s.heap.handed⟩,
               log := ⟨.pgTab, t, v2p t⟩ :: s.log }) := by
    have hmalloc : kmallocAp s.heap 4096 = (t, v2p t, ⟨t + 4096, (t, 4096) :: s.heap.handed⟩) :=
      kmallocAp_eq (by omega)
    simp only [State.alloc, Obj.size, hmalloc]
  have hnot : ¬ (s.dirs s.kernDir).tables (pdIdx (q * 4096)) ≠ 0 := h
  refine ⟨t, (s.getPage kmallocAp (q * 4096) 1 s.kernDir).2, rfl, ?_⟩
  rw [State.getPage, if_neg hnot, if_pos (by decide : (1 : Nat) ≠ 0), halloc]
  refine ⟨rfl, rfl, rfl, rfl, rfl, rfl, ?_⟩
  simp only [State.setEntry, State.setDir, State.setTab, Function.update_self]

/-- A missing table is allocated, and is empty. -/
lemma newTab_spec (W : Wf s) (h : ¬ HasTab s (pdIdx (q * 4096)))
    (hroom : s.heap.allocPtr + 8192 < 4294967296) :
    ∃ s₁, s.getPage kmallocAp (q * 4096) 1 s.kernDir =
        (some ((s₁.dirs s₁.kernDir).tables (pdIdx (q * 4096)), ptIdx (q * 4096)), s₁) ∧
      Wf s₁ ∧ s₁.kernDir = s.kernDir ∧ s₁.frames = s.frames ∧ (∀ p, pte s₁ p = pte s p) ∧
      (∀ i, HasTab s₁ i ↔ HasTab s i ∨ i = pdIdx (q * 4096)) ∧
      s₁.heap.allocPtr = s.heap.allocPtr / 4096 * 4096 + 8192 := by
  obtain ⟨t, s₁, ht, hget, hheap, hlog, hkern, hframes, htabs, htables⟩ := getPage_new h hroom
  set i := pdIdx (q * 4096) with hi
  have hlt : s.heap.allocPtr < t := by omega
  have hk := W.kernOffset_le
  have htab : ∀ j, (s₁.dirs s₁.kernDir).tables j = if j = i then t else
      (s.dirs s.kernDir).tables j := by
    intro j
    rw [hkern, htables, Function.update_apply]
  have hself : (s₁.dirs s₁.kernDir).tables i = t := by rw [htab, if_pos rfl]
  have hhas : ∀ j, HasTab s₁ j ↔ HasTab s j ∨ j = i := by
    intro j
    unfold HasTab
    rw [htab]
    by_cases hj : j = i
    · rw [if_pos hj]
      exact iff_of_true (by omega) (.inr hj)
    · rw [if_neg hj]
      exact (or_iff_left hj).symm
  have K : Keeps s s₁ := by
    have K : Keeps s (s.getPage kmallocAp (q * 4096) 1 s.kernDir).2 := keeps_getPage
    rwa [hget] at K
  have hplaced : ∀ r ∈ s₁.log, kernOffset ≤ r.addr ∧ r.addr % 4096 = 0 ∧
      r.phys + kernOffset = r.addr ∧ r.addr + r.obj.size ≤ s₁.heap.allocPtr := by
    rw [hlog, hheap]
    intro r hr
    rcases List.mem_cons.mp hr with rfl | hr
    · exact ⟨by show _ ≤ t; omega, by show t % 4096 = 0; omega, v2p_eq (by omega) (by omega),
        le_refl _⟩
    · obtain ⟨h₁, h₂, h₃, h₄⟩ := W.placed r hr
      exact ⟨h₁, h₂, h₃, by show _ ≤ t + 4096; omega⟩
  have hapart : s₁.log.Pairwise fun r r' => r'.addr + r'.obj.size ≤ r.addr := by
    rw [hlog]
    refine List.pairwise_cons.mpr ⟨fun r hr => ?_, W.apart⟩
    obtain ⟨-, -, -, h₄⟩ := W.placed r hr
    show _ ≤ t
    omega
  have hinj : ∀ j k, HasTab s₁ j →
      (s₁.dirs s₁.kernDir).tables j = (s₁.dirs s₁.kernDir).tables k → j = k := by
    intro j k hj e
    have hbelow : ∀ {j}, HasTab s j → (s.dirs s.kernDir).tables j ≠ t := fun hj e => by
      have := W.tab_lt hj
      omega
    rw [htab, htab] at e
    split at e <;> split at e
    · simp_all
    · rename_i hji hki
      have hkt : HasTab s k := fun e0 => by omega
      exact (hbelow hkt e.symm).elim
    · rename_i hji hki
      exact (hbelow (((hhas j).mp hj).resolve_right hji) e).elim
    · rename_i hji hki
      exact W.inj j k (((hhas j).mp hj).resolve_right hji) e
  have hfresh : Fresh s₁.log := by
    refine ⟨fun r hr => ?_, hapart.imp_of_mem fun {r r'} hr hr' h => ⟨.inr h, .inr ?_⟩⟩
    · obtain ⟨h₁, h₂, h₃, h₄⟩ := hplaced r hr
      rw [hheap] at h₄
      have h₄ : r.addr + r.obj.size ≤ t + 4096 := h₄
      unfold kernOffset at *
      exact ⟨by omega, h₂, by omega, by omega, by omega⟩
    · have := (hplaced r hr).2.2.1
      have := (hplaced r' hr').2.2.1
      omega
  refine ⟨s₁, by rw [hget, hself], ⟨hkern ▸ W.kern.mono K.log, K.inv hfresh W.inv, hplaced, hapart,
    hinj, ?_⟩, hkern, hframes, ?_, hhas, ?_⟩
  · rw [hheap]
    exact W.handed.cons hk (by omega)
  · intro p
    by_cases hp : HasTab s₁ (pdIdx (p * 4096))
    · rw [pte_of_tab hp, htab, htabs]
      by_cases hpi : pdIdx (p * 4096) = i
      · rw [if_pos hpi, Function.update_self, pte_of_not_tab (hpi ▸ h)]
      · have hps := ((hhas _).mp hp).resolve_right hpi
        have := W.tab_lt hps
        rw [if_neg hpi, Function.update_of_ne (by omega), pte_of_tab hps]
    · have hps : ¬ HasTab s (pdIdx (p * 4096)) := fun h => hp ((hhas _).mpr (.inl h))
      rw [pte_of_not_tab hp, pte_of_not_tab hps]
  · rw [hheap]
    show t + 4096 = _
    omega

/-- `get_page` and `map_page` at the page `q` of `kern_dir`. -/
lemma mapAt_spec (W : Wf s) (hq : q < 1048576) (hroom : s.heap.allocPtr + 8192 < 4294967296) :
    ∃ pg s', s.mapAt kmallocAp (q * 4096) s.kernDir a = .ok (pg, s') ∧ MapStep s q a s' := by
  by_cases h : HasTab s (pdIdx (q * 4096))
  · have h' : (s.dirs s.kernDir).tables (pdIdx (q * 4096)) ≠ 0 := h
    exact ⟨_, _, by rw [State.mapAt, State.getPage, if_pos h'], mapStep_mapPage W hq h⟩
  · obtain ⟨s₁, hget, W₁, hk₁, hf₁, hp₁, ht₁, ha₁⟩ := newTab_spec W h hroom
    have hq₁ : HasTab s₁ (pdIdx (q * 4096)) := (ht₁ _).mpr (.inr rfl)
    have M := mapStep_mapPage (a := a) W₁ hq hq₁
    refine ⟨_, _, by rw [State.mapAt, hget], M.wf, M.kernDir.trans hk₁, ?_, fun p hp => ?_,
      fun i => ?_, ?_⟩
    · rw [M.frames, hf₁, hp₁]
    · rw [M.pte p hp, hf₁, hp₁, hp₁]
    · rw [M.hasTab, ht₁, or_assoc, or_self]
    · rw [M.heap, if_pos hq₁, if_neg h, ha₁]

end

end ToeS.Boot
