import ToeS.Sched.Shared

/-!
# Private memories from boot on

`vmm_init` and the stack that `tasking_init` allocates leave one address space, the kernel's, with four
pages below `0xC0000000`. From there on every directory that `copy_pg_dir` makes is a private memory: what
it holds are the bytes that were stored while it was in use, over the bytes of the directory it was
copied from.
-/

namespace ToeS.Tasking
open Lib Frames Vmm

variable {σ : Type}

section
variable {kmallocAp : σ → Nat → Nat × Nat × σ} {s s' : State σ}

/-- The first page of the stack is a page below the kernel. -/
lemma Booted.lowPages_ne (B : Booted s) (hm : StackMapped s s' s.kernDir stackPage 4) :
    s'.lowPages s.kernDir ≠ [] := by
  have hz : s.entry s.kernDir 767 1020 = Page.zero := if_pos (B.low 767 (by decide))
  have hold := pageEntry_idx (s := s) (i := 767) (p := 1020) s.kernDir
  have hback := hm.backed stackPage le_rfl (by decide) (congrArg Page.addr (hold.trans hz))
  refine List.ne_nil_of_mem (a := (767, 1020)) (State.mem_lowPages.mpr ⟨by decide, ?_⟩)
  rw [← pageEntry_idx]
  exact hback.1

/-- The kernel's address space with its stack. -/
lemma Booted.separate (B : Booted s) (hs : s.Loaded)
    (hrun : s.allocateStack kmallocAp stackBottom stackSz s.kernDir = .ok (stackBottom, s'))
    (hm : StackMapped s s' s.kernDir stackPage 4) (hf : Fresh s'.log)
    (hh : ∀ r ∈ s'.log, s.Housed r) : Separate ⟨s', [s.kernDir]⟩ := by
  have hk : Keeps s s' := keeps_allocateStack hrun
  obtain ⟨hS, hC⟩ := B.spaces hk hm
  have hdir : ∀ d ∈ [s.kernDir], d = s.kernDir := fun d hd => List.mem_singleton.mp hd
  have hkern : s'.kernDir = s.kernDir := hk.kern
  refine ⟨hS, List.nodup_singleton _, hf, loaded_allocateStack hs hrun, ?_, .inr ⟨?_, ?_⟩,
    fun d hd i p hi ha => ?_, fun d hd i p hi ha => ?_, fun d hd e he i p j q hi hj h0 hpq => ?_⟩
  · show (s'.entry s'.kernDir 896 0).present = false
    rw [hkern]
    exact hC.scratch.2
  · exact congrArg (fun d => [d]) hkern.symm
  · show s'.lowPages s'.kernDir ≠ []
    rw [hkern]
    exact B.lowPages_ne hm
  · rw [hdir d hd] at ha ⊢
    -- a page of the stack would have a frame
    have hz : s.entry s.kernDir i p = Page.zero := if_pos (B.low i hi)
    have hold : s.pageEntry s.kernDir (i.val * 1024 + p.val) = Page.zero := (pageEntry_idx _).trans hz
    by_cases hv : stackPage ≤ i.val * 1024 + p.val ∧ i.val * 1024 + p.val < stackPage + 4
    · have hback := hm.backed _ hv.1 hv.2 (congrArg Page.addr hold)
      rw [pageEntry_idx] at hback
      exact absurd ha hback.1
    · have hp := p.isLt
      have hout := hm.outside (i.val * 1024 + p.val) (by omega) (by omega)
      rw [pageEntry_idx, hold] at hout
      exact congrArg Page.present hout
  · rw [hdir d hd] at ha ⊢
    obtain ⟨hp, hlt, hclr, hused⟩ := B.low_page hm hi ha
    refine ⟨hp, hused, fun r hr x hx e => ?_⟩
    have hhoused := hh r hr x hx (e ▸ hlt)
    rw [e, hclr] at hhoused
    cases hhoused
  · rw [hdir d hd] at h0 hpq
    rw [hdir e he] at hpq
    have hq0 : (s'.entry s.kernDir j q).addr ≠ 0 := hpq ▸ h0
    obtain ⟨hv, hv'⟩ := B.low_range hm hi h0
    obtain ⟨hw, hw'⟩ := B.low_range hm hj hq0
    have hzero : ∀ i p : Fin 1024, i.val < 768 →
        (s.pageEntry s.kernDir (i.val * 1024 + p.val)).addr = 0 := by
      intro i p hi
      rw [pageEntry_idx]
      exact congrArg Page.addr (if_pos (B.low i hi))
    have heq : i.val * 1024 + p.val = j.val * 1024 + q.val :=
      hm.distinct _ _ hv hv' hw hw' (hzero i p hi) (hzero j q hj)
        (by rw [pageEntry_idx, pageEntry_idx]; exact hpq)
    have := p.isLt
    have := q.isLt
    exact ⟨(hdir d hd).trans (hdir e he).symm, Fin.ext (by omega), Fin.ext (by omega)⟩

/-- What is asked of frames and heap for the stack. -/
structure StackReady (kmallocAp : σ → Nat → Nat × Nat × σ) (s : State σ) : Prop where
  frames : 4 ≤ (freeFrames s.frames).length
  table : s.Room kmallocAp (fun r => r ∈ s.log ∨ s.Housed r) 1

end

section
variable {kmallocAp : σ → Nat → Nat × Nat × σ}

/-- From boot on, in whatever order directories are copied and loaded and bytes are stored below the
kernel: what an address space holds at the end are the bytes that were stored in it while it was in use,
over those it held before, however much is done in the others. -/
theorem boot_spaces_private {m : Boot.Machine} (hend : Boot.kernOffset ≤ m.kernEnd)
    (hk : m.lastFrame < 65536) (hin : m.lastFrame < bsGetSize m.frames) :
    ∃ t, m.boot = .ok t ∧ ∀ heap : σ, StackReady kmallocAp (withHeap t heap) →
      ∃ s, (withHeap t heap).allocateStack kmallocAp stackBottom stackSz t.kernDir =
        .ok (stackBottom, s) ∧
        ∀ l l' s₁ s₂, LegalRun (Vmm.Sys.step kmallocAp) (Vmm.Sys.Legal kmallocAp) ⟨s, [t.kernDir]⟩ l →
          exec (Vmm.Sys.step kmallocAp) ⟨s, [t.kernDir]⟩ l = .ok s₁ →
          LegalRun (Vmm.Sys.step kmallocAp) (Vmm.Sys.Legal kmallocAp) s₁ l' →
          exec (Vmm.Sys.step kmallocAp) s₁ l' = .ok s₂ →
          ∀ i d, s₁.dirs[i]? = some d → s₂.dirs[i]? = some d ∧ ∀ va : LowAddr,
            s₂.vm.byteAt d va = (Memories.stores i s₁.memories.cur l').foldl
              Memories.write (fun va : LowAddr => s₁.vm.byteAt d va) va := by
  obtain ⟨t, hboot, B⟩ := boot_booted hend hk hin
  refine ⟨t, hboot, fun heap R => ?_⟩
  have hloaded : (withHeap t heap).Loaded := by
    obtain ⟨_, -, h⟩ := bind_ok.mp hboot
    obtain ⟨_, -, h⟩ := bind_ok.mp h
    cases h
    rfl
  obtain ⟨s, hstack, hm, hf, hh⟩ := (B.withHeap heap).stack R.frames R.table
  refine ⟨s, hstack, fun l l' s₁ s₂ hl hrun hl' hrun' i d hd => ?_⟩
  have S := (B.withHeap heap).separate hloaded hstack hm hf hh
  have hstep : ∀ s M c, Private s M → Vmm.Sys.Legal kmallocAp s c →
      Both Private (Vmm.Sys.step kmallocAp s c) (M.step Fault.pageFault c) :=
    fun _ _ c P hl => P.step c hl
  obtain ⟨M, -, P⟩ := (exec_sim hstep S.memories hl).of_ok hrun
  obtain ⟨M', hM', P'⟩ := (exec_sim hstep P.separate.memories hl').of_ok hrun'
  obtain ⟨hlen, hget⟩ := List.getElem?_eq_some_iff.mp hd
  have hd' : s₂.dirs[i]? = some d := by
    obtain ⟨ds, hds⟩ := Sys.dirs_prefix hrun'
    rw [← hds, List.getElem?_append_left hlen, hd]
  refine ⟨hd', fun va => ?_⟩
  have hmem := Memories.mem_of_run hM' (i := i) (by rw [Sys.memories, List.length_map]; exact hlen)
  rw [P'.mem hd', P.separate.memories.mem hd] at hmem
  exact congrFun hmem va

end

section
variable {s : State Nat} {d : Nat}

/-- On the small machine there is enough of everything for a copy. -/
lemma small_legal_copy (A : Ample 4 8 s d) (hcur : s.currentDir = d) :
    Vmm.Sys.Legal pagesAp ⟨s, [d]⟩ .copy := by
  obtain ⟨hpages, -⟩ := A.affords (k := 4) (by decide)
  subst hcur
  exact ⟨hpages, 1, A.tabs, (A.supplies (by decide)).imp fun r hr d hd =>
    List.mem_singleton.mp hd ▸ hr.1⟩

end

/-- On the small machine, with a copy of the kernel's address space that is written to. -/
theorem boot_spaces_private_small :
    ∃ t s, Boot.small.boot = .ok t ∧
      (withHeap t (Boot.kheapStart + 4096)).allocateStack pagesAp stackBottom stackSz t.kernDir =
        .ok (stackBottom, s) ∧
      ∀ s₁, exec (Vmm.Sys.step pagesAp) ⟨s, [t.kernDir]⟩ [.copy] = .ok s₁ →
        ∀ s₂, exec (Vmm.Sys.step pagesAp) s₁ [.use 1, .store 0xBFFFC000 7] = .ok s₂ →
          ∀ va : LowAddr, s₂.vm.byteAt t.kernDir va = s₁.vm.byteAt t.kernDir va := by
  have hlast : Boot.small.lastFrame = 278 := by decide
  have hsize : bsGetSize Boot.small.frames = 4128 := by decide
  obtain ⟨t, hboot, h⟩ := @boot_spaces_private Nat pagesAp Boot.small (by decide) (by omega) (by omega)
  obtain ⟨t', hboot', B, F, hsize', hB⟩ := small_booted
  obtain rfl := Except.ok.inj (hboot.symm.trans hboot')
  have B := B.withHeap (Boot.kheapStart + 4096)
  have R := small_ready B F hsize' hB
  obtain ⟨s, hrun, hruns⟩ := h _ ⟨R.frames, R.table⟩
  refine ⟨t, s, hboot, hrun, fun s₁ h₁ s₂ h₂ va => ?_⟩
  have hlen : 1 < s₁.dirs.length ∧ s₁.dirs[0]? = some t.kernDir := by
    obtain ⟨s₃, h₃, h₁⟩ := exec_cons_ok.mp h₁
    obtain ⟨⟨new, vm⟩, -, h₃⟩ := bind_ok.mp h₃
    cases h₁
    cases h₃
    exact ⟨Nat.lt_succ_self 1, rfl⟩
  have hcopy : Vmm.Sys.Legal pagesAp ⟨s, [t.kernDir]⟩ .copy :=
    small_legal_copy (B.ample F hsize' hB hrun) ((keeps_allocateStack hrun).cur.trans B.cur)
  exact (hruns [.copy] [.use 1, .store 0xBFFFC000 7] s₁ s₂ ⟨hcopy, fun _ _ => trivial⟩ h₁
    ⟨hlen.1, fun _ _ => ⟨trivial, fun _ _ => trivial⟩⟩ h₂ 0 t.kernDir hlen.2).2 va

end ToeS.Tasking
