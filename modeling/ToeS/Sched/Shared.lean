import ToeS.Boot.Mapping
import ToeS.Sched.Tasking

/-!
# The kernel half of every address space

From `vmm_init` on: `tasking_init` and every run of `fork` and `schedule` leave all address spaces with one
half from `0xC0000000` on. The small machine at the end has a heap that hands out its memory in order, so
what is left of heap and frames can be counted (`Ample`), and `fork` returns.
-/

namespace ToeS.Tasking
open Lib Frames Vmm
open Boot (Filled)

variable {σ : Type}

/-- The state with a kernel heap in the place of the placement allocator. -/
def withHeap (s : State Boot.Bump) (heap : σ) : State σ :=
  ⟨heap, s.log, s.frames, s.dirs, s.tabs, s.ram, s.kernDir, s.currentDir, s.cr3⟩

/-- Another heap makes no difference. -/
lemma Booted.withHeap {s : State Boot.Bump} (B : Booted s) (heap : σ) : Booted (withHeap s heap) := by
  obtain ⟨⟨hdir, hI, hapart, hbits, hzero⟩, hcur, hlow, hscr, hh⟩ := B
  exact ⟨⟨hdir, ⟨hI.phys, hI.entry⟩, hapart, hbits, hzero⟩, hcur, hlow, hscr, hh⟩

section
variable {kmallocAp : σ → Nat → Nat × Nat × σ} {kmalloc : σ → Nat → Nat × σ}

/-- From `vmm_init` and `tasking_init` on, in whatever order `fork` and `schedule` are called: all
address spaces share one kernel half, which stays what it was, and no copy goes over a page table. -/
theorem kernel_half_shared {m : Boot.Machine} (hend : Boot.kernOffset ≤ m.kernEnd)
    (hk : m.lastFrame < 65536) (hin : m.lastFrame < bsGetSize m.frames) :
    ∃ t, m.boot = .ok t ∧ ∀ (heap : σ) (ram : Mem) (st : Sched.State),
      Ready kmallocAp kmalloc (withHeap t heap) →
        ∃ s₀, taskingInit kmallocAp kmalloc (withHeap t heap) ram st = .ok s₀ ∧ Shared s₀ ∧
          ∀ ops, LegalRun (step kmallocAp kmalloc) (Legal kmallocAp kmalloc) s₀ ops →
            exec (step kmallocAp kmalloc) s₀ ops ≠ .error .clobbered ∧
              ∀ s, exec (step kmallocAp kmalloc) s₀ ops = .ok s →
                Shared s ∧ SameKernel s₀.vm s.vm := by
  obtain ⟨t, hboot, B⟩ := boot_booted hend hk hin
  refine ⟨t, hboot, fun heap ram st R => ?_⟩
  obtain ⟨_, _, _, _, s₀, hinit, S⟩ := (B.withHeap heap).tasking R ram st
  have hrun := S.running
  refine ⟨s₀, hinit, hrun.shared, fun ops hl => ?_⟩
  have hstep : ∀ s op, (Running s ∧ SameKernel s₀.vm s.vm) → Legal kmallocAp kmalloc s op →
      step kmallocAp kmalloc s op ≠ .error .clobbered ∧
        ∀ s', step kmallocAp kmalloc s op = .ok s' → Running s' ∧ SameKernel s₀.vm s'.vm := by
    rintro s op ⟨hr, hsame⟩ hl
    obtain ⟨hne, hok⟩ := hr.step hl
    exact ⟨hne, fun s' hs' => ⟨(hok s' hs').1, hsame.trans (hok s' hs').2⟩⟩
  refine ⟨exec_safe hstep ⟨hrun, .refl _⟩ hl, fun s hs => ?_⟩
  obtain ⟨hr, hsame⟩ := exec_ok_inv (I := fun s => Running s ∧ SameKernel s₀.vm s.vm)
    (fun s op s' hI hl hs' => (hstep s op hI hl).2 s' hs') ⟨hrun, .refl _⟩ hl hs
  exact ⟨hr.shared, hsame⟩

end

/-! ## A small machine -/

/-- A heap that hands out the memory from an address on, on pages in the frames from 279 on. -/
def pagesAp (a sz : Nat) : Nat × Nat × Nat :=
  let a := (a + 4095) / 4096 * 4096
  (a, a - Boot.kheapStart + 279 * 4096, a + sz)

@[inherit_doc pagesAp] def pages (a sz : Nat) : Nat × Nat := (a, a + sz)

/-- After `n` requests all memory is below the top of the heap. -/
structure Below (n : Nat) (heap : Nat) (log : List Region) : Prop where
  fresh : Fresh log
  lo : Boot.kheapStart ≤ heap
  hi : heap ≤ Boot.kheapStart + 4096 + n * 12291
  addr : ∀ r ∈ log, r.addr + r.obj.size ≤ heap
  phys : ∀ r ∈ log, r.phys + r.obj.size + Boot.kheapStart ≤ heap + 279 * 4096

section
variable {n heap : Nat} {log : List Region} {P : Region → Prop}

/-- Memory that is handed out to no table counts as a request. -/
lemma Below.mono {heap' : Nat} (B : Below n heap log) (h : heap ≤ heap') (hn : heap' ≤ heap + 12291) :
    Below (n + 1) heap' log := by
  obtain ⟨hf, hlo, hhi, ha, hp⟩ := B
  refine ⟨hf, by omega, by omega, fun r hr => ?_, fun r hr => ?_⟩
  · have := ha r hr
    omega
  · have := hp r hr
    omega

/-- A table or directory lies on top of the others. -/
lemma Below.alloc (B : Below n heap log) (hn : n < 20) (o : Obj) :
    Below (n + 1) (pagesAp heap o.size).2.2
      (⟨o, (pagesAp heap o.size).1, (pagesAp heap o.size).2.1⟩ :: log) := by
  obtain ⟨hf, hlo, hhi, ha, hp⟩ := B
  have ho : o.size ≤ 8196 := by cases o <;> decide
  obtain ⟨a, p, hp', hap⟩ : ∃ a p, (heap ≤ a ∧ a ≤ heap + 4095 ∧ a % 4096 = 0 ∧
      p = a - Boot.kheapStart + 279 * 4096) ∧ pagesAp heap o.size = (a, p, a + o.size) :=
    ⟨_, _, ⟨by omega, by omega, by omega, rfl⟩, rfl⟩
  obtain ⟨hle, hle', hal, hpa⟩ := hp'
  rw [hap]
  dsimp only
  refine ⟨⟨fun r hr => ?_, List.pairwise_cons.mpr ⟨fun r hr => ?_, hf.apart⟩⟩, by omega, by omega,
    fun r hr => ?_, fun r hr => ?_⟩
  · rcases List.mem_cons.mp hr with rfl | hr
    · have hstart : Boot.kheapStart = 0xD0000000 := rfl
      dsimp only
      omega
    · exact hf.valid r hr
  · have := ha r hr
    have := hp r hr
    dsimp only
    omega
  · rcases List.mem_cons.mp hr with rfl | hr
    · exact le_rfl
    · have := ha r hr
      omega
  · rcases List.mem_cons.mp hr with rfl | hr
    · dsimp only
      omega
    · have := hp r hr
      omega

/-- Such a heap serves some requests more, in the frames above the kernel. -/
lemma Below.supplies {objs : List Obj} {m : Nat} (B : Below n heap log) (hn : n + objs.length ≤ m)
    (hm : m ≤ 20) (hP : ∀ r : Region, r.phys + r.obj.size ≤ 280 * 4096 + m * 12291 → P r) :
    Supplies pagesAp P objs heap log := by
  induction objs generalizing n heap log with
  | nil =>
    obtain ⟨hf, -, hhi, -, hp⟩ := B
    refine ⟨hf, fun r hr => hP r ?_⟩
    have := hp r hr
    simp only [List.length_nil] at hn
    omega
  | cons o objs ih =>
    simp only [List.length_cons] at hn
    exact ih (B.alloc (by omega) o) (by omega)

/-- All memory is below the top of the heap, which is still at `base` or ends a table or directory. -/
structure Piled (base heap : Nat) (log : List Region) : Prop where
  base_le : base ≤ heap
  addr : ∀ r ∈ log, r.addr + r.obj.size ≤ heap
  phys : ∀ r ∈ log, r.phys + r.obj.size + Boot.kheapStart ≤ heap + 279 * 4096
  top : heap = base ∨ ∃ r ∈ log, r.phys + r.obj.size + Boot.kheapStart = heap + 279 * 4096

/-- A heap starts as a pile. -/
lemma Below.piled (B : Below n heap log) : Piled heap heap log := ⟨le_rfl, B.addr, B.phys, .inl rfl⟩

/-- Every request goes on top. -/
lemma piled_pagesAp {base : Nat} (hbase : Boot.kheapStart ≤ base) :
    AllocInv pagesAp (Piled base) := by
  rintro heap log o ⟨h₁, h₂, h₃, -⟩
  obtain ⟨a, p, ⟨hle, hp⟩, hap⟩ : ∃ a p, (heap ≤ a ∧ p = a - Boot.kheapStart + 279 * 4096) ∧
      pagesAp heap o.size = (a, p, a + o.size) := ⟨_, _, ⟨by omega, rfl⟩, rfl⟩
  rw [hap]
  dsimp only
  refine ⟨by omega, fun r hr => ?_, fun r hr => ?_, .inr ⟨_, List.mem_cons_self .., ?_⟩⟩
  · rcases List.mem_cons.mp hr with rfl | hr
    · exact le_rfl
    · have := h₂ r hr
      omega
  · rcases List.mem_cons.mp hr with rfl | hr
    · dsimp only
      omega
    · have := h₃ r hr
      omega
  · dsimp only
    omega

/-- The top of a pile is where its highest piece ends. -/
lemma Piled.below {base : Nat} (h : Piled base heap log) (hf : Fresh log)
    (hbase : Boot.kheapStart ≤ base) (hhi : base ≤ Boot.kheapStart + 4096 + n * 12291)
    (hP : ∀ r ∈ log, r.phys + r.obj.size ≤ 280 * 4096 + n * 12291) : Below n heap log := by
  obtain ⟨h₁, h₂, h₃, htop⟩ := h
  refine ⟨hf, hbase.trans h₁, ?_, h₂, h₃⟩
  rcases htop with rfl | ⟨r, hr, e⟩
  · exact hhi
  · have := hP r hr
    omega

/-- The loop of `allocate_stack` makes a table for each page at most. -/
lemma Below.stackLoop {s s' : State Nat} {start sz d fuel i : Nat} (B : Below n s.heap s.log)
    (hend : start + sz ≤ 0xfffff000) (hn : n + (start + sz + 4095 - i) / 4096 ≤ 20)
    (h : State.stackLoop pagesAp start sz d fuel i s = .ok s') :
    Below (n + (start + sz + 4095 - i) / 4096) s'.heap s'.log := by
  have hu : u32 (start + sz) = start + sz := u32_eq (by omega)
  induction fuel generalizing i s n with
  | zero => cases h
  | succ fuel ih =>
    rw [State.stackLoop, hu] at h
    split at h
    · rename_i hlt
      obtain ⟨⟨p, s₁⟩, h₁, h⟩ := bind_ok.mp h
      have hnext : u32 (i + pgSz) = i + 4096 := u32_eq (by rw [pgSz_eq]; omega)
      rw [hnext] at h
      have hB : Below (n + 1) s₁.heap s₁.log := by
        have hget : Below (n + 1) (s.getPage pagesAp i 1 d).2.heap (s.getPage pagesAp i 1 d).2.log := by
          unfold State.getPage
          split
          · exact B.mono (le_refl s.heap) (Nat.le_add_right s.heap 12291)
          · exact B.alloc (by omega) .pgTab
        unfold State.mapAt at h₁
        split at h₁
        · rename_i hp
          rw [hp] at hget
          cases h₁
          exact hget
        · cases h₁
      have hcnt : n + 1 + (start + sz + 4095 - (i + 4096)) / 4096 = n + (start + sz + 4095 - i) / 4096 := by
        omega
      have := ih hB (by omega) h
      rwa [hcnt] at this
    · cases h
      obtain ⟨hf, hlo, hhi, ha, hp⟩ := B
      have hle := Nat.mul_le_mul_right 12291 (Nat.le_add_right n ((start + sz + 4095 - i) / 4096))
      exact ⟨hf, hlo, hhi.trans (Nat.add_le_add_left hle _), ha, hp⟩

end

/-- On the small machine boot uses the frames below 536. -/
lemma small_booted : ∃ t, Boot.small.boot = .ok t ∧ Booted t ∧ Filled 536 t.frames ∧
    bsGetSize t.frames = 4128 ∧ Below 0 (Boot.kheapStart + 4096) t.log := by
  have hlast : Boot.small.lastFrame = 278 := by decide
  have hsize : bsGetSize Boot.small.frames = 4128 := by decide
  have hpages : Boot.heapPages = 257 := by decide
  obtain ⟨s, hboot, W, hptr, hsz, hF⟩ := Boot.boot_filled (m := Boot.small) (by decide) (by omega)
    (by omega) fun f => by simp [Boot.small_get]
  obtain ⟨t, hboot', B⟩ := boot_booted (m := Boot.small) (by decide) (by omega) (by omega)
  obtain rfl := Except.ok.inj (hboot.symm.trans hboot')
  rw [hlast] at hptr
  rw [hlast, hpages] at hF
  have hoff : Boot.kernOffset = 0xC0000000 := rfl
  have hstart : Boot.kheapStart = 0xD0000000 := rfl
  refine ⟨_, hboot, B, hF, ?_, W.fresh (by omega), by omega, by omega, fun r hr => ?_, fun r hr => ?_⟩
  · show bsGetSize s.frames = 4128
    rw [bsGetSize, hsz, ← bsGetSize, hsize]
  · obtain ⟨-, -, -, h⟩ := W.placed r hr
    have h : r.addr + r.obj.size ≤ s.heap.allocPtr := h
    omega
  · obtain ⟨-, -, h', h⟩ := W.placed r hr
    have h : r.addr + r.obj.size ≤ s.heap.allocPtr := h
    omega

section
variable {s s' : State Nat} {d : Nat}

/-- The stack is four pages. -/
lemma Booted.length_lowPages (B : Booted s) (hm : StackMapped s s' s.kernDir stackPage 4) :
    (s'.lowPages s.kernDir).length ≤ 4 := by
  have hsub : s'.lowPages s.kernDir ⊆ [(767, 1020), (767, 1021), (767, 1022), (767, 1023)] := by
    rintro ⟨i, p⟩ h
    obtain ⟨hi, ha⟩ := State.mem_lowPages.mp h
    obtain ⟨hv, hv'⟩ := B.low_range hm hi ha
    have hp := p.isLt
    unfold stackPage at hv hv'
    obtain rfl : i = 767 := Fin.ext (by show i.val = 767; omega)
    have hcase : p.val = 1020 ∨ p.val = 1021 ∨ p.val = 1022 ∨ p.val = 1023 := by
      have hi : (767 : Fin 1024).val = 767 := rfl
      omega
    simp only [List.mem_cons, Prod.mk.injEq, true_and, Fin.ext_iff, List.not_mem_nil, or_false]
    exact hcase
  exact (State.nodup_lowPages.subperm hsub).length_le

/-- They have one table. -/
lemma Booted.lowTabs_le (B : Booted s)
    (h : s.allocateStack pagesAp stackBottom stackSz s.kernDir = .ok (stackBottom, s')) :
    s'.lowTabs s.kernDir ((List.finRange 1024).take 768) ≤ 1 := by
  obtain ⟨t, hloop, ht⟩ := bind_ok.mp h
  cases ht
  rw [State.lowTabs, List.countP_eq_length_filter]
  have hsub : ((List.finRange 1024).take 768).filter
      (fun i => decide ((s'.dirs s.kernDir).tables i ≠ 0)) ⊆ [767] := by
    intro i hi
    obtain ⟨hi, hne⟩ := List.mem_filter.mp hi
    by_contra hi'
    refine of_decide_eq_true hne ?_
    rw [stackLoop_table le_rfl (by decide) (fun v hv hv' e => hi' ?_) hloop, B.low i (mem_low.mp hi)]
    refine List.mem_singleton.mpr (Fin.ext ?_)
    rw [← e]
    show v / 4194304 % 1024 = 767
    unfold stackBottom stackSz at *
    omega
  exact ((((List.nodup_finRange 1024).sublist (List.take_sublist ..)).filter _).subperm hsub).length_le

/-- Above the frames that are used there are free ones. -/
lemma length_freeFrames_filled {n k : Nat} {bs : BitSet} (F : Filled n bs) (hk : n + k ≤ bsGetSize bs)
    (h20 : n + k ≤ 1048576) : k ≤ (freeFrames bs).length := by
  have hsub : List.range' n k ⊆ freeFrames bs := by
    intro f hf
    obtain ⟨hf, hf'⟩ := List.mem_range'_1.mp hf
    refine mem_freeFrames.mpr ⟨by omega, by omega, ?_⟩
    rw [← Bool.not_eq_true, F f]
    omega
  have hnd : (List.range' n k).Nodup := List.nodup_range'
  have hle := (hnd.subperm hsub).length_le
  rwa [List.length_range'] at hle

/-- The stack takes four frames. -/
lemma length_freeFrames_stack (hm : StackMapped s s' d stackPage 4) :
    (freeFrames s.frames).length ≤ (freeFrames s'.frames).length + 4 := by
  have hle := length_freeFrames_le
    (l := (List.range' stackPage 4).map fun v => (s'.pageEntry d v).addr.val) hm.sz
    fun f hf => ((hm.frames f).mp hf).imp_right ?_
  · rwa [List.length_map, List.length_range'] at hle
  · rintro ⟨v, hv, hv', -, e⟩
    exact List.mem_map.mpr ⟨v, List.mem_range'_1.mpr ⟨hv, hv'⟩, e⟩

end

/-- After `n` requests, with `k` free frames, the directory `d` has the four pages of the stack at most,
in one table, and none of them is in a frame that boot has used. -/
structure Ample (n k : Nat) (s : State Nat) (d : Nat) : Prop where
  below : Below n s.heap s.log
  free : k ≤ (freeFrames s.frames).length
  pages : (s.lowPages d).length ≤ 4
  tabs : s.lowTabs d ((List.finRange 1024).take 768) ≤ 1
  clear : ∀ r : Region, r.phys + r.obj.size ≤ 536 * 4096 → s.Clear d r

section
variable {n k d heap : Nat} {s s' : State Nat} {ds : List Nat}

/-- A small request takes little. -/
lemma Ample.alloc (A : Ample n k s d) (h : s.heap ≤ heap) (hn : heap ≤ s.heap + 12291) :
    Ample (n + 1) k { s with heap := heap } d :=
  ⟨A.below.mono h hn, A.free, A.pages, A.tabs, A.clear⟩

/-- There is enough heap for a copy. -/
lemma Ample.supplies (A : Ample n k s d) (hn : n + 3 ≤ 20) :
    Supplies pagesAp
      (fun r => s.Clear d r ∧ r.phys + r.obj.size ≤ 280 * 4096 + (n + 3) * 12291)
      (.pgDir :: List.replicate 2 .pgTab) s.heap s.log :=
  A.below.supplies (le_refl (n + 3)) hn fun r hr => ⟨A.clear r (by omega), hr⟩

/-- And enough of everything. -/
lemma Ample.affords (A : Ample n (k + 4) s d) (hn : n + 3 ≤ 20) : Affords pagesAp s d := by
  have := A.free
  have := A.pages
  exact ⟨by omega, 1, A.tabs, (A.supplies hn).imp fun r hr => .inr hr.1⟩

/-- A copy takes three requests and four frames at most, and can be copied in turn. -/
lemma Ample.copy (A : Ample n (k + 4) s s.currentDir) (hn : n + 3 ≤ 20) (hS : Spaces s ds)
    (hC : Copyable s s.currentDir) (hone : (s.dirs s.kernDir).tables 896 ≠ 0 ∨ ds = [s.kernDir]) :
    ∃ new s', s.copyPgDir pagesAp s.currentDir = .ok (new, s') ∧
      Copied s s' s.currentDir new ∧ Joined s s' ds s.currentDir new ∧ Ample (n + 3) k s' new ∧
      s.heap ≤ s'.heap := by
  have hfree := A.free
  have hpages := A.pages
  obtain ⟨new, s', hrun, C, J, -, -, hlog⟩ := copyPgDir_private hS hC hone A.tabs (A.supplies hn)
    (fun r hr => hr.1) (by omega)
  have hbase := A.below.lo
  have hpile : Piled s.heap s'.heap s'.log := (piled_pagesAp hbase).copyPgDir A.below.piled hrun
  refine ⟨new, s', hrun, C, J, ⟨?_, ?_, C.length_lowPages.trans hpages, C.lowTabs_le.trans A.tabs,
    fun r hr => C.clear (A.clear r hr)⟩, hpile.base_le⟩
  · have hhi : s.heap ≤ Boot.kheapStart + 4096 + (n + 3) * 12291 :=
      A.below.hi.trans (Nat.add_le_add_left (Nat.mul_le_mul_right _ (Nat.le_add_right ..)) _)
    exact hpile.below J.fresh hbase hhi fun r hr => (hlog r hr).2
  · have := C.length_freeFrames
    omega

/-- On the small machine there is a table for the stack. -/
lemma small_room (F : Filled 536 s.frames) (hB : Below 0 s.heap s.log) :
    s.Room pagesAp (fun r => r ∈ s.log ∨ s.Housed r) 1 := by
  refine hB.supplies (m := 1) (by decide) (by decide) fun r hr => .inr fun x hx _ => ?_
  refine (F _).mpr ?_
  have := hx.2
  omega

/-- The stack takes four requests and four frames at most. -/
lemma Booted.ample (B : Booted s) (F : Filled 536 s.frames) (hsize : bsGetSize s.frames = 4128)
    (hB : Below 0 s.heap s.log)
    (hrun : s.allocateStack pagesAp stackBottom stackSz s.kernDir = .ok (stackBottom, s')) :
    Ample 4 8 s' s.kernDir := by
  have hfree : 12 ≤ (freeFrames s.frames).length := length_freeFrames_filled F (by omega) (by omega)
  obtain ⟨s'', hrun', hm, -⟩ := B.stack (by omega) (small_room F hB)
  obtain rfl : s'' = s' := (Prod.mk.inj (Except.ok.inj (hrun'.symm.trans hrun))).2
  have hfree' := length_freeFrames_stack hm
  refine ⟨?_, by omega, B.length_lowPages hm, B.lowTabs_le hrun, fun r hr x hx => ?_⟩
  · obtain ⟨t, hloop, ht⟩ := bind_ok.mp hrun
    cases ht
    exact hB.stackLoop (by decide) (by decide) hloop
  · have hlow : x / 4096 < 536 := by
      have := hx.2
      omega
    refine ⟨fun _ => (hm.frames _).mpr (.inl ((F _).mpr hlow)), fun i p hi ha e => ?_⟩
    obtain ⟨-, -, hclr, -⟩ := B.low_page hm hi ha
    rw [e, (F _).mpr hlow] at hclr
    cases hclr

end

section
variable {s s₁ s₂ s₃ : State Nat} {s₀ : Sys Nat} {ram : Mem} {init : Nat}

/-- On the small machine there is enough of everything. -/
lemma small_ready (B : Booted s) (F : Filled 536 s.frames) (hsize : bsGetSize s.frames = 4128)
    (hB : Below 0 s.heap s.log) : Ready pagesAp pages s := by
  have hfree : 4 ≤ (freeFrames s.frames).length := length_freeFrames_filled F (by omega) (by omega)
  refine ⟨hfree, small_room F hB, fun s' hrun => ?_⟩
  have A := B.ample F hsize hB hrun
  have A₂ : Ample 5 8 { s' with heap := s'.heap + 52 } s.kernDir :=
    A.alloc (Nat.le_add_right ..) (Nat.add_le_add_left (by decide) _)
  have hkern : s'.kernDir = s.kernDir := (keeps_allocateStack hrun).kern
  have hlo := A.below.lo
  have hhi := A.below.hi
  have hstart : Boot.kheapStart = 0xD0000000 := rfl
  have hinit : s'.heap + taskListSz ≠ 0 ∧ s'.heap + taskListSz < 4294967296 := by
    have : taskListSz = 4 := rfl
    omega
  refine ⟨hinit.1, hinit.2, ?_⟩
  rw [← hkern] at A₂
  exact A₂.affords (k := 4) (by decide)

/-- After `tasking_init` there is enough for a copy of the first task's directory. -/
lemma Started.ample (S : Started pagesAp pages ram s s₁ s₂ s₃ init s₀) (B : Booted s)
    (F : Filled 536 s.frames) (hsize : bsGetSize s.frames = 4128) (hB : Below 0 s.heap s.log) :
    Ample 8 4 s₀.vm (s₀.mem init) ∧ Copyable s₀.vm (s₀.mem init) ∧ init < s₀.vm.heap := by
  obtain ⟨hinit, hs₂⟩ : init = s₁.heap + 4 ∧ s₂ = { s₁ with heap := s₁.heap + 52 } := by
    obtain ⟨rfl, rfl⟩ := Prod.mk.inj S.task
    exact ⟨rfl, rfl⟩
  have A₂ : Ample 5 8 s₂ s.kernDir := by
    rw [hs₂]
    exact (B.ample F hsize hB S.stack).alloc (Nat.le_add_right ..) (Nat.add_le_add_left (by decide) _)
  have hcur : s₂.currentDir = s.kernDir := S.copyable.cur
  have hkern : s.kernDir = s₂.kernDir := (List.mem_singleton.mp S.spaces.kern).symm
  obtain ⟨new, s₃', hcopy, C, J, A₃, hle⟩ := Ample.copy (k := 4) (hcur.symm ▸ A₂) (by decide) S.spaces
    (hcur.symm ▸ S.copyable) (.inr (by rw [hkern]))
  rw [hcur] at hcopy C
  obtain ⟨rfl, rfl⟩ := Prod.mk.inj (Except.ok.inj (hcopy.symm.trans S.copy))
  have hC := C.copyable J.spaces (by rw [C.kern, ← hkern]; exact C.scratch.2)
  rw [S.vm]
  refine ⟨⟨A₃.below, A₃.free, A₃.pages, A₃.tabs, A₃.clear⟩, ?_, ?_⟩
  · obtain ⟨h₁, h₂, h₃, h₄, h₅, h₆, h₇, h₈, h₉, h₁₀⟩ := hC
    exact ⟨h₁, h₂, h₃, ⟨h₄.phys, h₄.entry⟩, h₅, h₆, h₇, h₈, h₉, h₁₀⟩
  · have hheap : s₂.heap = s₁.heap + 52 := by rw [hs₂]
    show init < s₃'.heap
    omega

/-- Then `fork` returns, and so does `schedule` after it, with any directory of a task. -/
lemma Started.fork (S : Started pagesAp pages ram s s₁ s₂ s₃ init s₀)
    (A : Ample 8 4 s₀.vm (s₀.mem init)) (hC : Copyable s₀.vm (s₀.mem init))
    (hlt : init < s₀.vm.heap) :
    Legal pagesAp pages s₀ .fork ∧ ∃ s', step pagesAp pages s₀ .fork = .ok s' ∧
      (∀ d ∈ s₀.dirs, d ∈ s'.dirs) ∧
      ∀ d, ∃ s'', step pagesAp pages s' (.schedule d) = .ok s'' := by
  obtain ⟨child, vm, hnew, hchild, hvm⟩ : ∃ child vm, newTask pages s₀.vm = (child, vm) ∧
      child = s₀.vm.heap ∧ vm = { s₀.vm with heap := s₀.vm.heap + 48 } := ⟨_, _, rfl, rfl, rfl⟩
  have A₁ : Ample 9 4 vm (s₀.mem init) := by
    rw [hvm]
    exact A.alloc (Nat.le_add_right ..) (Nat.add_le_add_left (by decide) _)
  have hC₁ : Copyable vm (s₀.mem init) := by
    obtain ⟨h₁, h₂, h₃, h₄, h₅, h₆, h₇, h₈, h₉, h₁₀⟩ := hC
    rw [hvm]
    exact ⟨h₁, h₂, h₃, ⟨h₄.phys, h₄.entry⟩, h₅, h₆, h₇, h₈, h₉, h₁₀⟩
  have hS : Spaces vm (s₀.dirs ++ [s₀.vm.kernDir]) := by
    rw [hvm]
    exact S.running.spaces.setHeap _
  have hcur : vm.currentDir = s₀.mem init := hC₁.cur
  obtain ⟨new, vm', hcopy, -⟩ := Ample.copy (k := 0) (hcur.symm ▸ A₁) (by decide) hS
    (hcur.symm ▸ hC₁) (.inl (by rw [hvm]; exact S.running.scratch))
  rw [hcur] at hcopy
  have hlegal : ∀ mem, Sched.Legal s₀.sched (.fork child mem) := by
    intro mem
    have hhi := A.below.hi
    have hstart : Boot.kheapStart = 0xD0000000 := rfl
    refine ⟨by omega, by omega, fun hm => ?_⟩
    have := List.mem_singleton.mp ((S.queued.mem_iff child).mp hm)
    omega
  obtain ⟨sched, hfork, hq, hsched⟩ := S.queued.fork (hlegal new)
  refine ⟨?_, ⟨vm', sched⟩, ?_, fun d hd => ?_, fun d => ?_⟩
  · rw [Legal, hnew, S.cur]
    exact ⟨hlegal 0, A₁.affords (k := 0) (by decide)⟩
  · rw [step, hnew, S.cur]
    show (vm.copyPgDir pagesAp (s₀.mem init) >>= _) = _
    rw [hcopy, ok_bind]
    show (Sched.step s₀.sched (.fork child new) >>= _) = _
    rw [hfork]
    rfl
  · rcases fork_cases s₀.sched child new with h | ⟨sched', h, htasks, -, hother⟩
    · cases h.symm.trans hfork
    · obtain rfl := Except.ok.inj (h.symm.trans hfork)
      obtain ⟨t, ht, rfl⟩ := List.mem_map.mp hd
      refine List.mem_map.mpr ⟨t, htasks ▸ List.mem_cons_of_mem _ ht, ?_⟩
      exact hother t fun e => (hlegal 0).2.2 (e ▸ ht)
  · have hq : Sched.Queued sched (sched.st.current :: [child]) := by
      rw [hsched, S.cur]
      exact hq
    obtain ⟨sched', hschedule, -⟩ := hq.schedule_self
    have h0 : sched.st.current ≠ 0 := hq.chain.2.1
    refine ⟨⟨vm'.switchPageDirectory d, sched'⟩, ?_⟩
    rw [step, if_neg h0]
    show (Sched.step sched .schedule >>= _) = _
    rw [hschedule]
    rfl

end

/-- On the small machine, with a fork and a task switch. -/
theorem kernel_half_shared_fork :
    ∃ t s₀, Boot.small.boot = .ok t ∧
      taskingInit pagesAp pages (withHeap t (Boot.kheapStart + 4096)) (fun _ => 0)
        ⟨fun _ => ⟨0, 0, 0, 0, 0⟩, 0, 0, 1⟩ = .ok s₀ ∧ Shared s₀ ∧
      ∀ d ∈ s₀.dirs, ∃ s, exec (step pagesAp pages) s₀ [.fork, .schedule d] = .ok s ∧
        Shared s ∧ SameKernel s₀.vm s.vm := by
  have hlast : Boot.small.lastFrame = 278 := by decide
  have hsize : bsGetSize Boot.small.frames = 4128 := by decide
  obtain ⟨t, hboot, h⟩ := @kernel_half_shared Nat pagesAp pages Boot.small (by decide)
    (by omega) (by omega)
  obtain ⟨t', hboot', B, F, hsize', hB⟩ := small_booted
  obtain rfl := Except.ok.inj (hboot.symm.trans hboot')
  have B := B.withHeap (Boot.kheapStart + 4096)
  have R := small_ready B F hsize' hB
  obtain ⟨s₀, hinit, hsh, hruns⟩ := h _ (fun _ => 0) ⟨fun _ => ⟨0, 0, 0, 0, 0⟩, 0, 0, 1⟩ R
  refine ⟨t, s₀, hboot, hinit, hsh, fun d hd => ?_⟩
  obtain ⟨s₁, s₂, s₃, init, s₀', hinit', S⟩ := B.tasking R (fun _ => 0)
    ⟨fun _ => ⟨0, 0, 0, 0, 0⟩, 0, 0, 1⟩
  obtain rfl := Except.ok.inj (hinit.symm.trans hinit')
  obtain ⟨A, hC, hlt⟩ := S.ample B F hsize' hB
  obtain ⟨hfork, s', hs', hdirs, hschedule⟩ := S.fork A hC hlt
  obtain ⟨s, hs⟩ := hschedule d
  have hrun : exec (step pagesAp pages) s₀ [.fork, .schedule d] = .ok s := by
    rw [exec_cons hs', exec_cons hs]
    rfl
  have hl : LegalRun (step pagesAp pages) (Legal pagesAp pages) s₀ [.fork, .schedule d] :=
    ⟨hfork, (fun _ h => Except.ok.inj (hs'.symm.trans h) ▸ ⟨hdirs d hd, fun _ _ => trivial⟩)⟩
  exact ⟨s, hrun, (hruns _ hl).2 s hrun⟩

end ToeS.Tasking
