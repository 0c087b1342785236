import ToeS.Boot.Mapping
import ToeS.Boot.Taken
import ToeS.Sched.Runs
import ToeS.Vmm.Private

/-!
# Tasks and their address spaces

`tasking_init` and `fork` as a whole (`kern/proc/sched.c`): the allocations of `create_task`, the stack
and the copies of the page directory, together with the task queue. The kernel heap is a parameter, as
for `copy_pg_dir`. `relocate_stack` moves bytes inside the memory of the stack and is left out, but for
the physical memory that it leaves, which may be any. After `ctx_swtch` the local `new` of `schedule` is
the one of the frame that the processor goes on in, so `schedule` may load the directory of any task.
-/

namespace ToeS.Tasking
open Lib Frames Vmm

variable {σ : Type}

/-- Bottom and size of the stack of the first task. -/
def stackBottom : Nat := 0xBFFFC000
@[inherit_doc stackBottom] def stackSz : Nat := 0x4000

/-- `sizeof(task_list_t)`, `sizeof(task_t)` and `sizeof(context_t)`. -/
def taskListSz : Nat := 4
@[inherit_doc taskListSz] def taskSz : Nat := 28
@[inherit_doc taskListSz] def contextSz : Nat := 20

/-- The memory and the scheduler. -/
structure Sys (σ : Type) where
  vm : State σ
  sched : Sched.Sys

namespace Sys

/-- The page directory of a task. -/
def mem (s : Sys σ) (t : Nat) : Nat := (s.sched.st.task t).mem

/-- The page directories of the tasks. -/
def dirs (s : Sys σ) : List Nat := s.sched.tasks.map s.mem

end Sys

inductive Op where
  | fork
  | schedule (dir : Nat)

section
variable (kmallocAp : σ → Nat → Nat × Nat × σ) (kmalloc : σ → Nat → Nat × σ)

/-- The allocations of `create_task`. -/
def newTask (s : State σ) : Nat × State σ :=
  let (tsk, heap) := kmalloc s.heap taskSz
  let (_, heap) := kmalloc heap contextSz
  (tsk, { s with heap := heap })

/-- The allocation of the ready list. -/
def newReady (s : State σ) : State σ := { s with heap := (kmalloc s.heap taskListSz).2 }

/-- C `tasking_init`. `ram` is the physical memory after `relocate_stack`. -/
def taskingInit (s : State σ) (ram : Mem) (st : Sched.State) : Except Fault (Sys σ) := do
  let (_, s) ← s.allocateStack kmallocAp stackBottom stackSz s.kernDir
  let (init, s) := newTask kmalloc (newReady kmalloc s)
  let (mem, s) ← s.copyPgDir kmallocAp s.kernDir
  let s := s.switchPageDirectory mem
  let sched ← Sched.boot st init mem
  return ⟨{ s with ram := ram }, sched⟩

/-- One call. -/
def step (s : Sys σ) : Op → Except Fault (Sys σ)
  | .fork => do
    let (child, vm) := newTask kmalloc s.vm
    let (mem, vm) ← vm.copyPgDir kmallocAp (s.mem s.sched.st.current)
    let sched ← Sched.step s.sched (.fork child mem)
    return ⟨vm, sched⟩
  | .schedule dir =>
    if s.sched.st.current = 0 then .ok s
    else do
      let sched ← Sched.step s.sched .schedule
      return ⟨s.vm.switchPageDirectory dir, sched⟩

/-- There are enough frames to copy the directory `dir`, and there is enough heap, in memory that is in
no free frame and in no frame of a page of `dir` below `0xC0000000`. -/
structure Affords (s : State σ) (dir : Nat) : Prop where
  frames : (s.lowPages dir).length ≤ (freeFrames s.frames).length
  tables : ∃ n ≥ s.lowTabs dir ((List.finRange 1024).take 768),
    Supplies kmallocAp (fun r => r ∈ s.log ∨ s.Clear dir r)
      (.pgDir :: List.replicate (n + 1) .pgTab) s.heap s.log

/-- What is asked of frames and heap when a call is made, and which directories `schedule` loads. -/
def Legal (s : Sys σ) : Op → Prop
  | .fork =>
    let (child, vm) := newTask kmalloc s.vm
    Sched.Legal s.sched (.fork child 0) ∧ Affords kmallocAp vm (s.mem s.sched.st.current)
  | .schedule dir => dir ∈ s.dirs

/-- What is asked of frames and heap by `tasking_init`: four frames and a table for the stack, and what
the copy of the kernel's directory takes. -/
structure Ready (s : State σ) : Prop where
  frames : 4 ≤ (freeFrames s.frames).length
  table : s.Room kmallocAp (fun r => r ∈ s.log ∨ s.Housed r) 1
  copy : ∀ s', s.allocateStack kmallocAp stackBottom stackSz s.kernDir = .ok (stackBottom, s') →
    let (init, s') := newTask kmalloc (newReady kmalloc s')
    init ≠ 0 ∧ init < 4294967296 ∧ Affords kmallocAp s' s'.kernDir

end

/-- Every task's directory has the entries of the kernel's directory from `0xC0000000` on. -/
def Shared (s : Sys σ) : Prop :=
  ∀ t ∈ s.sched.tasks, ∀ i : Fin 1024, 768 ≤ i.val →
    (s.vm.dirs (s.mem t)).tables i = (s.vm.dirs s.vm.kernDir).tables i ∧
      (s.vm.dirs (s.mem t)).physTabs i = (s.vm.dirs s.vm.kernDir).physTabs i

/-- The kernel's directory is the same, with the same entries from `0xC0000000` on. -/
structure SameKernel (s s' : State σ) : Prop where
  kernDir : s'.kernDir = s.kernDir
  upper : ∀ i : Fin 1024, 768 ≤ i.val →
    (s'.dirs s.kernDir).tables i = (s.dirs s.kernDir).tables i ∧
      (s'.dirs s.kernDir).physTabs i = (s.dirs s.kernDir).physTabs i

/-! ## The queue does not touch the directories -/

section
variable {s s' : Sched.Sys} {st st' : Sched.State} {tsk child mem : Nat}

/-- `add_task` does not return, or leaves the directories of the tasks. -/
lemma addTask_cases (st : Sched.State) (tsk : Nat) :
    Sched.addTask st tsk = .error .diverges ∨ ∃ st', Sched.addTask st tsk = .ok st' ∧
      ∀ t, (st'.task t).mem = (st.task t).mem := by
  have hlast : ∀ n tmp, Sched.lastTask st n tmp = .error .diverges ∨
      ∃ t, Sched.lastTask st n tmp = .ok t := by
    intro n
    induction n with
    | zero => exact fun tmp => .inl rfl
    | succ n ih =>
      intro tmp
      rw [Sched.lastTask]
      split
      · exact ih _
      · exact .inr ⟨tmp, rfl⟩
  rw [Sched.addTask]
  split
  · exact .inr ⟨_, rfl, fun _ => rfl⟩
  · rcases hlast chainFuel st.head with h | ⟨tmp, h⟩
    · exact .inl (by rw [h, error_bind])
    · refine .inr ⟨_, by rw [h, ok_bind]; rfl, fun t => ?_⟩
      simp only [Sched.State.modify, Function.update_apply]
      split
      · rename_i ht
        rw [ht]
      · rfl

/-- A fork adds a task with its directory, if the queue is walked to its end. -/
lemma fork_cases (s : Sched.Sys) (child mem : Nat) :
    Sched.step s (.fork child mem) = .error .diverges ∨
      ∃ s', Sched.step s (.fork child mem) = .ok s' ∧ s'.tasks = child :: s.tasks ∧
        (s'.st.task child).mem = mem ∧ ∀ t, t ≠ child → (s'.st.task t).mem = (s.st.task t).mem := by
  obtain ⟨st, hst⟩ : ∃ st, st = ((Sched.createTask s.st child).modify child fun t =>
      { t with parent := (Sched.createTask s.st child).current }).modify child fun t =>
        { t with mem := mem } := ⟨_, rfl⟩
  have hstep : Sched.step s (.fork child mem) = (do
      let st ← Sched.addTask st child
      return ⟨st, child :: s.tasks⟩) := by
    rw [hst]
    show ((do
      let st ← Sched.addTask _ child
      _) >>= _) = _
    cases Sched.addTask _ child <;> rfl
  have hmem : (st.task child).mem = mem ∧ ∀ t, t ≠ child → (st.task t).mem = (s.st.task t).mem := by
    rw [hst]
    simp only [Sched.State.modify, Sched.createTask, Function.update_self]
    refine ⟨trivial, fun t ht => ?_⟩
    rw [Function.update_of_ne ht, Function.update_of_ne ht, Function.update_of_ne ht]
  rw [hstep]
  rcases addTask_cases st child with h | ⟨st', h, hsame⟩
  · exact .inl (by rw [h, error_bind])
  · exact .inr ⟨_, by rw [h, ok_bind]; rfl, rfl, (hsame child).trans hmem.1,
      fun t ht => (hsame t).trans (hmem.2 t ht)⟩

/-- `schedule` leaves the directories of the tasks, if it returns. -/
lemma schedule_cases (s : Sched.Sys) :
    (∃ e, e ≠ .clobbered ∧ Sched.step s .schedule = .error e) ∨
      ∃ s', Sched.step s .schedule = .ok s' ∧ s'.tasks = s.tasks ∧
        ∀ t, (s'.st.task t).mem = (s.st.task t).mem := by
  by_cases h0 : s.st.current = 0
  · refine .inr ⟨s, ?_, rfl, fun _ => rfl⟩
    show (Sched.schedule s.st >>= _) = _
    rw [Sched.schedule, if_pos h0, ok_bind]
    rfl
  · obtain ⟨new, st, hpop⟩ : ∃ new st, Sched.popTask s.st = (new, st) := ⟨_, _, rfl⟩
    have hst : st = (Sched.popTask s.st).2 := by rw [hpop]
    have hmem : ∀ t, (st.task t).mem = (s.st.task t).mem := by
      intro t
      rw [hst, Sched.popTask]
      split
      · rfl
      · simp only [Sched.State.modify, Function.update_apply]
        split
        · rename_i ht
          rw [ht]
        · rfl
    have hstep : Sched.step s .schedule = Sched.schedule s.st >>= fun st => .ok { s with st := st } := rfl
    rw [Sched.schedule, if_neg h0, hpop] at hstep
    rcases addTask_cases st st.current with h | ⟨st', h, hsame⟩
    · refine .inl ⟨.diverges, by decide, ?_⟩
      simp only [hstep, h, error_bind]
    · by_cases hn : new = 0
      · refine .inl ⟨.pageFault, by decide, ?_⟩
        simp only [hstep, h, ok_bind, if_pos hn]
        rfl
      · refine .inr ⟨{ s with st := { st' with current := new } }, ?_, rfl,
          fun t => (hsame t).trans (hmem t)⟩
        simp only [hstep, h, ok_bind, if_neg hn]
        rfl

/-- The running task is one of the tasks. -/
lemma current_mem (h : Sched.Shaped s) : s.st.current ∈ s.tasks := by
  rcases h with ⟨l, hq⟩ | ⟨pre, old, post, hs⟩
  · exact (hq.mem_iff _).mpr hq.cur
  · exact (hs.mem_iff _).mpr (.inl rfl)

end

/-! ## The invariant -/

/-- The tasks and the kernel have address spaces with one kernel half, in which the scratch page has
its table. -/
structure Running (s : Sys σ) : Prop where
  shaped : Sched.Shaped s.sched
  spaces : Spaces s.vm (s.dirs ++ [s.vm.kernDir])
  fresh : Fresh s.vm.log
  housed : ∀ r ∈ s.vm.log, s.vm.Housed r
  scratch : (s.vm.dirs s.vm.kernDir).tables 896 ≠ 0

section
variable {kmallocAp : σ → Nat → Nat × Nat × σ} {kmalloc : σ → Nat → Nat × σ} {s s' : Sys σ}
  {vm vm' vm'' : State σ} {dir : Nat} {op : Op}

/-- The directory of a task is one of the directories. -/
lemma Sys.mem_dirs {t : Nat} (ht : t ∈ s.sched.tasks) :
    s.mem t ∈ s.dirs ++ [s.vm.kernDir] :=
  List.mem_append_left _ (List.mem_map_of_mem ht)

/-- The invariant contains the claim about the kernel half. -/
lemma Running.shared (h : Running s) : Shared s := fun _ ht i hi =>
  ⟨h.spaces.upper _ (Sys.mem_dirs ht) i hi, h.spaces.physTabs h.fresh (Sys.mem_dirs ht) hi⟩

/-- A state has the kernel half it has. -/
lemma SameKernel.refl (vm : State σ) : SameKernel vm vm := ⟨rfl, fun _ _ => ⟨rfl, rfl⟩⟩

/-- The kernel half stays over two steps. -/
lemma SameKernel.trans (h : SameKernel vm vm') (h' : SameKernel vm' vm'') : SameKernel vm vm'' := by
  refine ⟨h'.kernDir.trans h.kernDir, fun i hi => ?_⟩
  have hu := h'.upper i hi
  rw [h.kernDir] at hu
  exact ⟨hu.1.trans (h.upper i hi).1, hu.2.trans (h.upper i hi).2⟩

/-- A copy that joins the others leaves the kernel's entries alone. -/
lemma sameKernel_joined {ds : List Nat} {new : Nat} (hS : Spaces vm ds) (hf : Fresh vm'.log)
    (hsc : (vm.dirs vm.kernDir).tables 896 ≠ 0) (J : Joined vm vm' ds dir new) :
    SameKernel vm vm' := by
  have hup := J.upper hsc vm.kernDir hS.kern
  refine ⟨J.kern, fun i hi => ⟨hup i hi, ?_⟩⟩
  have hdir := hS.isDir _ hS.kern
  have hentry := J.spaces.inv.entry _ (hdir.mono J.log) i
  rw [hup i hi] at hentry
  exact hentry.unique ((hS.inv.entry _ hdir i).mono J.log) hf

/-- `fork` adds an address space, if it returns. -/
lemma Running.fork (h : Running s) (hl : Legal kmallocAp kmalloc s .fork) :
    step kmallocAp kmalloc s .fork ≠ .error .clobbered ∧
      ∀ s', step kmallocAp kmalloc s .fork = .ok s' → Running s' ∧ SameKernel s.vm s'.vm := by
  obtain ⟨child, vm, hnew⟩ : ∃ child vm, newTask kmalloc s.vm = (child, vm) := ⟨_, _, rfl⟩
  have hvm : vm = { s.vm with heap := vm.heap } := by cases hnew; rfl
  have hl' : Sched.Legal s.sched (.fork child 0) ∧
      Affords kmallocAp vm (s.mem s.sched.st.current) := by
    have hl := hl
    rw [Legal, hnew] at hl
    exact hl
  obtain ⟨hchild, hpages, n, hn, hsup⟩ := hl'
  obtain ⟨ds, hds⟩ : ∃ ds, ds = s.dirs ++ [s.vm.kernDir] := ⟨_, rfl⟩
  have hS : Spaces vm ds := by
    rw [hvm, hds]
    exact h.spaces.setHeap _
  have hk : vm.kernDir = s.vm.kernDir := by rw [hvm]
  have hdirs : vm.dirs = s.vm.dirs := by rw [hvm]
  have hh : ∀ r ∈ vm.log, vm.Housed r := by
    rw [hvm]
    exact h.housed
  have hroom : Supplies kmallocAp vm.Housed (.pgDir :: List.replicate (n + 1) .pgTab) vm.heap vm.log :=
    hsup.imp fun r hr => hr.elim (hh r) fun hc x hx => (hc x hx).1
  have hsc : (vm.dirs vm.kernDir).tables 896 ≠ 0 := by
    rw [hk, hdirs]
    exact h.scratch
  have hstep : step kmallocAp kmalloc s .fork = (do
      let (mem, vm) ← vm.copyPgDir kmallocAp (s.mem s.sched.st.current)
      let sched ← Sched.step s.sched (.fork child mem)
      return ⟨vm, sched⟩) := by
    rw [step, hnew]
  rw [hstep]
  rcases copyPgDir_joins hS (hds ▸ Sys.mem_dirs (current_mem h.shaped)) (.inl hsc) hn
    hroom hpages with hfault | ⟨new, vm', hrun, J⟩
  · rw [hfault, error_bind]
    exact ⟨nofun, nofun⟩
  · rw [hrun, ok_bind]
    rcases fork_cases s.sched child new with hd | ⟨sched, hf, htasks, hmem, hother⟩
    · simp only [hd, error_bind]
      exact ⟨nofun, nofun⟩
    · simp only [hf, ok_bind]
      refine ⟨nofun, fun s' hs' => ?_⟩
      cases hs'
      have hsame : SameKernel vm vm' := sameKernel_joined hS J.fresh hsc J
      have hnewDirs : (⟨vm', sched⟩ : Sys σ).dirs ++ [vm'.kernDir] = new :: ds := by
        have hold : ∀ t ∈ s.sched.tasks, (⟨vm', sched⟩ : Sys σ).mem t = s.mem t := fun t ht =>
          hother t fun e => hchild.2.2 (e ▸ ht)
        have hself : (⟨vm', sched⟩ : Sys σ).mem child = new := hmem
        rw [Sys.dirs, htasks, List.map_cons, List.map_congr_left hold, hself, J.kern, hk, hds]
        rfl
      refine ⟨⟨@Sched.Shaped.step _ _ (.fork child new) h.shaped hchild hf, hnewDirs ▸ J.spaces,
        J.fresh, J.housed, ?_⟩, ?_⟩
      · show (vm'.dirs vm'.kernDir).tables 896 ≠ 0
        rw [J.kern, (hsame.upper 896 (by decide)).1]
        exact hsc
      · show SameKernel s.vm vm'
        refine ⟨J.kern.trans hk, fun i hi => ?_⟩
        rw [← hdirs, ← hk]
        exact hsame.upper i hi

/-- `schedule` loads one of the address spaces. -/
lemma Running.schedule (h : Running s) (hl : Legal kmallocAp kmalloc s (.schedule dir)) :
    step kmallocAp kmalloc s (.schedule dir) ≠ .error .clobbered ∧
      ∀ s', step kmallocAp kmalloc s (.schedule dir) = .ok s' → Running s' ∧ SameKernel s.vm s'.vm := by
  by_cases h0 : s.sched.st.current = 0
  · rw [step, if_pos h0]
    refine ⟨nofun, fun s' hs' => ?_⟩
    cases hs'
    exact ⟨h, .refl _⟩
  · rw [step, if_neg h0]
    rcases schedule_cases s.sched with ⟨e, he, hs⟩ | ⟨sched, hs, htasks, hmem⟩
    · rw [hs, error_bind]
      exact ⟨fun h => he (Except.error.inj h), nofun⟩
    · rw [hs, ok_bind]
      refine ⟨nofun, fun s' hs' => ?_⟩
      cases hs'
      have hdirs : (⟨s.vm.switchPageDirectory dir, sched⟩ : Sys σ).dirs = s.dirs := by
        rw [Sys.dirs, Sys.dirs, htasks]
        exact List.map_congr_left fun t _ => hmem t
      refine ⟨⟨@Sched.Shaped.step _ _ .schedule h.shaped trivial hs, ?_, h.fresh, h.housed, h.scratch⟩,
        ⟨rfl, fun _ _ => ⟨rfl, rfl⟩⟩⟩
      rw [hdirs]
      obtain ⟨hI, h₁, h₂, -, h₄, h₅, h₆, h₇, h₈⟩ := h.spaces
      exact ⟨⟨hI.phys, hI.entry⟩, h₁, h₂, List.mem_append_left _ hl, h₄, h₅, h₆, h₇, h₈⟩

/-- A legal call keeps the invariant and the kernel half. -/
lemma Running.step (h : Running s) (hl : Legal kmallocAp kmalloc s op) :
    Tasking.step kmallocAp kmalloc s op ≠ .error .clobbered ∧
      ∀ s', Tasking.step kmallocAp kmalloc s op = .ok s' → Running s' ∧ SameKernel s.vm s'.vm := by
  cases op with
  | fork => exact h.fork hl
  | schedule dir => exact h.schedule hl

end

/-! ## The kernel's address space after boot -/

/-- What `tasking_init` finds: the kernel's directory has no table below `0xC0000000` and none for the
scratch page, and its tables are in memory that is in no free frame. -/
structure Booted (s : State σ) : Prop where
  stackable : Stackable s s.kernDir
  cur : s.currentDir = s.kernDir
  low : ∀ i : Fin 1024, i.val < 768 → (s.dirs s.kernDir).tables i = 0
  scratch : (s.dirs s.kernDir).tables 896 = 0
  housed : ∀ r ∈ s.log, s.Housed r

section
open Boot
variable {m : Machine}

/-- The frame at 0 is in use after the first page. -/
lemma zero_used (h0 : 0 < bsGetSize m.frames) : get (page0 m).1 0 = true := by
  have hset : (setFrame m.frames 0).2 = bsSet m.frames 0 := by
    have := setFrame_of_lt h0
    rw [Nat.zero_mul] at this
    rw [this]
  have hs : (setFrame m.frames 0).2.sz * 32 < 4294967296 := by
    rw [setFrame_sz]
    exact bsWords_lt m.frameCnt
  refine (taken_mapPage Page.zero hs).kept 0 ?_
  rw [hset, get_set h0]
  simp

/-- `vmm_init` leaves such an address space. -/
lemma boot_booted (hend : kernOffset ≤ m.kernEnd) (hk : m.lastFrame < 65536)
    (hin : m.lastFrame < bsGetSize m.frames) : ∃ t, m.boot = .ok t ∧ Booted t := by
  obtain ⟨s₀, s₁, hboot, K, H, hsz, T⟩ := boot_taken hend hk hin
  have hptr := final_ptr K H
  refine ⟨_, hboot, ?_⟩
  have W : Wf (s₁.switchPageDirectory s₁.kernDir) := H.wf.switch
  have htab : ∀ i, HasTab s₁ i → 768 ≤ i.val ∧ i.val < 896 := by
    intro i hi
    rcases (H.tabs i).mp hi with hi | ⟨-, hi⟩
    · have := (K.tabs i).mp hi
      omega
    · omega
  have hbits : ∀ k ≤ m.lastFrame, get s₁.frames k = true := by
    intro k hk
    refine T.kept k ((K.bits k).mpr ?_)
    by_cases h0 : k = 0
    · exact .inl (h0 ▸ zero_used (by omega))
    · exact .inr ⟨by omega, by omega⟩
  refine ⟨⟨W.kern, W.inv, fun i j hij => ?_, ?_, hbits 0 (Nat.zero_le _)⟩, rfl, fun i hi => ?_, ?_,
    fun r hr x hx _ => hbits _ ?_⟩
  · by_cases hi : HasTab s₁ i
    · exact .inr fun e => hij (W.inj i j hi e)
    · exact .inl (not_not.mp hi)
  · show s₁.frames.sz * 32 < _
    rw [T.sz, hsz]
    exact bsWords_lt m.frameCnt
  · by_contra h
    have := htab i h
    omega
  · by_contra h
    have : (896 : Nat) < 896 := (htab 896 h).2
    omega
  · obtain ⟨h₁, -, h₃, h₄⟩ := W.placed r hr
    have h₄ : r.addr + r.obj.size ≤ s₁.heap.allocPtr := h₄
    have := hx.2
    omega

end

/-! ## `tasking_init` -/

/-- The way of `tasking_init` from `s` to `s₀`: `s₁` has the stack, `s₂` the task `init`, and `s₃` its
directory, a copy of the kernel's. -/
structure Started (kmallocAp : σ → Nat → Nat × Nat × σ) (kmalloc : σ → Nat → Nat × σ) (ram : Mem)
    (s s₁ s₂ s₃ : State σ) (init : Nat) (s₀ : Sys σ) : Prop where
  stack : s.allocateStack kmallocAp stackBottom stackSz s.kernDir = .ok (stackBottom, s₁)
  task : newTask kmalloc (newReady kmalloc s₁) = (init, s₂)
  spaces : Spaces s₂ [s.kernDir]
  copyable : Copyable s₂ s.kernDir
  copy : s₂.copyPgDir kmallocAp s.kernDir = .ok (s₀.mem init, s₃)
  vm : s₀.vm = { s₃.switchPageDirectory (s₀.mem init) with ram := ram }
  queued : Sched.Queued s₀.sched [init]
  cur : s₀.sched.st.current = init
  running : Running s₀

section
variable {kmallocAp : σ → Nat → Nat × Nat × σ} {kmalloc : σ → Nat → Nat × σ} {s s' : State σ}
  {st : Sched.State} {sys : Sched.Sys} {init mem : Nat} {i p : Fin 1024}

/-- `tasking_init` makes one task, with the copy. -/
lemma boot_mem (h : Sched.boot st init mem = .ok sys) :
    sys.tasks = [init] ∧ (sys.st.task init).mem = mem := by
  obtain ⟨st', hadd, hsys⟩ := bind_ok.mp h
  cases hsys
  rcases addTask_cases ({ (Sched.createTask { st with head := 0 } init).modify init
      (fun t => { t with mem := mem }) with current := init } : Sched.State) init with
    hd | ⟨st'', hok, hmem⟩
  · cases hd.symm.trans hadd
  · obtain rfl : st'' = st' := Except.ok.inj (hok.symm.trans hadd)
    refine ⟨rfl, (hmem init).trans ?_⟩
    simp [Sched.State.modify]

/-- A page by its number and by its two indices. -/
lemma pageEntry_idx (d : Nat) : s.pageEntry d (i.val * 1024 + p.val) = s.entry d i p := by
  have hv : (i.val * 1024 + p.val) * 4096 = idx2pg i p := by
    unfold idx2pg
    omega
  have hd := pdIdx_idx2pg (i := i) (p := p) (n := 0) (by decide)
  have ht := ptIdx_idx2pg (i := i) (p := p) (n := 0) (by decide)
  rw [Nat.add_zero, u32_eq idx2pg_lt] at hd ht
  rw [State.pageEntry, hv, hd, ht]

/-- The number of the first page of the stack. -/
def stackPage : Nat := 0xBFFFC

/-- The pages below `0xC0000000` are those of the stack. -/
lemma Booted.low_range (B : Booted s) (hm : StackMapped s s' s.kernDir stackPage 4) (hi : i.val < 768)
    (ha : (s'.entry s.kernDir i p).addr ≠ 0) :
    stackPage ≤ i.val * 1024 + p.val ∧ i.val * 1024 + p.val < stackPage + 4 := by
  by_contra hv
  have hp := p.isLt
  have hzero : s.pageEntry s.kernDir (i.val * 1024 + p.val) = Page.zero := by
    rw [pageEntry_idx]
    exact if_pos (B.low i hi)
  rw [← pageEntry_idx, hm.outside _ (by omega) (by omega), hzero] at ha
  exact ha rfl

/-- They are in frames that were free. -/
lemma Booted.low_page (B : Booted s) (hm : StackMapped s s' s.kernDir stackPage 4) (hi : i.val < 768)
    (ha : (s'.entry s.kernDir i p).addr ≠ 0) :
    (s'.entry s.kernDir i p).present = true ∧
      (s'.entry s.kernDir i p).addr.val < bsGetSize s.frames ∧
      get s.frames (s'.entry s.kernDir i p).addr = false ∧
      get s'.frames (s'.entry s.kernDir i p).addr = true := by
  obtain ⟨hv, hv'⟩ := B.low_range hm hi ha
  have hzero : (s.pageEntry s.kernDir (i.val * 1024 + p.val)).addr = 0 := by
    rw [pageEntry_idx]
    exact congrArg Page.addr (if_pos (B.low i hi))
  rw [← pageEntry_idx]
  obtain ⟨-, hlt, hclr⟩ := hm.backed _ hv hv' hzero
  exact ⟨hm.present _ hv hv', hlt, hclr, (hm.frames _).mpr (.inr ⟨_, hv, hv', hzero, rfl⟩)⟩

/-- The stack is mapped. -/
lemma Booted.stack (B : Booted s) (hfree : 4 ≤ (freeFrames s.frames).length)
    (htab : s.Room kmallocAp (fun r => r ∈ s.log ∨ s.Housed r) 1) :
    ∃ s', s.allocateStack kmallocAp stackBottom stackSz s.kernDir = .ok (stackBottom, s') ∧
      StackMapped s s' s.kernDir stackPage 4 ∧ Fresh s'.log ∧ ∀ r ∈ s'.log, s.Housed r := by
  have hun : (s.unbacked s.kernDir stackPage 4).length ≤ (freeFrames s.frames).length :=
    (List.length_filter_le ..).trans (by rw [List.length_range']; exact hfree)
  have htabs : (s.newTabs s.kernDir stackPage 4).card ≤ 1 := by
    refine card_newTabs_le_one fun v hv hv' => ?_
    unfold stackPage at *
    apply Fin.ext
    simp only [pdIdx]
    omega
  have hspec : ∃ s', s.allocateStack kmallocAp stackBottom stackSz s.kernDir = .ok (stackBottom, s') ∧
      StackMapped s s' s.kernDir stackPage 4 ∧
      s'.Room kmallocAp (fun r => r ∈ s.log ∨ s.Housed r) 0 :=
    allocateStack_spec B.stackable (by decide) (by decide) hun htabs htab
  obtain ⟨s', hrun, hmap, hroom⟩ := hspec
  exact ⟨s', hrun, hmap, hroom.here.1, fun r hr => (hroom.here.2 r hr).elim (B.housed r) id⟩

/-- Then the kernel's address space is one that can be copied. -/
lemma Booted.spaces (B : Booted s) (hk : Keeps s s') (hm : StackMapped s s' s.kernDir stackPage 4) :
    Spaces s' [s.kernDir] ∧ Copyable s' s.kernDir := by
  have hkern : s'.kernDir = s.kernDir := hk.kern
  have hcur : s'.currentDir = s.kernDir := hk.cur.trans B.cur
  have hscr : s'.entry s.kernDir 896 0 = Page.zero := by
    have hout := hm.outside (896 * 1024) (by decide) (.inr (by decide))
    have hzero : s.entry s.kernDir 896 0 = Page.zero := if_pos B.scratch
    rw [← hzero]
    have h₁ := pageEntry_idx (s := s') (i := 896) (p := 0) s.kernDir
    have h₂ := pageEntry_idx (s := s) (i := 896) (p := 0) s.kernDir
    exact h₁.symm.trans (hout.trans h₂)
  obtain ⟨hisDir, hI, hapart, hbits, hzero⟩ := hm.able
  constructor
  · refine ⟨hI, fun d hd => ?_, hkern ▸ List.mem_singleton_self _, hcur ▸ List.mem_singleton_self _,
      fun d hd i _ => ?_, fun d hd e he i j _ hij => ?_, ?_, hbits, hzero⟩
    · rw [List.mem_singleton.mp hd]
      exact hisDir
    · rw [List.mem_singleton.mp hd, hkern]
    · rw [List.mem_singleton.mp hd, List.mem_singleton.mp he] at hij ⊢
      exact hapart i j fun e => hij (by rw [e])
    · rw [hkern, hscr]
      rfl
  · refine ⟨hcur, hisDir, hkern ▸ hisDir, hI, hbits, hzero, by rw [hscr]; exact ⟨rfl, rfl⟩,
      fun i hi => hapart 896 i fun e => ?_, fun i p hi ha => (B.low_page hm hi ha).1,
      fun i p hi ha => (B.low_page hm hi ha).2.2.2⟩
    rw [← e] at hi
    exact absurd hi (by decide)

/-- The memory of the tables that there are so far is clear of the stack. -/
lemma Booted.clear (B : Booted s) (hm : StackMapped s s' s.kernDir stackPage 4) {r : Region}
    (hr : s.Housed r) : s'.Clear s.kernDir r := by
  intro x hx
  have hsize : bsGetSize s'.frames = bsGetSize s.frames := by rw [bsGetSize, hm.sz, ← bsGetSize]
  refine ⟨fun hlt => (hm.frames _).mpr (.inl (hr x hx (hsize ▸ hlt))), fun i p hi ha e => ?_⟩
  obtain ⟨-, hlt, hclr, -⟩ := B.low_page hm hi ha
  rw [e] at hlt hclr
  rw [hr x hx hlt] at hclr
  cases hclr

/-- `tasking_init` returns, with two address spaces. -/
lemma Booted.tasking (B : Booted s) (R : Ready kmallocAp kmalloc s) (ram : Mem) (st : Sched.State) :
    ∃ s₁ s₂ s₃ init s₀, taskingInit kmallocAp kmalloc s ram st = .ok s₀ ∧
      Started kmallocAp kmalloc ram s s₁ s₂ s₃ init s₀ := by
  obtain ⟨s', hrun, hm, -, hh⟩ := B.stack R.frames R.table
  have hk : Keeps s s' := keeps_allocateStack hrun
  obtain ⟨init, s₂, hnew⟩ : ∃ init s₂, newTask kmalloc (newReady kmalloc s') = (init, s₂) :=
    ⟨_, _, rfl⟩
  have hs₂ : s₂ = { s' with heap := s₂.heap } := by cases hnew; rfl
  have hk₂ : Keeps s s₂ := by
    rw [hs₂]
    exact hk.trans (.of_eq rfl rfl rfl rfl)
  have hm₂ : StackMapped s s₂ s.kernDir stackPage 4 := by
    rw [hs₂]
    obtain ⟨⟨h₁, h₂, h₃, h₄, h₅⟩, h₆, h₇, h₈, h₉, h₁₀, h₁₁, h₁₂⟩ := hm
    exact ⟨⟨h₁, ⟨h₂.phys, h₂.entry⟩, h₃, h₄, h₅⟩, h₆, h₇, h₈, h₉, h₁₀, h₁₁, h₁₂⟩
  have hh₂ : ∀ r ∈ s₂.log, s.Housed r := by
    rw [hs₂]
    exact hh
  obtain ⟨hS, hC⟩ := B.spaces hk₂ hm₂
  have hkern : s₂.kernDir = s.kernDir := hk₂.kern
  have hcopy := R.copy s' hrun
  rw [hnew] at hcopy
  obtain ⟨h0, hb, hpages, n, hn, hsup⟩ := hcopy
  rw [hkern] at hpages hn hsup
  have hclear : Supplies kmallocAp (s₂.Clear s.kernDir) (.pgDir :: List.replicate (n + 1) .pgTab)
      s₂.heap s₂.log :=
    hsup.imp fun r hr => hr.elim (fun hr => B.clear hm₂ (hh₂ r hr)) id
  have hcur : s₂.currentDir = s.kernDir := hk₂.cur.trans B.cur
  obtain ⟨new', s₃', hrun₃', -, J, -⟩ := copyPgDir_private hS (hcur.symm ▸ hC) (.inr (by rw [hkern]))
    (hcur.symm ▸ hn) hclear (fun r hr => hcur.symm ▸ hr) (hcur.symm ▸ hpages)
  rw [hcur] at hrun₃' J
  obtain ⟨sched, hboot, hq, hsched⟩ := @Sched.boot_spec st init new' h0 hb
  obtain ⟨htasks, hmem⟩ := boot_mem hboot
  have hnew' : (⟨{ s₃'.switchPageDirectory new' with ram := ram }, sched⟩ : Sys σ).mem init = new' :=
    hmem
  refine ⟨s', s₂, s₃', init, ⟨{ s₃'.switchPageDirectory new' with ram := ram }, sched⟩, ?_, hrun, hnew,
    hS, hC, by rw [hnew', hrun₃'], by rw [hnew'], hq, hsched, .inl ⟨_, hq⟩, ?_, J.fresh, J.housed, ?_⟩
  · rw [taskingInit, hrun, ok_bind]
    simp only [hnew, hkern]
    rw [hrun₃', ok_bind]
    simp only [hboot, ok_bind]
    rfl
  · have hdirs : (⟨{ s₃'.switchPageDirectory new' with ram := ram }, sched⟩ : Sys σ).dirs =
        [new'] := by
      rw [Sys.dirs, htasks, List.map_singleton, Sys.mem, hmem]
    rw [hdirs]
    obtain ⟨hI, h₁, h₂, -, h₄, h₅, h₆, h₇, h₈⟩ := J.spaces
    have hds : [new'] ++ [s₃'.kernDir] = new' :: [s.kernDir] := by rw [J.kern, hkern]; rfl
    rw [← hds] at h₁ h₂ h₄ h₅
    exact ⟨⟨hI.phys, hI.entry⟩, h₁, h₂, List.mem_cons_self .., h₄, h₅, h₆, h₇, h₈⟩
  · show (s₃'.dirs s₃'.kernDir).tables 896 ≠ 0
    rw [J.kern, hkern]
    rw [← hcur]
    refine J.scratch ?_
    -- the first page of the stack has a frame
    have hback := hm₂.backed stackPage le_rfl (by decide) (by
      have h := pageEntry_idx (s := s) (i := 767) (p := 1020) s.kernDir
      have hz : s.entry s.kernDir 767 1020 = Page.zero := if_pos (B.low 767 (by decide))
      exact (congrArg Page.addr (h.trans hz)))
    have h := pageEntry_idx (s := s₂) (i := 767) (p := 1020) s.kernDir
    refine List.ne_nil_of_mem (a := (767, 1020)) (State.mem_lowPages.mpr ⟨by decide, ?_⟩)
    rw [← h]
    exact hback.1

end

end ToeS.Tasking
