import ToeS.Lib.Memories
import ToeS.Vmm.Spaces

/-!
# Private address spaces

What the page directories are for: below `0xC0000000` every directory is a memory of its own.
`copy_pg_dir` of the directory in use makes a memory that starts out as a copy, and
`switch_page_directory` chooses which one the processor sees. `Private` says that the directories stand
for such memories, and it is kept by every call and by every byte that a program stores. What keeps the
memories apart is `Separate`: no frame belongs to two pages, and no page table lies in the frame of a page.
-/

namespace ToeS.Vmm
open Lib Frames

variable {σ : Type}

/-- An address below the kernel. -/
abbrev LowAddr := Fin 0xC0000000

/-- The byte that the processor finds at an address when the directory `d` is loaded. -/
def State.byteAt (s : State σ) (d va : Nat) : Option UInt8 :=
  (s.cpuWalk (s.dirs d).phys va).map s.physByte

/-- The memory, and the directories in the order they were made. -/
structure Sys (σ : Type) where
  vm : State σ
  dirs : List Nat

section
variable (kmallocAp : σ → Nat → Nat × Nat × σ)

/-- `copy_pg_dir(current_dir)`, `switch_page_directory` to the directory with the number `i`, or a byte
stored by a program. -/
def Sys.step (s : Sys σ) : Memories.Call LowAddr UInt8 → Except Fault (Sys σ)
  | .copy => do
    let (new, vm) ← s.vm.copyPgDir kmallocAp s.vm.currentDir
    return ⟨vm, s.dirs ++ [new]⟩
  | .use i => .ok { s with vm := s.vm.switchPageDirectory (s.dirs.getD i 0) }
  | .store va v =>
    match s.vm.cpuWalk s.vm.cr3 va with
    | none => .error .pageFault
    | some a =>
      if ∃ r ∈ s.vm.log, r.Has a then .error .clobbered
      else .ok { s with vm := { s.vm with ram := writeByte s.vm.ram a v } }

/-- There are enough frames for the copy, and there is enough heap, in memory that is in no free frame
and in no frame of a page below the kernel. -/
def Sys.Legal (s : Sys σ) : Memories.Call LowAddr UInt8 → Prop
  | .copy => (s.vm.lowPages s.vm.currentDir).length ≤ (freeFrames s.vm.frames).length ∧
    ∃ n ≥ s.vm.lowTabs s.vm.currentDir ((List.finRange 1024).take 768),
      Supplies kmallocAp (fun r => ∀ d ∈ s.dirs, s.vm.Clear d r)
        (.pgDir :: List.replicate (n + 1) .pgTab) s.vm.heap s.vm.log
  | .use i => i < s.dirs.length
  | .store _ _ => True

end

/-! ## A copy among other address spaces -/

/-- `cr3` holds the current directory. -/
def State.Loaded (s : State σ) : Prop := s.cr3 = (s.dirs s.currentDir).phys

section
variable {kmallocAp : σ → Nat → Nat × Nat × σ} {P : Region → Prop} {s s' : State σ} {ds : List Nat}
  {d dir new n : Nat} {i p : Fin 1024}

/-- The body of the loop of `copy_pg_dir` loads the current directory. -/
lemma loaded_copyPage (h : s.copyPage kmallocAp new i p = .ok s') : s'.Loaded := by
  obtain ⟨⟨page, s₁⟩, -, h⟩ := bind_ok.mp h
  obtain ⟨s₂, -, h⟩ := bind_ok.mp h
  obtain ⟨⟨page', s₃⟩, -, h⟩ := bind_ok.mp h
  cases h
  rfl

/-- The copy of a table leaves the directory loaded. -/
lemma loaded_copyTab (hs : s.Loaded) (h : s.copyTab kmallocAp dir new i = .ok s') : s'.Loaded := by
  unfold State.copyTab at h
  dsimp only at h
  split at h
  · refine exec_ok_all (I := State.Loaded) (fun s p s' hs h => ?_) hs h
    split at h
    · exact loaded_copyPage h
    · cases h
      exact hs
  · cases h
    exact hs

/-- A table that is shared leaves the directory loaded. -/
lemma loaded_shareTab (hs : s.Loaded) (h : s.shareTab new i = .ok s') : s'.Loaded := by
  unfold State.shareTab at h
  dsimp only at h
  split at h
  · cases h
    show s.cr3 = (Function.update s.dirs new _ s.currentDir).phys
    by_cases hc : s.currentDir = new
    · rw [hc, Function.update_self, ← hc]
      exact hs
    · rw [Function.update_of_ne hc]
      exact hs
  · cases h
    exact hs

/-- After `copy_pg_dir` the current directory is loaded. -/
lemma loaded_copyPgDir (hs : s.Loaded) (hc : s.IsDir s.currentDir)
    (hf : Fresh (s.newPgDir kmallocAp).2.log) (h : s.copyPgDir kmallocAp dir = .ok (new, s')) :
    s'.Loaded := by
  obtain ⟨new', s₁, hnew, hkeeps, -, hne, hold, -, -, -, -⟩ := newPgDir_spec hf
  have hs₁ : s₁.Loaded := by
    have hcr3 : s₁.cr3 = s.cr3 := by
      have h₁ : s₁ = (s.newPgDir kmallocAp).2 := by rw [hnew]
      rw [h₁]
      rfl
    rw [State.Loaded, hcr3, hkeeps.cur, hold _ (hne _ hc).symm]
    exact hs
  rw [State.copyPgDir, hnew] at h
  obtain ⟨s₂, h₂, h⟩ := bind_ok.mp h
  obtain ⟨s₃, h₃, h⟩ := bind_ok.mp h
  cases h
  have hs₂ : s₂.Loaded := exec_ok_all (fun _ _ _ => loaded_copyTab) hs₁ h₂
  exact exec_ok_all (fun _ _ _ => loaded_shareTab) hs₂ h₃

/-- Page entries do not touch `cr3`. -/
lemma loaded_mapAt {va frame : Nat} {page : PagePtr} (hs : s.Loaded)
    (h : s.mapAt kmallocAp va dir frame = .ok (page, s')) : s'.Loaded := by
  have hget : (s.getPage kmallocAp va 1 dir).2.Loaded := by
    unfold State.getPage
    split
    · exact hs
    · rw [if_pos (by decide)]
      show s.cr3 = (Function.update s.dirs dir _ s.currentDir).phys
      by_cases hc : s.currentDir = dir
      · rw [hc, Function.update_self, ← hc]
        exact hs
      · rw [Function.update_of_ne hc]
        exact hs
  unfold State.mapAt at h
  split at h
  · rename_i hp
    rw [hp] at hget
    cases h
    exact hget
  · cases h

/-- The loop of `allocate_stack` leaves the directory loaded. -/
lemma loaded_stackLoop {start sz pd i : Nat} (hs : s.Loaded)
    (h : s.stackLoop kmallocAp start sz pd n i = .ok s') : s'.Loaded := by
  induction n generalizing s i with
  | zero => cases h
  | succ n ih =>
    rw [State.stackLoop] at h
    split at h
    · obtain ⟨⟨page, s₁⟩, h₁, h⟩ := bind_ok.mp h
      exact ih (loaded_mapAt hs h₁) h
    · cases h
      exact hs

/-- `allocate_stack` leaves the directory loaded. -/
lemma loaded_allocateStack {start sz pd a : Nat} (hs : s.Loaded)
    (h : s.allocateStack kmallocAp start sz pd = .ok (a, s')) : s'.Loaded := by
  obtain ⟨s₁, h₁, h⟩ := bind_ok.mp h
  cases h
  exact loaded_stackLoop hs h₁

/-- What `copy_pg_dir` of the current directory leaves alone: the pages of all address spaces, and all
memory in frames that were used. -/
structure Leaves (s s' : State σ) (ds : List Nat) : Prop where
  entry : ∀ d ∈ ds, ∀ i p : Fin 1024, i.val < 768 → s'.entry d i p = s.entry d i p
  ram : ∀ x, Frames.get s.frames (x / 4096) = true → s'.ram x = s.ram x
  loaded : s.Loaded → s'.Loaded

/-- `copy_pg_dir` of the current directory, among other address spaces: it returns a copy, which is an
address space of its own, and changes nothing in the others. -/
lemma copyPgDir_private (hS : Spaces s ds) (hC : Copyable s s.currentDir)
    (hone : (s.dirs s.kernDir).tables 896 ≠ 0 ∨ ds = [s.kernDir])
    (htabs : s.lowTabs s.currentDir ((List.finRange 1024).take 768) ≤ n)
    (hroom : Supplies kmallocAp P (.pgDir :: List.replicate (n + 1) .pgTab) s.heap s.log)
    (hP : ∀ r, P r → s.Clear s.currentDir r)
    (hfree : (s.lowPages s.currentDir).length ≤ (freeFrames s.frames).length) :
    ∃ new s', s.copyPgDir kmallocAp s.currentDir = .ok (new, s') ∧ Copied s s' s.currentDir new ∧
      Joined s s' ds s.currentDir new ∧ Leaves s s' ds ∧ (∀ d, s.IsDir d → new ≠ d) ∧
      ∀ r ∈ s'.log, P r := by
  have hroom₁ := newPgDir_room hroom
  obtain ⟨new, s₁, hnew, hkeeps, hisNew, hne, hold, hzero, htabs₁, hframes₁, hram₁⟩ :=
    newPgDir_spec hroom₁.here.1
  rw [hnew] at hroom₁
  have hloaded : s.Loaded → ∀ s', s.copyPgDir kmallocAp s.currentDir = .ok (new, s') → s'.Loaded :=
    fun hs s' => loaded_copyPgDir hs hC.isDir (hnew ▸ hroom₁.here.1)
  obtain ⟨hm₁, hnk⟩ : Mid s s.currentDir new [] s₁ ∧ new ≠ s.kernDir := by
    have hstart := Mid.start hC (hnew ▸ hroom₁.here.1)
    rw [hnew] at hstart
    exact hstart
  have hmiss : s₁.missing s.currentDir 896 ≤ 1 := State.missing_le_one
  have hnodup : ((List.finRange 1024).take 768).Nodup :=
    (List.nodup_finRange 1024).sublist (List.take_sublist ..)
  -- the loops, with what they do for the copy and for the other address spaces
  obtain ⟨s₂, c, hrun₂, hkeys, hm₂, hroom₂⟩ := hm₁.rows_of hC hnodup (fun i => mem_low.mp) (by simp)
    (by rw [List.length_nil, Nat.zero_add]; exact hfree) htabs hP (hroom₁.mono (by omega))
  rw [List.map_nil, List.nil_append] at hkeys
  have hCop := hS.copying hS.cur hkeeps hroom₁.here.1 hisNew hne hold hzero htabs₁ hframes₁
  have hsrc : s₁.dirs s.currentDir = s.dirs s.currentDir := hold _ (hne _ hC.isDir).symm
  have hentry : s₁.entry s.currentDir = s.entry s.currentDir := by
    funext i p
    rw [State.entry, State.entry, hsrc, htabs₁]
  have hrows : s₁.rowPages s.currentDir = s.rowPages s.currentDir := by
    funext i ps
    rw [State.rowPages, State.rowPages, hentry]
  have hpages : ((List.finRange 1024).take 768).flatMap
      (fun i => s₁.rowPages s.currentDir i (List.finRange 1024)) = s.lowPages s.currentDir := by
    rw [State.lowPages, hrows]
  have hlowTabs : s₁.lowTabs s.currentDir = s.lowTabs s.currentDir := by
    funext is
    rw [State.lowTabs, State.lowTabs, hsrc]
  have hhoused : ∀ r, P r → s₁.Housed r := fun r hr x hx => by
    rw [hframes₁]
    exact (hP r hr x hx).1
  have hspread := hCop.rows (fun i => mem_low.mp) .refl
    (by rw [hpages, hframes₁, Nat.zero_add]; exact hfree) (hlowTabs ▸ htabs)
    ((hroom₁.mono (by have := hkeeps.cur; rw [this]; omega)).imp hhoused)
  obtain ⟨s₂', hrun₂', h, -⟩ := hspread.resolve_left fun hf => by cases hf.symm.trans hrun₂
  obtain rfl : s₂' = s₂ := Except.ok.inj (hrun₂'.symm.trans hrun₂)
  rw [hpages, Nat.zero_add] at h
  -- the kernel's tables
  have hk : s₂'.kernDir ≠ new := hm₂.space.kern ▸ hnk.symm
  obtain ⟨s', hrun', S⟩ := shareTabs_spec (l := (List.finRange 1024).drop 768) hk
  have hrun : s.copyPgDir kmallocAp s.currentDir = .ok (new, s') := by
    rw [State.copyPgDir, hnew]
    exact bind_ok.mpr ⟨s₂', hrun₂, bind_ok.mpr ⟨s', hrun', rfl⟩⟩
  obtain ⟨hfresh, hlog⟩ := hroom₂.here
  have hI : Inv s' := (keeps_copyPgDir hC.kern hrun).inv (S.log ▸ hfresh) hC.inv
  refine ⟨new, s', hrun, hm₂.copied hC hkeys hnk S hI hfresh (fun r hr => hP r (hlog r hr)),
    hS.joined hS.cur hone hkeeps hne hold hframes₁ hCop h List.length_pos_of_ne_nil hfresh
      (fun r hr => fun x hx => (hP r (hlog r hr) x hx).1) S hI, ⟨fun d hd i p hi => ?_, fun x hx => ?_,
      fun hs => hloaded hs s' hrun⟩, hne, fun r hr => hlog r (S.log ▸ hr)⟩
  · have hdir := hS.isDir d hd
    have hdn : d ≠ new := (hne d hdir).symm
    have hcur : s₁.currentDir = s.currentDir := hkeeps.cur
    have hsep : s₁.Sep (s₁.currentDir, 896) (d, i) := by
      rw [hcur]
      exact (hS.own d hd _ hS.cur i 896 hi (low_ne hi)).symm.congr
        (by rw [hold _ (hne _ hC.isDir).symm]) (by rw [hold _ hdn])
    have hkept := h.entry d (hdir.mono hkeeps.log) i p (low_ne hi) hsep
      fun j => ⟨fun e => hdn (Prod.mk.inj e).1, .inl (hzero j)⟩
    have hfst : s₁.entry d i p = s.entry d i p := by
      rw [State.entry, State.entry, hold d hdn, htabs₁]
    have hsnd : s'.entry d i p = s₂'.entry d i p := by
      rw [State.entry, State.entry, S.other d hdn, S.tabs]
    exact hsnd.trans (hkept.trans hfst)
  · rw [S.ram]
    refine hm₂.store.ram x fun hx' => ?_
    rw [(hm₂.store.fresh _ hx').1] at hx
    cases hx

end

/-! ## The invariant -/

/-- The frame of the page of an address. -/
def State.frameOf (s : State σ) (d va : Nat) : Fin 1048576 :=
  (s.entry d (pdIdx va) (ptIdx va)).addr

/-- The directories are address spaces that have no frame below the kernel in common. -/
structure Separate (s : Sys σ) : Prop where
  spaces : Spaces s.vm s.dirs
  nodup : s.dirs.Nodup
  fresh : Fresh s.vm.log
  loaded : s.vm.Loaded
  scratch : (s.vm.entry s.vm.kernDir 896 0).present = false
  /-- The table of the scratch page is there, or is made by the first copy. -/
  ready : (s.vm.dirs s.vm.kernDir).tables 896 ≠ 0 ∨
    s.dirs = [s.vm.kernDir] ∧ s.vm.lowPages s.vm.kernDir ≠ []
  absent : ∀ d ∈ s.dirs, ∀ i p : Fin 1024, i.val < 768 → (s.vm.entry d i p).addr = 0 →
    (s.vm.entry d i p).present = false
  page : ∀ d ∈ s.dirs, ∀ i p : Fin 1024, i.val < 768 → (s.vm.entry d i p).addr ≠ 0 →
    (s.vm.entry d i p).present = true ∧ Frames.get s.vm.frames (s.vm.entry d i p).addr = true ∧
      Off s.vm.log (s.vm.entry d i p).addr
  apart : ∀ d ∈ s.dirs, ∀ e ∈ s.dirs, ∀ i p j q : Fin 1024, i.val < 768 → j.val < 768 →
    (s.vm.entry d i p).addr ≠ 0 → (s.vm.entry d i p).addr = (s.vm.entry e j q).addr →
      d = e ∧ i = j ∧ p = q

/-- The memories that the directories are. -/
def Sys.memories (s : Sys σ) : Memories LowAddr UInt8 :=
  ⟨s.dirs.map fun d va => s.vm.byteAt d va, s.dirs.idxOf s.vm.currentDir⟩

/-- The directories stand for the memories `M`. -/
structure Private (s : Sys σ) (M : Memories LowAddr UInt8) : Prop where
  separate : Separate s
  mems : M.mems = s.dirs.map fun d (va : LowAddr) => s.vm.byteAt d va
  cur : s.dirs[M.cur]? = some s.vm.currentDir

section
variable {s s' : State σ} {d va : Nat}

/-- An address below `0xC0000000` has an index below 768. -/
lemma low_pdIdx (h : va < 0xC0000000) : (pdIdx va).val < 768 := by
  show va / 4194304 % 1024 < 768
  omega

/-- An address is made of the indices of its page and the offset in it. -/
lemma va_inj {va' : Nat} (h : va < 4294967296) (h' : va' < 4294967296) (hd : pdIdx va = pdIdx va')
    (ht : ptIdx va = ptIdx va') (ho : va % 4096 = va' % 4096) : va = va' := by
  have hd : va / 4194304 % 1024 = va' / 4194304 % 1024 := congrArg Fin.val hd
  have ht : va / 4096 % 1024 = va' / 4096 % 1024 := congrArg Fin.val ht
  omega

end

section
variable {s : Sys σ} {d e va : Nat}

/-- What the processor finds below the kernel. -/
lemma Separate.cpuWalk (S : Separate s) (hd : d ∈ s.dirs) (hva : va < 0xC0000000) :
    s.vm.cpuWalk (s.vm.dirs d).phys va =
      if s.vm.frameOf d va = 0 then none else some (s.vm.frameOf d va * 4096 + va % 4096) := by
  have hdir := S.spaces.isDir d hd
  have hd0 : d ≠ 0 := by
    obtain ⟨r, hr, -, rfl⟩ := hdir
    exact (S.fresh.valid r hr).1
  rw [S.spaces.inv.cpuWalk S.fresh hdir]
  by_cases h0 : s.vm.frameOf d va = 0
  · rw [if_pos h0, if_neg]
    rw [State.mapped_iff, S.absent d hd _ _ (low_pdIdx hva) h0]
    decide
  · have hm : s.vm.Mapped d va :=
      State.mapped_iff.mpr (S.page d hd _ _ (low_pdIdx hva) h0).1
    rw [if_neg h0, if_pos hm, State.getPhysical_entry hd0 hm]
    rfl

/-- A byte of an address space is one of the frame of its page. -/
lemma Separate.byteAt_phys (S : Separate s) (hd : d ∈ s.dirs) (hva : va < 0xC0000000) :
    s.vm.byteAt d va = if s.vm.frameOf d va = 0 then none
      else some (s.vm.physByte (s.vm.frameOf d va * 4096 + va % 4096)) := by
  rw [State.byteAt, S.cpuWalk hd hva]
  split <;> rfl

/-- The frame of a page holds no table, so its bytes are those of memory. -/
lemma Separate.byteAt (S : Separate s) (hd : d ∈ s.dirs) (hva : va < 0xC0000000) :
    s.vm.byteAt d va = if s.vm.frameOf d va = 0 then none
      else some (s.vm.ram (s.vm.frameOf d va * 4096 + va % 4096)) := by
  rw [S.byteAt_phys hd hva]
  by_cases h0 : s.vm.frameOf d va = 0
  · rw [if_pos h0, if_pos h0]
  · have hoff := (S.page d hd _ _ (low_pdIdx hva) h0).2.2
    have hdiv : (s.vm.frameOf d va * 4096 + va % 4096) / 4096 = s.vm.frameOf d va := by omega
    rw [if_neg h0, if_neg h0,
      State.physByte_off (by have := (s.vm.frameOf d va).isLt; omega) (by rw [hdiv]; exact hoff)]

/-- Distinct addresses, or addresses in distinct directories, are in distinct places. -/
lemma Separate.place_inj {va' : Nat} (S : Separate s) (hd : d ∈ s.dirs) (he : e ∈ s.dirs)
    (hva : va < 0xC0000000) (hva' : va' < 0xC0000000) (h0 : s.vm.frameOf d va ≠ 0)
    (h : (s.vm.frameOf d va).val * 4096 + va % 4096 =
      (s.vm.frameOf e va').val * 4096 + va' % 4096) : d = e ∧ va = va' := by
  have hframe : s.vm.frameOf d va = s.vm.frameOf e va' := Fin.ext (by omega)
  obtain ⟨hde, hi, hp⟩ := S.apart d hd e he _ _ _ _ (low_pdIdx hva) (low_pdIdx hva') h0 hframe
  exact ⟨hde, va_inj (by omega) (by omega) hi hp (by omega)⟩

/-! ## One call -/

/-- Nothing that keeps the address spaces apart is in `ram`. -/
lemma Separate.setRam (S : Separate s) (m : Mem) : Separate { s with vm := { s.vm with ram := m } } := by
  obtain ⟨⟨hI, h₁, h₂, h₃, h₄, h₅, h₆, h₇, h₈⟩, h₉, h₁₀, h₁₁, h₁₂, h₁₃, h₁₄, h₁₅, h₁₆⟩ := S
  exact ⟨⟨⟨hI.phys, hI.entry⟩, h₁, h₂, h₃, h₄, h₅, h₆, h₇, h₈⟩, h₉, h₁₀, h₁₁, h₁₂, h₁₃, h₁₄, h₁₅, h₁₆⟩

variable {M : Memories LowAddr UInt8} {kmallocAp : σ → Nat → Nat × Nat × σ} {i : Nat}

/-- The abstract memory holds the bytes of the address space. -/
lemma Private.mem (P : Private s M) (h : s.dirs[i]? = some d) :
    M.mem i = fun va : LowAddr => s.vm.byteAt d va := by
  rw [Memories.mem, P.mems, List.getD_eq_getElem?_getD, List.getElem?_map, h]
  rfl

/-- The current directory is one of them. -/
lemma Private.cur_mem (P : Private s M) : s.vm.currentDir ∈ s.dirs := List.mem_of_getElem? P.cur

/-- A store through the directory `d` is seen at one address of one directory. -/
lemma Separate.byteAt_store {va' : Nat} (S : Separate s) (hd : d ∈ s.dirs) (he : e ∈ s.dirs)
    (hva : va < 0xC0000000) (hva' : va' < 0xC0000000) (h0 : s.vm.frameOf d va ≠ 0) (v : UInt8) :
    State.byteAt { s.vm with
      ram := writeByte s.vm.ram ((s.vm.frameOf d va).val * 4096 + va % 4096) v } e va' =
        if e = d ∧ va' = va then some v else s.vm.byteAt e va' := by
  obtain ⟨a, ha⟩ : ∃ a, a = (s.vm.frameOf d va).val * 4096 + va % 4096 := ⟨_, rfl⟩
  have hlt : a < 4294967296 := by
    have := (s.vm.frameOf d va).isLt
    omega
  rw [← ha]
  have hnew := (S.setRam (writeByte s.vm.ram a v)).byteAt he hva'
  have hframe : State.frameOf { s.vm with ram := writeByte s.vm.ram a v } e va' =
      s.vm.frameOf e va' := rfl
  rw [hframe] at hnew
  rw [hnew]
  by_cases hsame : e = d ∧ va' = va
  · obtain ⟨rfl, rfl⟩ := hsame
    rw [if_neg h0, if_pos ⟨rfl, rfl⟩, ← ha]
    exact congrArg some (if_pos (u32_eq hlt).symm)
  · rw [if_neg hsame, S.byteAt he hva']
    by_cases hz : s.vm.frameOf e va' = 0
    · rw [if_pos hz, if_pos hz]
    · rw [if_neg hz, if_neg hz]
      refine congrArg some (if_neg fun h => hsame ?_)
      rw [u32_eq hlt, ha] at h
      exact S.place_inj he hd hva' hva hz h

/-- The memories that the address spaces have. -/
lemma Separate.memories (S : Separate s) : Private s s.memories := by
  refine ⟨S, rfl, ?_⟩
  have hlt := List.idxOf_lt_length_of_mem S.spaces.cur
  show s.dirs[s.dirs.idxOf s.vm.currentDir]? = _
  rw [List.getElem?_eq_getElem hlt, List.getElem_idxOf hlt]

/-- A byte that is stored is stored in the memory that is in use. -/
lemma Private.store (P : Private s M) (va : LowAddr) (v : UInt8) :
    Both Private (s.step kmallocAp (.store va v)) (M.step Fault.pageFault (.store va v)) := by
  obtain ⟨S, hmems, hcur⟩ := P
  have hP : Private s M := ⟨S, hmems, hcur⟩
  have hmem : M.mem M.cur va = s.vm.byteAt s.vm.currentDir va := congrFun (hP.mem hcur) va
  have hwalk := S.cpuWalk hP.cur_mem va.isLt
  rw [← S.loaded] at hwalk
  rw [Sys.step, Memories.step, hmem, hwalk, S.byteAt hP.cur_mem va.isLt]
  by_cases h0 : s.vm.frameOf s.vm.currentDir va = 0
  · rw [if_pos h0, if_pos h0]
    exact .error _
  have hclob : ¬ ∃ r ∈ s.vm.log,
      r.Has ((s.vm.frameOf s.vm.currentDir va).val * 4096 + va.val % 4096) := by
    rintro ⟨r, hr, hx⟩
    refine (S.page _ hP.cur_mem _ _ (low_pdIdx va.isLt) h0).2.2 r hr _ hx ?_
    show _ = (s.vm.frameOf s.vm.currentDir va).val
    omega
  rw [if_neg h0, if_neg h0]
  simp only [if_neg hclob]
  refine .ok ⟨S.setRam _, ?_, hcur⟩
  obtain ⟨hlen, hget⟩ := List.getElem?_eq_some_iff.mp hcur
  refine List.ext_getElem (by simp [hmems]) fun j hj hj' => ?_
  have hjm : j < M.mems.length := by simpa using hj
  have hjd : j < s.dirs.length := by simpa [hmems] using hjm
  rw [List.getElem_set, List.getElem_map]
  funext va'
  rw [S.byteAt_store hP.cur_mem (List.getElem_mem hjd) va.isLt va'.isLt h0]
  by_cases hc : M.cur = j
  · subst hc
    rw [if_pos rfl, Memories.write, Function.update_apply, hP.mem hcur]
    exact if_congr ⟨fun h => ⟨hget, by rw [h]⟩, fun h => Fin.ext h.2⟩ rfl (by rw [← hget])
  · have hne : s.dirs[j] ≠ s.vm.currentDir := fun h =>
      hc ((List.Nodup.getElem_inj_iff S.nodup).mp (hget.trans h.symm))
    rw [if_neg hc, if_neg fun h => hne h.1, ← Memories.mem_of_lt hjm]
    exact congrFun (hP.mem (List.getElem?_eq_getElem hjd)) va'

/-- Another directory is loaded. -/
lemma Private.use (P : Private s M) (hi : i < s.dirs.length) :
    Both Private (s.step kmallocAp (.use i)) (M.step Fault.pageFault (.use i)) := by
  obtain ⟨⟨⟨hI, h₁, h₂, -, h₄, h₅, h₆, h₇, h₈⟩, h₉, h₁₀, -, h₁₂, h₁₃, h₁₄, h₁₅, h₁₆⟩, hmems, hcur⟩ := P
  have hget : s.dirs.getD i 0 = s.dirs[i] := by
    rw [List.getD_eq_getElem?_getD, List.getElem?_eq_getElem hi]
    rfl
  have hmem : s.dirs.getD i 0 ∈ s.dirs := hget ▸ List.getElem_mem hi
  refine .ok ⟨⟨⟨⟨hI.phys, hI.entry⟩, h₁, h₂, hmem, h₄, h₅, h₆, h₇, h₈⟩, h₉, h₁₀, rfl, h₁₂, h₁₃, h₁₄,
    h₁₅, h₁₆⟩, hmems, ?_⟩
  show s.dirs[i]? = some (s.dirs.getD i 0)
  rw [hget, List.getElem?_eq_getElem hi]

/-- What `copy_pg_dir` asks of the directory in use. -/
lemma Separate.copyable (S : Separate s) (hc : s.vm.currentDir ∈ s.dirs) :
    Copyable s.vm s.vm.currentDir where
  cur := rfl
  isDir := S.spaces.isDir _ hc
  kern := S.spaces.isDir _ S.spaces.kern
  inv := S.spaces.inv
  bits := S.spaces.bits
  zero := S.spaces.zero
  scratch := by
    rw [S.spaces.entry_upper hc (by decide)]
    exact ⟨S.spaces.scratch, S.scratch⟩
  apart := fun i hi => (S.spaces.own _ hc _ hc i 896 hi (low_ne hi)).symm
  present := fun i p hi ha => (S.page _ hc i p hi ha).1
  held := fun i p hi ha => (S.page _ hc i p hi ha).2.1

/-- The order of the directories does not matter. -/
lemma Spaces.congr {s : State σ} {ds ds' : List Nat} (h : Spaces s ds) (hm : ∀ d, d ∈ ds' ↔ d ∈ ds) :
    Spaces s ds' := by
  obtain ⟨hI, h₁, h₂, h₃, h₄, h₅, h₆, h₇, h₈⟩ := h
  exact ⟨hI, fun d hd => h₁ d ((hm d).mp hd), (hm _).mpr h₂, (hm _).mpr h₃,
    fun d hd => h₄ d ((hm d).mp hd), fun d hd e he => h₅ d ((hm d).mp hd) e ((hm e).mp he), h₆, h₇, h₈⟩

/-- A copy is one more address space. -/
lemma Separate.copied {vm : State σ} {new : Nat} (S : Separate s) (hc : s.vm.currentDir ∈ s.dirs)
    (C : Copied s.vm vm s.vm.currentDir new) (J : Joined s.vm vm s.dirs s.vm.currentDir new)
    (L : Leaves s.vm vm s.dirs) (hne : ∀ d, s.vm.IsDir d → new ≠ d)
    (hlog : ∀ r ∈ vm.log, ∀ d ∈ s.dirs, s.vm.Clear d r) : Separate ⟨vm, s.dirs ++ [new]⟩ := by
  have hcases : ∀ d, d ∈ s.dirs ++ [new] ↔ d ∈ new :: s.dirs := by simp [or_comm]
  have hnew : new ∉ s.dirs := fun h => hne new (S.spaces.isDir _ h) rfl
  have hused : ∀ f, Frames.get s.vm.frames f = true → Frames.get vm.frames f = true :=
    fun f hf => (C.frames f).mpr (.inl hf)
  have hzero : ∀ i p : Fin 1024, i.val < 768 → (vm.entry new i p).addr ≠ 0 →
      (s.vm.entry s.vm.currentDir i p).addr ≠ 0 := by
    intro i p hi h0 ha
    rw [C.unmapped i p hi ha] at h0
    exact h0 rfl
  have hentry : ∀ d ∈ s.dirs, ∀ i p : Fin 1024, i.val < 768 → vm.entry d i p = s.vm.entry d i p :=
    L.entry
  -- a frame of a page of the copy was free, one of the others was used
  have hfree : ∀ i p : Fin 1024, i.val < 768 → (vm.entry new i p).addr ≠ 0 → ∀ d ∈ s.dirs,
      ∀ j q : Fin 1024, j.val < 768 → (s.vm.entry d j q).addr ≠ 0 →
        (vm.entry new i p).addr ≠ (s.vm.entry d j q).addr := by
    intro i p hi h0 d hd j q hj ha e
    have hclr := (C.present i p hi (hzero i p hi h0)).2.2
    rw [e, (S.page d hd j q hj ha).2.1] at hclr
    cases hclr
  refine ⟨J.spaces.congr hcases, List.nodup_append.mpr ⟨S.nodup, List.nodup_singleton _, ?_⟩, J.fresh,
    L.loaded S.loaded, ?_, .inl ?_, fun d hd i p hi ha => ?_, fun d hd i p hi ha => ?_,
    fun d hd e he i p j q hi hj h0 hf => ?_⟩
  · rintro d hd e he rfl
    exact hnew (List.mem_singleton.mp he ▸ hd)
  · have hscr := C.scratch.2
    rwa [J.spaces.entry_upper (List.mem_cons_of_mem _ hc) (by decide)] at hscr
  · rcases S.ready with h | ⟨hd, hp⟩
    · have h' := h
      rw [← J.grows _ S.spaces.kern 896 h, ← J.kern] at h'
      exact h'
    · have hck : s.vm.currentDir = s.vm.kernDir := List.mem_singleton.mp (hd ▸ hc)
      have hmade := J.scratch (hck ▸ hp)
      rwa [hck, ← J.kern] at hmade
  · rcases List.mem_cons.mp ((hcases d).mp hd) with rfl | hd
    · rw [C.unmapped i p hi (not_not.mp fun h => ?_)]
      · rfl
      · have h20 := (C.frames (vm.entry d i p).addr).mpr (.inr ⟨i, p, hi, h, rfl⟩)
        have hclr := (C.present i p hi h).2.2
        rw [ha] at hclr
        exact absurd (S.spaces.zero.symm.trans hclr) (by decide)
    · rw [hentry d hd i p hi] at ha ⊢
      exact S.absent d hd i p hi ha
  · rcases List.mem_cons.mp ((hcases d).mp hd) with rfl | hd
    · have hpage := C.present i p hi (hzero i p hi ha)
      refine ⟨hpage.1, (C.frames _).mpr (.inr ⟨i, p, hi, hzero i p hi ha, rfl⟩), ?_⟩
      rintro r hr x hx hxf
      have hclear := (hlog r hr _ hc x hx).1 (hxf ▸ hpage.2.1)
      rw [hxf, hpage.2.2] at hclear
      cases hclear
    · rw [hentry d hd i p hi] at ha ⊢
      obtain ⟨hp, hu, -⟩ := S.page d hd i p hi ha
      exact ⟨hp, hused _ hu, fun r hr x hx e => (hlog r hr d hd x hx).2 i p hi ha e.symm⟩
  · have h0' : (vm.entry e j q).addr ≠ 0 := hf ▸ h0
    rcases List.mem_cons.mp ((hcases d).mp hd) with rfl | hd' <;>
      rcases List.mem_cons.mp ((hcases e).mp he) with rfl | he'
    · have hip := C.distinct i p j q hi (hzero i p hi h0) hj (hzero j q hj h0') hf
      exact ⟨rfl, Prod.mk.inj hip⟩
    · rw [hentry e he' j q hj] at hf h0'
      exact absurd hf (hfree i p hi h0 e he' j q hj h0')
    · rw [hentry d hd' i p hi] at hf h0
      exact absurd hf.symm (hfree j q hj h0' d hd' i p hi h0)
    · rw [hentry d hd' i p hi, hentry e he' j q hj] at hf
      rw [hentry d hd' i p hi] at h0
      exact S.apart d hd' e he' i p j q hi hj h0 hf

/-- A copy starts out with the bytes of the directory in use. -/
lemma Private.copy (P : Private s M) (hl : s.Legal kmallocAp .copy) :
    Both Private (s.step kmallocAp .copy) (M.step Fault.pageFault .copy) := by
  obtain ⟨S, hmems, hcur⟩ := P
  have hP : Private s M := ⟨S, hmems, hcur⟩
  have hc := hP.cur_mem
  obtain ⟨hfree, n, hn, hroom⟩ := hl
  obtain ⟨new, vm, hrun, C, J, L, hne, hlog⟩ := copyPgDir_private S.spaces (S.copyable hc)
    (S.ready.imp_right And.left) hn hroom (fun r hr => hr _ hc) hfree
  have S' := S.copied hc C J L hne hlog
  have hold : ∀ d ∈ s.dirs, ∀ va : LowAddr, vm.byteAt d va = s.vm.byteAt d va := by
    intro d hd va
    have hframe : vm.frameOf d va = s.vm.frameOf d va :=
      congrArg Page.addr (L.entry d hd _ _ (low_pdIdx va.isLt))
    have hbyte := S'.byteAt (List.mem_append_left _ hd) va.isLt
    rw [hframe] at hbyte
    rw [hbyte, S.byteAt hd va.isLt]
    by_cases h0 : s.vm.frameOf d va = 0
    · rw [if_pos h0, if_pos h0]
    · have hused := (S.page d hd _ _ (low_pdIdx va.isLt) h0).2.1
      rw [if_neg h0, if_neg h0, L.ram]
      rwa [show ((s.vm.frameOf d va).val * 4096 + va.val % 4096) / 4096 = s.vm.frameOf d va by omega]
  have hnew : ∀ va : LowAddr, vm.byteAt new va = s.vm.byteAt s.vm.currentDir va := by
    intro va
    have hbyte := S'.byteAt_phys (List.mem_append_right _ (List.mem_singleton_self new)) va.isLt
    have hi := low_pdIdx va.isLt
    have ho : va.val % 4096 < 4096 := Nat.mod_lt _ (by decide)
    rw [hbyte, S.byteAt_phys hc va.isLt]
    by_cases h0 : s.vm.frameOf s.vm.currentDir va = 0
    · have hz : vm.frameOf new va = 0 := congrArg Page.addr (C.unmapped _ _ hi h0)
      rw [if_pos h0, if_pos hz]
    · have hn0 : vm.frameOf new va ≠ 0 := by
        intro hz
        have hclr := (C.present _ _ hi h0).2.2
        rw [show (vm.entry new (pdIdx va) (ptIdx va)).addr = 0 from hz] at hclr
        exact absurd (S.spaces.zero.symm.trans hclr) (by decide)
      rw [if_neg h0, if_neg hn0]
      exact congrArg some ((C.bytes _ _ hi h0 _ ho).trans (C.kept _ _ hi h0 _ ho))
  rw [Sys.step, hrun, ok_bind]
  refine .ok ⟨S', ?_, ?_⟩
  · show M.mems ++ [M.mem M.cur] = List.map _ (s.dirs ++ [new])
    rw [List.map_append, hP.mem hcur, hmems, List.map_singleton]
    have hmap := List.map_congr_left fun d hd => funext fun va => (hold d hd va).symm
    rw [hmap, show (fun va : LowAddr => s.vm.byteAt s.vm.currentDir va) = fun va : LowAddr =>
      vm.byteAt new va from funext fun va => (hnew va).symm]
  · have hlt := (List.getElem?_eq_some_iff.mp hcur).1
    show (s.dirs ++ [new])[M.cur]? = some vm.currentDir
    rw [List.getElem?_append_left hlt, hcur, J.cur]

/-- A call does in the address spaces what it does in the memories. -/
lemma Private.step (P : Private s M) (c : Memories.Call LowAddr UInt8) (hl : s.Legal kmallocAp c) :
    Both Private (s.step kmallocAp c) (M.step Fault.pageFault c) := by
  cases c with
  | copy => exact P.copy hl
  | use i => exact P.use hl
  | store va v => exact P.store va v

/-- Directories are never lost. -/
lemma Sys.dirs_prefix {s' : Sys σ} {l : List (Memories.Call LowAddr UInt8)}
    (hrun : exec (Sys.step kmallocAp) s l = .ok s') : s.dirs <+: s'.dirs := by
  refine exec_ok_all (I := fun t => s.dirs <+: t.dirs) (fun t c t' ht h => ?_) List.prefix_rfl hrun
  cases c with
  | copy =>
    obtain ⟨⟨new, vm⟩, -, h⟩ := bind_ok.mp h
    cases h
    exact ht.trans (List.prefix_append ..)
  | use i =>
    cases h
    exact ht
  | store va v =>
    unfold Sys.step at h
    dsimp only at h
    split at h
    · cases h
    · split at h
      · cases h
      · cases h
        exact ht

/-- Below the kernel the page directories are private memories: whatever sequence of copies, switches and
stores is made, each byte is where the memories say, a store faults exactly where they have nothing,
and no call goes over a page table. -/
theorem spaces_refine_memories {l : List (Memories.Call LowAddr UInt8)} (P : Private s M)
    (hl : LegalRun (Sys.step kmallocAp) (Sys.Legal kmallocAp) s l) :
    Both Private (exec (Sys.step kmallocAp) s l) (exec (Memories.step Fault.pageFault) M l) :=
  exec_sim (fun _ _ c P hl => P.step c hl) P hl

end

/-! ## A small machine -/

/-- The machine with one page. -/
def onePageSys : Sys Nat := ⟨lowPage, [0xD0001000]⟩

/-- The memory of the copy and its tables is far from the frames. -/
lemma onePage_supplies : Supplies placement (fun r => ∀ d ∈ onePageSys.dirs, lowPage.Clear d r)
    [.pgDir, .pgTab, .pgTab] lowPage.heap lowPage.log := by
  refine ⟨⟨by decide, by decide⟩, fun r hr d _ x hx => ?_⟩
  have hp : ∀ r ∈ [(⟨.pgTab, 0xD000A000, 0x40A000⟩ : Region), ⟨.pgTab, 0xD0008000, 0x408000⟩,
    ⟨.pgDir, 0xD0005000, 0x405000⟩, ⟨.pgTab, 0xD0004000, 0x404000⟩,
    ⟨.pgDir, 0xD0001000, 0x401000⟩], 0x400000 ≤ r.phys := by decide
  have hfar : 1024 ≤ x / 4096 := by
    have := hp r hr
    have := hx.1
    omega
  refine ⟨fun hlt => absurd hlt ?_, fun i p _ ha => ?_⟩
  · rw [show bsGetSize lowPage.frames = 32 from rfl]
    omega
  · rw [lowPage_entry, if_pos (lowPage_addr ha)]
    show 1 ≠ x / 4096
    omega

/-- The machine with one page has one address space. -/
lemma onePage_separate : Separate onePageSys := by
  have hdir : ∀ d ∈ onePageSys.dirs, d = 0xD0001000 := fun d hd => List.mem_singleton.mp hd
  have hsep : ∀ i j : Fin 1024, i ≠ j → lowPage.Sep (0xD0001000, i) (0xD0001000, j) := by
    intro i j hij
    by_cases hi : i = 0
    · subst hi
      refine .inr ?_
      show 0xD0004000 ≠ if j = 0 then 0xD0004000 else 0
      rw [if_neg fun h => hij h.symm]
      decide
    · exact .inl (if_neg hi)
  refine ⟨⟨lowPage_inv, fun d hd => hdir d hd ▸ lowPage_copyable.isDir, by decide, by decide,
      fun d hd _ _ => by rw [hdir d hd]; rfl, fun d hd e he i j _ hij => ?_, ?_, by decide, by decide⟩,
    by decide, onePage_supplies.here.1, rfl, ?_, .inr ⟨rfl, ?_⟩, fun d hd i p _ ha => ?_,
    fun d hd i p _ ha => ?_, fun d hd e he i p j q _ _ h0 hf => ?_⟩
  · rw [hdir d hd, hdir e he] at hij ⊢
    exact hsep i j fun e => hij (by rw [e])
  · exact congrArg Page.addr lowPage_entry
  · exact congrArg Page.present lowPage_entry
  · show lowPage.lowPages 0xD0001000 ≠ []
    rw [lowPage_lowPages]
    decide
  · have ha : (lowPage.entry d i p).addr = 0 := ha
    show (lowPage.entry d i p).present = false
    rw [lowPage_entry] at ha ⊢
    split at ha
    · exact absurd ha (by decide)
    · rename_i h
      rw [if_neg h]
      rfl
  · show (lowPage.entry d i p).present = true ∧ Frames.get lowPage.frames (lowPage.entry d i p).addr =
      true ∧ Off lowPage.log (lowPage.entry d i p).addr
    rw [lowPage_entry, if_pos (lowPage_addr ha)]
    refine ⟨rfl, by decide, fun r hr x hx e => ?_⟩
    have hp : ∀ r ∈ lowPage.log, 0x400000 ≤ r.phys := by decide
    have := hp r hr
    have := hx.1
    have e : x / 4096 = 1 := e
    omega
  · have hp := lowPage_addr h0
    have hq := lowPage_addr (hf ▸ h0)
    exact ⟨(hdir d hd).trans (hdir e he).symm, hp.1.trans hq.1.symm, hp.2.trans hq.2.symm⟩

/-- A byte stored in a copy of its directory. -/
theorem spaces_refine_memories_one :
    Both Private (exec (Sys.step placement) onePageSys [.copy, .use 1, .store 0x1000 7])
      (exec (Memories.step Fault.pageFault) onePageSys.memories [.copy, .use 1, .store 0x1000 7]) := by
  refine spaces_refine_memories onePage_separate.memories ⟨⟨?_, 1, by decide +kernel, onePage_supplies⟩,
    fun s' hs' => ⟨?_, fun _ _ => ⟨trivial, fun _ _ => trivial⟩⟩⟩
  · show (lowPage.lowPages 0xD0001000).length ≤ _
    rw [lowPage_lowPages]
    decide
  · obtain ⟨⟨new, vm⟩, -, h⟩ := bind_ok.mp hs'
    cases h
    exact Nat.lt_succ_self 1

end ToeS.Vmm
