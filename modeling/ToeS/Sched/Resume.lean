import ToeS.Sched.Switch

/-!
# Stacks at the same place

Every task has its own page directory, and its stack is at the same addresses as that of any other.
`schedule` of `kern/proc/sched.c` calls `ctx_swtch`, which moves the stack pointer and pops the
registers of the new task, and only then `switch_page_directory`: the pops read the memory of the task
that called.

The directory that is loaded is that of the variable `new` in the frame that the task goes on in. Where
that frame keeps it is up to the compiler, so that the model lets it be any directory; `Step` takes the
ones that can be loaded as a parameter.
-/

namespace ToeS.Resume
open Lib Lib.X86
open Switch (ctxSwtch ctxSave ctxRestore Saved Restored Placed exec_ctxSave exec_ctxRestore)

/-- Where the stack of every task is, and where the record of each one is. -/
structure Layout (ι : Type) where
  lo : Nat
  hi : Nat
  ctx : ι → Word
  low : hi ≤ 0xC0000000
  high : ∀ t, 0xC0000000 ≤ (ctx t).toNat
  record : ∀ t, (ctx t).toNat + 20 ≤ 4294967296
  records : ∀ t u, t ≠ u →
    (ctx t).toNat + 20 ≤ (ctx u).toNat ∨ (ctx u).toNat + 20 ≤ (ctx t).toNat

/-- The processor, whose memory is what the loaded directory shows, that directory, the memory below
`0xC0000000` of the others, the task that runs, and for each task that `ctx_swtch` has suspended what
it had when it called. -/
structure Sys (ι : Type) where
  cpu : Machine
  cr3 : ι
  low : ι → Mem
  cur : ι
  saved : ι → Option Saved

section
variable {ι : Type} (L : Layout ι)

/-- The record of a suspended task has its stack pointer. -/
structure Recorded (m : Mem) (t : ι) (v : Saved) : Prop where
  esp : load m (L.ctx t) = v.esp - 20
  lo : L.lo + 20 ≤ v.esp.toNat
  hi : v.esp.toNat ≤ L.hi

variable {L} {m m' : Mem} {t : ι} {v : Saved}

/-- A record stays as it is. -/
lemma Recorded.congr (h : Recorded L m t v)
    (hm : ∀ x, Bytes (L.ctx t).toNat ((L.ctx t).toNat + 20) x → m' x = m x) :
    Recorded L m' t v := by
  have hsame : SameOff (fun x => ¬ Bytes (L.ctx t).toNat ((L.ctx t).toNat + 20) x) m m' :=
    fun x hx => hm x (not_not.mp hx)
  refine ⟨?_, h.lo, h.hi⟩
  have hrec := L.record t
  rw [SameOff.load hsame (by omega) fun x hx hw => hw ⟨hx.1, by have := hx.2; omega⟩, h.esp]

/-- The frame of a call is the last twenty bytes. -/
lemma Recorded.frame (h : Recorded L m t v) : (v.esp - 20).toNat = v.esp.toNat - 20 := by
  have := h.lo
  bv_omega

/-- The words of a suspended task are below `0xC0000000`. -/
lemma Recorded.words_congr (h : Recorded L m t v) {m₁ m₂ : Mem}
    (hm : ∀ x < 0xC0000000, m₁ x = m₂ x) (hw : WordsAt m₂ (v.esp - 20) v.words) :
    WordsAt m₁ (v.esp - 20) v.words := by
  have hlow := L.low
  have hhi := h.hi
  have hlen : v.words.length = 5 := rfl
  have hsame : SameOff (fun x => 0xC0000000 ≤ x) m₂ m₁ := fun x hx => hm x (not_le.mp hx)
  refine hw.sameOff hsame ?_ fun x hx => ?_
  · rw [h.frame, hlen]
    omega
  · rw [h.frame, hlen] at hx
    exact not_le.mpr (by have := hx.2; have := h.lo; omega)

end

section
variable {ι : Type} [DecidableEq ι]

/-- The memory that the directory of `d` shows. -/
def Sys.space (s : Sys ι) (d : ι) : Mem :=
  fun x => if x < 0xC0000000 ∧ d ≠ s.cr3 then s.low d x else s.cpu.mem x

/-- `switch_page_directory` for the directory of `d`. -/
def switchPageDirectory (s : Sys ι) (d : ι) : Sys ι :=
  { s with
    cpu := { s.cpu with mem := s.space d }
    cr3 := d
    low := Function.update s.low s.cr3 s.cpu.mem }

/-- What is remembered when the task that runs is suspended. -/
def suspend (s : Sys ι) (ret : Word) : ι → Option Saved :=
  Function.update s.saved s.cur (some (.of s.cpu ret))

/-- The call of `ctx_swtch` in `schedule`, for the task `t`. -/
def callSwtch (s : Sys ι) (t : ι) (ret : Word) : Sys ι :=
  { s with
    cpu := s.cpu.exec (.call ret :: ctxSwtch)
    cur := t
    saved := Function.update (suspend s ret) t none }

/-- The end of `schedule`, for the task `t`: the context switch, and then the directory of `d`. -/
def schedule (s : Sys ι) (t d : ι) (ret : Word) : Sys ι := switchPageDirectory (callSwtch s t ret) d

variable (L : Layout ι)

/-- The task that runs is about to call `ctx_swtch` for the task `t`: the arguments are on its stack,
which has room for the call. -/
structure Calls (s : Sys ι) (t : ι) : Prop where
  args : s.cpu.Stack [L.ctx s.cur, L.ctx t]
  lo : L.lo + 20 ≤ (s.cpu.reg .esp).toNat
  hi : (s.cpu.reg .esp).toNat + 8 ≤ L.hi

/-- A task runs, and changes what it likes in the memory that it sees but the records of suspended
tasks, or it calls `schedule`. `R t d` says that the directory of `d` may be loaded when `t` goes on. -/
inductive Step (R : ι → ι → Prop) : Sys ι → Sys ι → Prop
  | run {s s' : Sys ι} (hcur : s'.cur = s.cur) (hsaved : s'.saved = s.saved) (hcr3 : s'.cr3 = s.cr3)
    (hlow : ∀ d, d ≠ s.cr3 → s'.low d = s.low d)
    (hrec : ∀ t v, s.saved t = some v → ∀ x, Bytes (L.ctx t).toNat ((L.ctx t).toNat + 20) x →
      s'.cpu.mem x = s.cpu.mem x) : Step R s s'
  | schedule {s : Sys ι} (t d : ι) (ret : Word) (h : Calls L s t) (hd : R t d) :
    Step R s (schedule s t d ret)

/-- What holds between two steps, whatever directories are loaded. -/
structure Inv (s : Sys ι) : Prop where
  cur : s.saved s.cur = none
  saved : ∀ t v, s.saved t = some v → Recorded L s.cpu.mem t v

variable {L} {R : ι → ι → Prop} {m m' : Mem} {s s' s₀ : Sys ι} {t d u : ι} {ret : Word} {v : Saved}

/-! ## The memories -/

/-- The address space that is loaded is the processor's memory. -/
@[simp] lemma space_cr3 : s.space s.cr3 = s.cpu.mem := by
  funext x
  simp [Sys.space]

/-- The memory from `0xC0000000` on is the same for all. -/
lemma space_high {x : Nat} (hx : 0xC0000000 ≤ x) : s.space d x = s.cpu.mem x :=
  if_neg fun h => absurd h.1 hx.not_gt

/-- Another directory changes what the processor sees, not what a directory shows. -/
@[simp] lemma switchPageDirectory_space : (switchPageDirectory s d).space u = s.space u := by
  funext x
  unfold Sys.space switchPageDirectory
  by_cases hu : u = s.cr3
  · subst hu
    simp only [Function.update_self]
    split_ifs <;> simp_all [Sys.space]
  · simp only [Function.update_of_ne hu]
    split_ifs <;> simp_all [Sys.space]

/-- And no register. -/
lemma switchPageDirectory_restored : Restored v (switchPageDirectory s d).cpu ↔ Restored v s.cpu :=
  ⟨fun ⟨h₁, h₂, h₃, h₄, h₅, h₆⟩ => ⟨h₁, h₂, h₃, h₄, h₅, h₆⟩,
    fun ⟨h₁, h₂, h₃, h₄, h₅, h₆⟩ => ⟨h₁, h₂, h₃, h₄, h₅, h₆⟩⟩

/-! ## The frames -/

/-- The five words that the call and `ctx_swtch` push, in the order of the pushes. -/
def frameWords (m : Machine) (ret : Word) : List Word :=
  [ret, m.reg .ebp, m.reg .ebx, m.reg .esi, m.reg .edi]

/-- The memory of the task that calls has, at the stack pointer that the record has for a suspended
one, the words of the suspended one, after the frame of the one that calls is pushed. -/
def SameFrame (m : Machine) (ret : Word) (v : Saved) : Prop :=
  WordsAt (m.pushes (frameWords m ret)).mem (v.esp - 20) v.words

/-- The pops take the registers of `v` exactly if they find them at its stack pointer. -/
lemma restored_iff {m : Machine} (he : load m.mem (m.reg .edx) = v.esp - 20) :
    Restored v (m.exec ctxRestore) ↔ WordsAt m.mem (v.esp - 20) v.words := by
  obtain ⟨e, he'⟩ : ∃ e, e = v.esp - 20 := ⟨_, rfl⟩
  rw [← he'] at he ⊢
  have hesp : e + 20 = v.esp := by grind
  constructor
  · intro h
    -- what is there
    obtain ⟨w, hw⟩ : ∃ w : Saved, WordsAt m.mem e w.words :=
      ⟨⟨_, _, _, _, e, _⟩, rfl, rfl, rfl, rfl, rfl, trivial⟩
    have hres := (exec_ctxRestore he hw).1
    have hedi : w.edi = v.edi := hres.edi.symm.trans h.edi
    have hesi : w.esi = v.esi := hres.esi.symm.trans h.esi
    have hebx : w.ebx = v.ebx := hres.ebx.symm.trans h.ebx
    have hebp : w.ebp = v.ebp := hres.ebp.symm.trans h.ebp
    have heip : w.eip = v.eip := hres.eip.symm.trans h.eip
    rwa [Saved.words, hedi, hesi, hebx, hebp, heip] at hw
  · intro hw
    have hres := (exec_ctxRestore he hw).1
    rwa [hesp] at hres

/-- Off the record of the task that calls, `ctx_swtch` leaves the memory as the pushes do. -/
lemma ctxSave_pushes {m : Machine} {old new : Word} (ret : Word) (hs : m.Stack [old, new])
    (hroom : 20 ≤ (m.reg .esp).toNat) (hp : Placed old ((m.reg .esp).toNat - 4)) :
    SameOff (Bytes old.toNat (old.toNat + 20)) (m.pushes (frameWords m ret)).mem
      (m.exec (.call ret :: ctxSave)).mem := by
  obtain ⟨-, -, hwords, hoff⟩ := exec_ctxSave ret hs hroom hp
  have hpush : WordsAt (m.pushes (frameWords m ret)).mem (m.reg .esp - 20) (Saved.of m ret).words := by
    have h : (m.pushes (frameWords m ret)).Stack (Saved.of m ret).words :=
      Machine.Stack.nil.pushes (by simp [frameWords])
    rwa [Machine.Stack, Machine.pushes_esp] at h
  have hpushOff : SameOff (Bytes ((m.reg .esp).toNat - 20) (m.reg .esp).toNat) m.mem
      (m.pushes (frameWords m ret)).mem :=
    @Machine.pushes_sameOff m (frameWords m ret) hroom
  have hsub : (m.reg .esp - 20).toNat = (m.reg .esp).toNat - 20 := by bv_omega
  have hlen : (Saved.of m ret).words.length = 5 := rfl
  have hlt := (m.reg .esp).isLt
  intro x hx
  by_cases hin : Bytes ((m.reg .esp).toNat - 20) (m.reg .esp).toNat x
  · refine hpush.bytes hwords (by omega) x (not_not.mpr ?_)
    rw [hsub, hlen]
    exact ⟨hin.1, by have := hin.2; omega⟩
  · rw [hpushOff x hin]
    exact hoff x fun h => h.elim hx hin

/-! ## Runs -/

/-- The call of `ctx_swtch`: what it leaves alone, the frame and the record of the task that calls, and
when the new task gets its registers back. -/
lemma callSwtch_spec (hI : Inv L s) (hc : Calls L s t) :
    SameOff (fun x => Bytes (L.ctx s.cur).toNat ((L.ctx s.cur).toNat + 20) x ∨
        Bytes ((s.cpu.reg .esp).toNat - 20) (s.cpu.reg .esp).toNat x) s.cpu.mem
        (callSwtch s t ret).cpu.mem ∧
      WordsAt (callSwtch s t ret).cpu.mem (s.cpu.reg .esp - 20) (Saved.of s.cpu ret).words ∧
      (∀ u v, suspend s ret u = some v → Recorded L (callSwtch s t ret).cpu.mem u v) ∧
      ∀ v, suspend s ret t = some v →
        (Restored v (callSwtch s t ret).cpu ↔ SameFrame s.cpu ret v) := by
  obtain ⟨hargs, hlo, hhi⟩ := hc
  have hlow := L.low
  have hhigh := L.high s.cur
  obtain ⟨m, hm⟩ : ∃ m, m = s.cpu.exec (.call ret :: ctxSave) := ⟨_, rfl⟩
  have hrun : (callSwtch s t ret).cpu = m.exec ctxRestore := by
    rw [callSwtch, ctxSwtch, ← List.cons_append, Machine.exec_append, ← hm]
  have hmem : (callSwtch s t ret).cpu.mem = m.mem := by
    rw [hrun]
    rfl
  have hp : Placed (L.ctx s.cur) ((s.cpu.reg .esp).toNat - 4) :=
    ⟨L.record _, by omega, by omega, by omega⟩
  obtain ⟨hedx, hesp, hwords, hoff⟩ := exec_ctxSave ret hargs (by omega) hp
  have hpush := ctxSave_pushes ret hargs (by omega) hp
  rw [← hm] at hedx hesp hwords hoff hpush
  have hrec : ∀ u v, suspend s ret u = some v → Recorded L m.mem u v := by
    intro u v hv
    by_cases hu : u = s.cur
    · subst hu
      rw [suspend, Function.update_self] at hv
      cases hv
      exact ⟨hesp, hlo, (Nat.le_add_right _ 8).trans hhi⟩
    · rw [suspend, Function.update_of_ne hu] at hv
      refine (hI.saved u v hv).congr fun x hx => hoff x fun hw => ?_
      have hrecords := L.records u s.cur hu
      have hhigh' := L.high u
      unfold Bytes at hx hw
      omega
  rw [hmem]
  refine ⟨hoff, hwords, hrec, fun v hv => ?_⟩
  have hv' := hrec t v hv
  rw [hrun, restored_iff (hedx ▸ hv'.esp)]
  -- the words are not in the record
  have hagree : ∀ x < 0xC0000000, m.mem x = (s.cpu.pushes (frameWords s.cpu ret)).mem x := fun x hx =>
    hpush x fun hw => absurd hw.1 (by omega)
  exact ⟨hv'.words_congr fun x hx => (hagree x hx).symm, hv'.words_congr hagree⟩

/-- A step keeps the invariant of the tasks. -/
lemma Inv.step (hI : Inv L s) (h : Step L R s s') : Inv L s' := by
  cases h with
  | run hcur hsaved _ _ hrec =>
    refine ⟨by rw [hsaved, hcur, hI.cur], fun t v hv => ?_⟩
    rw [hsaved] at hv
    exact (hI.saved t v hv).congr (hrec t v hv)
  | schedule t d ret hc hd =>
    refine ⟨Function.update_self .., fun u v hv => ?_⟩
    have hv : Function.update (suspend s ret) t none u = some v := hv
    by_cases hu : u = t
    · subst hu
      rw [Function.update_self] at hv
      cases hv
    · rw [Function.update_of_ne hu] at hv
      refine ((callSwtch_spec hI hc).2.2.1 u v hv).congr fun x hx => ?_
      exact space_high ((L.high u).trans hx.1)

/-- A run in which no task is suspended at first. -/
lemma Inv.run (h0 : ∀ t, s₀.saved t = none) (h : Relation.ReflTransGen (Step L R) s₀ s) :
    Inv L s := by
  induction h with
  | refl => exact ⟨h0 _, fun t v hv => by rw [h0 t] at hv; cases hv⟩
  | tail _ h ih => exact ih.step h

/-- In every run, and whatever directories it loads, a suspended task that is switched to gets its
registers back exactly if the memory of the task that calls has its words, too. -/
lemma schedule_restored (h0 : ∀ t, s₀.saved t = none)
    (h : Relation.ReflTransGen (Step L R) s₀ s) (hc : Calls L s t)
    (hv : suspend s ret t = some v) :
    Restored v (schedule s t d ret).cpu ↔ SameFrame s.cpu ret v := by
  rw [schedule, switchPageDirectory_restored]
  exact (callSwtch_spec (.run h0 h) hc).2.2.2 v hv

/-! ## Every task in its own directory -/

/-- The loaded directory is that of the task that runs, and every other one has the words of its task
where `ctx_swtch` has pushed them. -/
structure Private (s : Sys ι) : Prop where
  cr3 : s.cr3 = s.cur
  words : ∀ t v, s.saved t = some v → WordsAt (s.space t) (v.esp - 20) v.words

/-- In address spaces of their own tasks stay private. -/
lemma Private.step (hI : Inv L s) (hP : Private s) (h : Step L Eq s s') : Private s' := by
  have hother : ∀ {u v}, s.saved u = some v → u ≠ s.cur := by
    rintro u v hv rfl
    rw [hI.cur] at hv
    cases hv
  cases h with
  | run hcur hsaved hcr3 hlow hrec =>
    refine ⟨by rw [hcr3, hcur, hP.cr3], fun u v hv => ?_⟩
    rw [hsaved] at hv
    have hu : u ≠ s.cr3 := hP.cr3 ▸ hother hv
    refine (hI.saved u v hv).words_congr (fun x hx => ?_) (hP.words u v hv)
    rw [Sys.space, Sys.space, if_pos ⟨hx, hcr3 ▸ hu⟩, if_pos ⟨hx, hu⟩, hlow u hu]
  | schedule t d ret hc hd =>
    subst hd
    refine ⟨rfl, fun u v hv => ?_⟩
    obtain ⟨-, hwords, hrec, -⟩ := callSwtch_spec hI hc
    have hv : Function.update (suspend s ret) t none u = some v := hv
    rw [schedule, switchPageDirectory_space]
    by_cases ht : u = t
    · rw [ht, Function.update_self] at hv
      cases hv
    rw [Function.update_of_ne ht] at hv
    by_cases hu : u = s.cur
    · -- the task that has called
      have hspace : (callSwtch s t ret).space u = (callSwtch s t ret).cpu.mem := by
        rw [hu, ← hP.cr3]
        exact space_cr3 (s := callSwtch s t ret)
      rw [hspace]
      rw [suspend, hu, Function.update_self] at hv
      cases hv
      exact hwords
    · have hu' : u ≠ s.cr3 := hP.cr3 ▸ hu
      refine (hrec u v hv).words_congr (fun x hx => ?_)
        (hP.words u v (by rwa [suspend, Function.update_of_ne hu] at hv))
      rw [Sys.space, Sys.space, if_pos ⟨hx, hu'⟩, if_pos ⟨hx, hu'⟩]
      rfl

/-- A run in which every task gets its own directory. -/
lemma Private.run (h0 : ∀ t, s₀.saved t = none) (hcr3 : s₀.cr3 = s₀.cur)
    (h : Relation.ReflTransGen (Step L Eq) s₀ s) : Private s := by
  induction h with
  | refl => exact ⟨hcr3, fun t v hv => by rw [h0 t] at hv; cases hv⟩
  | tail h h' ih => exact ih.step (.run h0 h) h'

/-- Then the memory of the task that calls has the words of the other one if the two memories are equal
where the other one has its frame. -/
theorem sameFrame_iff (h0 : ∀ t, s₀.saved t = none) (hcr3 : s₀.cr3 = s₀.cur)
    (h : Relation.ReflTransGen (Step L Eq) s₀ s) (hv : s.saved t = some v) :
    SameFrame s.cpu ret v ↔ ∀ x, Bytes (v.esp.toNat - 20) v.esp.toNat x →
      (s.cpu.pushes (frameWords s.cpu ret)).mem x = s.space t x := by
  have hrec := (Inv.run h0 h).saved t v hv
  have hwords := (Private.run h0 hcr3 h).words t v hv
  have hlo := hrec.lo
  have hlt := v.esp.isLt
  have hlen : v.words.length = 5 := rfl
  have hend : (v.esp - 20).toNat + 4 * v.words.length = v.esp.toNat := by
    rw [hrec.frame, hlen]
    omega
  constructor
  · intro hf x hx
    exact hwords.bytes hf (by omega) x (not_not.mpr (by rwa [hend, hrec.frame]))
  · intro hx
    refine hwords.sameOff (W := fun x => ¬ Bytes (v.esp.toNat - 20) v.esp.toNat x)
      (fun x hw => hx x (not_not.mp hw)) (by omega) fun x hw => not_not.mpr ?_
    rwa [hend, hrec.frame] at hw

/-- A suspended task that is switched to gets its registers back exactly if the memory of the task that
calls has its words, too, whatever directories the run loads; where every task has its own, exactly if
the two memories are equal where the suspended task has its frame. -/
theorem schedule_restores_iff (h0 : ∀ t, s₀.saved t = none)
    (h : Relation.ReflTransGen (Step L R) s₀ s) (hc : Calls L s t)
    (hv : suspend s ret t = some v) :
    (Restored v (schedule s t d ret).cpu ↔ SameFrame s.cpu ret v) ∧
      (s₀.cr3 = s₀.cur → Relation.ReflTransGen (Step L Eq) s₀ s → s.saved t = some v →
        (Restored v (schedule s t d ret).cpu ↔
          ∀ x, Bytes (v.esp.toNat - 20) v.esp.toNat x →
            (s.cpu.pushes (frameWords s.cpu ret)).mem x = s.space t x)) := by
  have hiff := schedule_restored (d := d) h0 h hc hv
  exact ⟨hiff, fun hcr3 hown hs => hiff.trans (sameFrame_iff h0 hcr3 hown hs)⟩

end

/-- Two tasks. -/
def twoTasks : Layout Bool where
  lo := 0xBFFFC000
  hi := 0xC0000000
  ctx t := if t then 0xC0400020 else 0xC0400000
  low := by decide
  high := by decide
  record := by decide
  records := by decide

/-- The first task is about to call, and no task is suspended. -/
def firstCall : Sys Bool :=
  ⟨Switch.calling (fun _ => 0) 0xBFFFFF00 0xC0400000 0xC0400020, false, fun _ _ => 0, false,
    fun _ => none⟩

/-- The second task is about to call back, with more on its stack. -/
def secondCall : Sys Bool :=
  { schedule firstCall true true 7 with
    cpu := Switch.calling (schedule firstCall true true 7).cpu.mem 0xBFFFFE00 0xC0400020 0xC0400000 }

/-- The second task has called `switch_to`. -/
lemma secondCall_calls : Calls twoTasks secondCall false :=
  ⟨Switch.calling_stack, by decide, by decide⟩

/-- The second task has put the arguments on its stack. -/
lemma secondCall_mem :
    SameOff (Bytes 0xBFFFFE00 0xBFFFFE08) (schedule firstCall true true 7).cpu.mem
      secondCall.cpu.mem :=
  ((SameOff.store (by decide)).mono fun _ hx => ⟨hx.1, hx.2.trans_le (by decide)⟩).trans
    ((SameOff.store (by decide)).mono fun _ hx => ⟨le_trans (by decide) hx.1, hx.2⟩)

/-- The two tasks come to that from the first call. -/
lemma secondCall_run : Relation.ReflTransGen (Step twoTasks Eq) firstCall secondCall := by
  have hcall : Calls twoTasks firstCall true := ⟨Switch.calling_stack, by decide, by decide⟩
  refine .tail (.single (.schedule true true 7 hcall rfl)) ?_
  refine .run rfl rfl rfl (fun _ _ => rfl) fun t v _ x hx => ?_
  have hhigh := (twoTasks.high t).trans hx.1
  exact secondCall_mem x fun hw => absurd hw.2 (by omega)

/-- It has nothing where the first one has its frame. -/
lemma secondCall_frame : ¬ SameFrame secondCall.cpu 9 (.of firstCall.cpu 7) := by
  rintro ⟨hedi, -⟩
  have hspace : SameOff (fun x => 0xC0000000 ≤ x) (fun _ => 0)
      (schedule firstCall true true 7).cpu.mem := fun x hx => if_pos ⟨not_le.mp hx, by decide⟩
  have hpush : SameOff (Bytes 0xBFFFFDEC 0xBFFFFE00) secondCall.cpu.mem
      (secondCall.cpu.pushes (frameWords secondCall.cpu 9)).mem :=
    @Machine.pushes_sameOff secondCall.cpu (frameWords secondCall.cpu 9) (by decide)
  have hzero : SameOff (fun x => ¬ Bytes 0xBFFFFEEC 0xBFFFFF00 x) (fun _ => 0)
      (secondCall.cpu.pushes (frameWords secondCall.cpu 9)).mem := by
    refine ((hspace.mono ?_).trans (secondCall_mem.mono ?_)).trans (hpush.mono ?_)
    all_goals
      intro x hx hin
      unfold Bytes at *
      omega
  have hload := SameOff.load (a := 0xBFFFFEEC) hzero (by decide) fun x hx => not_not.mpr
    ⟨hx.1, hx.2.trans_le (by decide)⟩
  have hne : load (fun _ => 0) 0xBFFFFEEC ≠ 0xBFFFFF00 := by decide
  exact hne (hload.symm.trans hedi)

/-- The second task switches back to the first one, whose words are in its memory as it has left them,
and the first one gets other registers. -/
theorem schedule_other_registers :
    Relation.ReflTransGen (Step twoTasks Eq) firstCall secondCall ∧ Calls twoTasks secondCall false ∧
      secondCall.saved false = some (.of firstCall.cpu 7) ∧
      WordsAt (secondCall.space false) 0xBFFFFEEC (Saved.of firstCall.cpu 7).words ∧
      ¬ Restored (.of firstCall.cpu 7) (schedule secondCall false false 9).cpu := by
  have hwords := (Private.run (fun _ => rfl) rfl secondCall_run).words false _ rfl
  refine ⟨secondCall_run, secondCall_calls, rfl, hwords, fun h => secondCall_frame ?_⟩
  have hI : Inv twoTasks secondCall := .run (fun _ => rfl) secondCall_run
  rw [schedule, switchPageDirectory_restored] at h
  exact ((callSwtch_spec hI secondCall_calls).2.2.2 _ rfl).mp h

/-- What the first task gets back depends on what the second one has there. -/
theorem schedule_restores_iff_second :
    (Restored (.of firstCall.cpu 7) (schedule secondCall false false 9).cpu ↔
      SameFrame secondCall.cpu 9 (.of firstCall.cpu 7)) ∧
    (Restored (.of firstCall.cpu 7) (schedule secondCall false false 9).cpu ↔
      ∀ x, Bytes ((Saved.of firstCall.cpu 7).esp.toNat - 20) (Saved.of firstCall.cpu 7).esp.toNat x →
        (secondCall.cpu.pushes (frameWords secondCall.cpu 9)).mem x = secondCall.space false x) := by
  have hv : suspend secondCall 9 false = some (.of firstCall.cpu 7) := rfl
  obtain ⟨hframe, hmem⟩ :=
    schedule_restores_iff (d := false) (fun _ => rfl) secondCall_run secondCall_calls hv
  exact ⟨hframe, hmem rfl secondCall_run rfl⟩

end ToeS.Resume
